import Orchestrator.Core.Types
import Orchestrator.Lib.Collections

/-! # Core — Tree

Node records and the in-memory search tree: a record and a child list per node, both
indexed by the node id. A `Tree` carries the proof that it is one: ids are positions,
parents precede their children, child lists and child counts agree with the parent
pointers, and the status flags are consistent. Every mutation either fails and changes
nothing, or returns the changed tree, so the proof is made once per mutation, here.

* `Tree.insertChild_ok`, `Tree.incrementVisits_ok`, `Tree.markPruned_ok`,
  `Tree.markGoal_ok`, `Tree.markExhausted_ok`: what a successful mutation did.
* `Tree.get_push`, `Tree.get_update`, `Tree.images_push`, `Tree.images_update`: the effect
  on lookups and on what nodes are.
-/

namespace Orchestrator.Core

open Lib

variable {F : Type} [Float64 F]

structure NodePayload (F : Type) [Float64 F] where
  snapshot : SnapshotRef
  score : Score F
  noveltyAtCommit : Novelty F
  cell : CellKey
  stateHash : StateHash
  stage : Nat
  frameCounter : Nat
deriving DecidableEq

/-- A node record. The payload's fields are kept together, as `NodeRecord::payload`
reads them back. -/
structure NodeRecord (F : Type) [Float64 F] where
  id : NodeId
  parent : Option NodeId
  depth : Nat
  payload : NodePayload F
  visits : Nat
  children : Nat
  exhausted : Bool
  goal : Bool
  status : NodeStatus
deriving DecidableEq

/-- `NodeRecord::new`. -/
def NodeRecord.new (id : NodeId) (parent : Option NodeId) (depth : Nat)
    (payload : NodePayload F) : NodeRecord F :=
  { id, parent, depth, payload, visits := 0, children := 0, exhausted := false,
    goal := false, status := .frontier }

/-- What a node is from its creation on: where it hangs and the state it stands for. -/
structure NodeImage (F : Type) [Float64 F] where
  parent : Option NodeId
  depth : Nat
  snapshot : SnapshotRef
  score : Score F
  cell : CellKey
  stateHash : StateHash
deriving DecidableEq

def NodePayload.image (payload : NodePayload F) (parent : Option NodeId) (depth : Nat) :
    NodeImage F :=
  ⟨parent, depth, payload.snapshot, payload.score, payload.cell, payload.stateHash⟩

def NodeRecord.image (record : NodeRecord F) : NodeImage F :=
  record.payload.image record.parent record.depth

/-- `NodeRecord::is_frontier_candidate`. -/
def NodeRecord.isFrontierCandidate (record : NodeRecord F) : Bool :=
  decide (record.status = .frontier) && !record.exhausted

/-- The status `mark_expanded` and `mark_exhausted` write: goal and pruned nodes keep
theirs. -/
def NodeRecord.expandedStatus (record : NodeRecord F) : NodeStatus :=
  if record.goal = false ∧ record.status ≠ .pruned then .expanded else record.status

inductive TreeError where
  | missingParent (parent : NodeId)
  | nodeNotFound (id : NodeId)
  | depthOverflow (parent : NodeId)
  | childCountOverflow (parent : NodeId)
  | visitOverflow (id : NodeId)
  | terminalGoalNode (id : NodeId)
  | terminalPrunedNode (id : NodeId)
deriving DecidableEq, Repr

/-- What makes a vector of records and a vector of child lists a tree. -/
structure Tree.WellFormed (records : List (NodeRecord F)) (children : List (List NodeId)) :
    Prop where
  nonempty : 0 < records.length
  length_eq : children.length = records.length
  id_eq : ∀ (i : Nat) (r : NodeRecord F), records[i]? = some r → r.id = i
  root : ∀ r : NodeRecord F, records[0]? = some r → r.parent = none ∧ r.depth = 0
  parent : ∀ (i : Nat) (r : NodeRecord F), records[i]? = some r → 0 < i →
    ∃ p rp, r.parent = some p ∧ p < i ∧ records[p]? = some rp ∧ r.depth = rp.depth + 1
  mem_children : ∀ (i : Nat) cs, children[i]? = some cs →
    ∀ c, c ∈ cs ↔ ∃ r, records[c]? = some r ∧ r.parent = some i
  children_sorted : ∀ (i : Nat) cs, children[i]? = some cs → cs.Pairwise (· < ·)
  children_count : ∀ (i : Nat) (r : NodeRecord F) (cs : List NodeId),
    records[i]? = some r → children[i]? = some cs → r.children = cs.length
  goal_iff : ∀ (i : Nat) (r : NodeRecord F), records[i]? = some r →
    (r.goal = true ↔ r.status = .goal)
  frontier_live : ∀ (i : Nat) (r : NodeRecord F), records[i]? = some r →
    r.status = .frontier → r.exhausted = false
  bounded : ∀ (i : Nat) (r : NodeRecord F), records[i]? = some r →
    r.depth < 2 ^ 32 ∧ r.children < 2 ^ 32

structure Tree (F : Type) [Float64 F] where
  records : List (NodeRecord F)
  childrenByNode : List (List NodeId)
  wf : Tree.WellFormed records childrenByNode
deriving DecidableEq

namespace Tree

def len (t : Tree F) : Nat := t.records.length

def nextId (t : Tree F) : NodeId := t.records.length

def get (t : Tree F) (id : NodeId) : Option (NodeRecord F) := t.records[id]?

def childrenOf (t : Tree F) (id : NodeId) : List NodeId := t.childrenByNode[id]?.getD []

variable {t t' : Tree F} {id : NodeId} {r : NodeRecord F} {records : List (NodeRecord F)}
  {children : List (List NodeId)} {parent : NodeId}

theorem lt_len_of_get (h : t.get id = some r) : id < t.len :=
  (List.getElem?_eq_some_iff.mp h).1

theorem get_of_lt_len (h : id < t.len) : ∃ r, t.get id = some r :=
  ⟨t.records.get ⟨id, h⟩, List.getElem?_eq_getElem h⟩

theorem get_eq_none (h : t.len ≤ id) : t.get id = none :=
  List.getElem?_eq_none h

theorem len_pos (t : Tree F) : 0 < t.len := t.wf.nonempty

/-! ### Construction -/

theorem WellFormed.root_only (payload : NodePayload F) :
    WellFormed [NodeRecord.new NodeId.root none 0 payload] [[]] := by
  have single : ∀ {α : Type} {x y : α} {i : Nat}, [x][i]? = some y → i = 0 ∧ y = x := by
    intro α x y i h
    cases i with
    | zero => simpa [eq_comm] using h
    | succ i => simp at h
  constructor
  · simp
  · simp
  · intro i r h; obtain ⟨rfl, rfl⟩ := single h; rfl
  · intro r h; obtain ⟨-, rfl⟩ := single h; exact ⟨rfl, rfl⟩
  · intro i r h hi; exact absurd (single h).1 (by omega)
  · intro i cs h c
    obtain ⟨rfl, rfl⟩ := single h
    constructor
    · intro hc; cases hc
    · rintro ⟨r, hr, hp⟩; obtain ⟨-, rfl⟩ := single hr; cases hp
  · intro i cs h; obtain ⟨-, rfl⟩ := single h; exact .nil
  · intro i r cs hr hc
    obtain ⟨-, rfl⟩ := single hr
    obtain ⟨-, rfl⟩ := single hc
    rfl
  · intro i r h; obtain ⟨-, rfl⟩ := single h; simp [NodeRecord.new]
  · intro i r h _; obtain ⟨-, rfl⟩ := single h; rfl
  · intro i r h; obtain ⟨-, rfl⟩ := single h; simp [NodeRecord.new]

def fromRoot (payload : NodePayload F) : Tree F where
  records := [.new NodeId.root none 0 payload]
  childrenByNode := [[]]
  wf := .root_only payload

/-! ### Adding a child -/

theorem WellFormed.parent_lt (wf : WellFormed records children) {i p : NodeId}
    (h : records[i]? = some r) (hp : r.parent = some p) : p < i := by
  cases i with
  | zero => simp [(wf.root r h).1] at hp
  | succ i =>
    obtain ⟨q, -, hq, hlt, -⟩ := wf.parent _ _ h (Nat.succ_pos i)
    obtain rfl : q = p := by simpa [hq] using hp
    exact hlt

/-- The node `record` stands at `parent` and its counters leave room for one more child. -/
structure Room (records : List (NodeRecord F)) (parent : NodeId) (record : NodeRecord F) :
    Prop where
  get : records[parent]? = some record
  depth : record.depth + 1 < 2 ^ 32
  children : record.children + 1 < 2 ^ 32

/-- The vectors after appending a child under the node at `parent`. -/
theorem WellFormed.push (wf : WellFormed records children) {record : NodeRecord F}
    (room : Room records parent record) (payload : NodePayload F) :
    WellFormed
      (records.modify parent (fun r => { r with children := r.children + 1 }) ++
        [.new records.length (some parent) (record.depth + 1) payload])
      (children.modify parent (· ++ [records.length]) ++ [[]]) := by
  obtain ⟨h, hdepth, hchildren⟩ := room
  have hlt : parent < records.length := (List.getElem?_eq_some_iff.mp h).1
  have hlen := wf.length_eq
  refine ⟨by simp, by simp [hlen], ?_, ?_, ?_, ?_, ?_, ?_, ?_, ?_, ?_⟩ <;>
    simp only [getElem?_modify_concat, hlen]
  · intro i r hr
    have := wf.id_eq i
    grind [NodeRecord.new]
  · intro r hr
    have := wf.root
    grind
  · intro i r hr hi
    have := wf.parent i
    grind [NodeRecord.new]
  · intro i cs hc c
    have := wf.mem_children i
    have hpar : ∀ r p, records[c]? = some r → r.parent = some p → p < c :=
      fun _ _ => wf.parent_lt
    grind [NodeRecord.new]
  · intro i cs hc
    have := wf.children_sorted i
    have := wf.mem_children i
    grind [NodeRecord.new]
  · intro i r cs hr hc
    have := wf.children_count i
    grind [NodeRecord.new]
  · intro i r hr
    have := wf.goal_iff i
    grind [NodeRecord.new]
  · intro i r hr
    have := wf.frontier_live i
    grind [NodeRecord.new]
  · intro i r hr
    have := wf.bounded i
    grind [NodeRecord.new]

/-- Appends a child of the node `record` found at `parent`. -/
def push (t : Tree F) (parent : NodeId) (record : NodeRecord F)
    (h : Room t.records parent record) (payload : NodePayload F) : Tree F where
  records := t.records.modify parent (fun r => { r with children := r.children + 1 }) ++
    [.new t.records.length (some parent) (record.depth + 1) payload]
  childrenByNode := t.childrenByNode.modify parent (· ++ [t.records.length]) ++ [[]]
  wf := t.wf.push h payload

def insertChild (t : Tree F) (parent : NodeId) (payload : NodePayload F) :
    Except TreeError (NodeId × Tree F) :=
  match h : t.get parent with
  | none => .error (.missingParent parent)
  | some record =>
    if hd : (checkedAdd32 record.depth 1).isNone then .error (.depthOverflow parent)
    else if hc : (checkedAdd32 record.children 1).isNone then .error (.childCountOverflow parent)
    else .ok (t.nextId,
      t.push parent record ⟨h, checkedAdd32_lt hd, checkedAdd32_lt hc⟩ payload)

/-! ### Changing a node in place -/

/-- The record changes allowed in place: they keep the place in the tree, and keep the
status flags consistent. -/
structure Keeps (f : NodeRecord F → NodeRecord F) : Prop where
  shape : ∀ r, (f r).id = r.id ∧ (f r).parent = r.parent ∧ (f r).depth = r.depth ∧
    (f r).children = r.children ∧ (f r).payload = r.payload
  goal_iff : ∀ r, (r.goal = true ↔ r.status = .goal) →
    ((f r).goal = true ↔ (f r).status = .goal)
  frontier_live : ∀ r, (r.goal = true ↔ r.status = .goal) →
    (r.status = .frontier → r.exhausted = false) →
    ((f r).status = .frontier → (f r).exhausted = false)

theorem WellFormed.modify (wf : WellFormed records children) (id : NodeId)
    {f : NodeRecord F → NodeRecord F} (hf : Keeps f) :
    WellFormed (records.modify id f) children := by
  have hshape := hf.shape
  refine ⟨by simpa using wf.nonempty, by simpa using wf.length_eq, ?_, ?_, ?_, ?_,
    wf.children_sorted, ?_, ?_, ?_, ?_⟩ <;> simp only [getElem?_modify_if]
  · intro i r hr
    have := wf.id_eq i
    grind
  · intro r hr
    have := wf.root
    grind
  · intro i r hr hi
    have := wf.parent i
    grind
  · intro i cs hc c
    have := wf.mem_children i cs hc c
    grind
  · intro i r cs hr hc
    have := wf.children_count i
    grind
  · intro i r hr
    have := wf.goal_iff i
    have := hf.goal_iff
    grind
  · intro i r hr
    have := wf.goal_iff i
    have := wf.frontier_live i
    have := hf.frontier_live
    grind
  · intro i r hr
    have := wf.bounded i
    grind

/-- Writes through `record_mut`. -/
def update (t : Tree F) (id : NodeId) (f : NodeRecord F → NodeRecord F) (hf : Keeps f) :
    Tree F where
  records := t.records.modify id f
  childrenByNode := t.childrenByNode
  wf := t.wf.modify id hf

def setVisits (visits : Nat) (r : NodeRecord F) : NodeRecord F := { r with visits := visits }

def setExpanded (r : NodeRecord F) : NodeRecord F := { r with status := r.expandedStatus }

def setExhausted (r : NodeRecord F) : NodeRecord F :=
  { r with exhausted := true, status := r.expandedStatus }

def setGoal (r : NodeRecord F) : NodeRecord F :=
  { r with goal := true, exhausted := false, status := .goal }

def setPruned (r : NodeRecord F) : NodeRecord F :=
  { r with exhausted := true, goal := false, status := .pruned }

theorem setVisits_keeps (visits : Nat) : Keeps (setVisits (F := F) visits) := by
  constructor <;> simp [setVisits]

theorem setExpanded_keeps : Keeps (setExpanded (F := F)) := by
  constructor <;> grind [setExpanded, NodeRecord.expandedStatus]

theorem setExhausted_keeps : Keeps (setExhausted (F := F)) := by
  constructor <;> grind [setExhausted, NodeRecord.expandedStatus]

theorem setGoal_keeps : Keeps (setGoal (F := F)) := by
  constructor <;> simp [setGoal]

theorem setPruned_keeps : Keeps (setPruned (F := F)) := by
  constructor <;> simp [setPruned]

def incrementVisits (t : Tree F) (id : NodeId) : Except TreeError (Nat × Tree F) :=
  match t.get id with
  | none => .error (.nodeNotFound id)
  | some record =>
    match checkedAdd32 record.visits 1 with
    | none => .error (.visitOverflow id)
    | some visits => .ok (visits, t.update id (setVisits visits) (setVisits_keeps visits))

def markExpanded (t : Tree F) (id : NodeId) : Except TreeError (Tree F) :=
  match t.get id with
  | none => .error (.nodeNotFound id)
  | some _ => .ok (t.update id setExpanded setExpanded_keeps)

def markExhausted (t : Tree F) (id : NodeId) : Except TreeError (Tree F) :=
  match t.get id with
  | none => .error (.nodeNotFound id)
  | some record =>
    if record.status = .goal ∨ record.goal then .error (.terminalGoalNode id)
    else .ok (t.update id setExhausted setExhausted_keeps)

def markGoal (t : Tree F) (id : NodeId) : Except TreeError (Tree F) :=
  match t.get id with
  | none => .error (.nodeNotFound id)
  | some record =>
    if record.status = .pruned then .error (.terminalPrunedNode id)
    else .ok (t.update id setGoal setGoal_keeps)

def markPruned (t : Tree F) (id : NodeId) : Except TreeError (Tree F) :=
  match t.get id with
  | none => .error (.nodeNotFound id)
  | some record =>
    if record.status = .goal ∨ record.goal then .error (.terminalGoalNode id)
    else .ok (t.update id setPruned setPruned_keeps)

/-! ### What a mutation did -/

@[simp] theorem len_push (t : Tree F) (parent : NodeId) (record : NodeRecord F)
    (h : Room t.records parent record) (payload : NodePayload F) :
    (t.push parent record h payload).len = t.len + 1 := by
  simp [push, len]

theorem get_push (t : Tree F) (parent : NodeId) (record : NodeRecord F)
    (h : Room t.records parent record) (payload : NodePayload F) (i : NodeId) :
    (t.push parent record h payload).get i =
      if i = t.len then some (.new t.len (some parent) (record.depth + 1) payload)
      else if i = parent then some { record with children := record.children + 1 }
      else t.get i := by
  simp only [get, push, getElem?_modify_concat, len]
  by_cases hp : i = parent
  · subst hp
    simp [h.get]
  · simp [hp]

@[simp] theorem len_update (t : Tree F) (id : NodeId) (f : NodeRecord F → NodeRecord F)
    (hf : Keeps f) : (t.update id f hf).len = t.len := by
  simp [update, len]

theorem get_update (t : Tree F) (id : NodeId) (f : NodeRecord F → NodeRecord F)
    (hf : Keeps f) (i : NodeId) :
    (t.update id f hf).get i = if i = id then (t.get i).map f else t.get i :=
  getElem?_modify_if _ _ _ _

/-- The payloads in id order, which no mutation but an insertion changes. -/
def payloads (t : Tree F) : List (NodePayload F) := t.records.map (·.payload)

@[simp] theorem payloads_push (t : Tree F) (parent : NodeId) (record : NodeRecord F)
    (h : Room t.records parent record) (payload : NodePayload F) :
    (t.push parent record h payload).payloads = t.payloads ++ [payload] := by
  simp only [payloads, push, List.map_append, List.map_cons, List.map_nil]
  refine congrArg₂ _ ?_ rfl
  exact map_modify_of_eq _ _ (fun _ => rfl)

@[simp] theorem payloads_update (t : Tree F) (id : NodeId) (f : NodeRecord F → NodeRecord F)
    (hf : Keeps f) : (t.update id f hf).payloads = t.payloads :=
  map_modify_of_eq _ _ (fun r => (hf.shape r).2.2.2.2)

@[simp] theorem length_payloads (t : Tree F) : t.payloads.length = t.len := by
  simp [payloads, len]

theorem getElem?_payloads (t : Tree F) (id : NodeId) :
    t.payloads[id]? = (t.get id).map (·.payload) := by
  simp [payloads, get]

/-- The images in id order: they grow at the end and never change. -/
def images (t : Tree F) : List (NodeImage F) := t.records.map (·.image)

theorem images_push (t : Tree F) (parent : NodeId) (record : NodeRecord F)
    (h : Room t.records parent record) (payload : NodePayload F) :
    (t.push parent record h payload).images =
      t.images ++ [payload.image (some parent) (record.depth + 1)] := by
  simp only [images, push, List.map_append, List.map_cons, List.map_nil]
  refine congrArg₂ _ ?_ rfl
  exact map_modify_of_eq _ _ (fun _ => rfl)

@[simp] theorem images_update (t : Tree F) (id : NodeId) (f : NodeRecord F → NodeRecord F)
    (hf : Keeps f) : (t.update id f hf).images = t.images := by
  refine map_modify_of_eq _ _ fun r => ?_
  obtain ⟨-, hparent, hdepth, -, hpayload⟩ := hf.shape r
  simp only [NodeRecord.image, hparent, hdepth, hpayload]

@[simp] theorem length_images (t : Tree F) : t.images.length = t.len := by
  simp [images, len]

theorem getElem?_images (t : Tree F) (id : NodeId) :
    t.images[id]? = (t.get id).map (·.image) := by
  simp [images, get]

theorem insertChild_ok {payload : NodePayload F} (h : t.insertChild parent payload = .ok (id, t')) :
    ∃ record, ∃ hr : Room t.records parent record,
      id = t.len ∧ t' = t.push parent record hr payload := by
  unfold insertChild at h
  split at h
  · cases h
  · rename_i record hr
    split at h
    · cases h
    · split at h
      · cases h
      · cases h
        exact ⟨record, _, rfl, rfl⟩

theorem insertChild_of_room {record : NodeRecord F} (h : Room t.records parent record)
    (payload : NodePayload F) :
    t.insertChild parent payload = .ok (t.len, t.push parent record h payload) := by
  have hget : t.get parent = some record := h.get
  have hd : (checkedAdd32 record.depth 1).isNone = false := by
    rw [checkedAdd32, if_pos h.depth]
    rfl
  have hc : (checkedAdd32 record.children 1).isNone = false := by
    rw [checkedAdd32, if_pos h.children]
    rfl
  unfold insertChild
  split
  · rename_i hnone
    rw [hnone] at hget
    cases hget
  · rename_i record' hrecord
    obtain rfl : record' = record := by simpa [hrecord] using hget
    simp only [hd, hc]
    rfl

theorem incrementVisits_ok {visits : Nat} (h : t.incrementVisits id = .ok (visits, t')) :
    ∃ record, t.get id = some record ∧ visits = record.visits + 1 ∧
      t' = t.update id (setVisits visits) (setVisits_keeps visits) := by
  unfold incrementVisits at h
  split at h
  · cases h
  · rename_i record hr
    split at h
    · cases h
    · rename_i v hv
      cases h
      refine ⟨record, hr, ?_, rfl⟩
      unfold checkedAdd32 at hv
      split at hv
      · simpa [eq_comm] using hv
      · cases hv

theorem markExhausted_ok (h : t.markExhausted id = .ok t') :
    ∃ record, t.get id = some record ∧ record.status ≠ .goal ∧
      t' = t.update id setExhausted setExhausted_keeps := by
  unfold markExhausted at h
  split at h
  · cases h
  · rename_i record hr
    split at h
    · cases h
    · rename_i hg
      cases h
      exact ⟨record, hr, fun h => hg (.inl h), rfl⟩

theorem markGoal_ok (h : t.markGoal id = .ok t') :
    ∃ record, t.get id = some record ∧ record.status ≠ .pruned ∧
      t' = t.update id setGoal setGoal_keeps := by
  unfold markGoal at h
  split at h
  · cases h
  · rename_i record hr
    split at h
    · cases h
    · rename_i hg
      cases h
      exact ⟨record, hr, hg, rfl⟩

theorem markPruned_ok (h : t.markPruned id = .ok t') :
    ∃ record, t.get id = some record ∧ record.status ≠ .goal ∧
      t' = t.update id setPruned setPruned_keeps := by
  unfold markPruned at h
  split at h
  · cases h
  · rename_i record hr
    split at h
    · cases h
    · rename_i hg
      cases h
      exact ⟨record, hr, fun h => hg (.inl h), rfl⟩

/-- Exhaustion never leaves a node with status `Frontier`. -/
theorem isFrontierCandidate_iff (h : t.get id = some r) :
    r.isFrontierCandidate = true ↔ r.status = .frontier := by
  constructor
  · intro hc
    simp only [NodeRecord.isFrontierCandidate, Bool.and_eq_true, decide_eq_true_eq] at hc
    exact hc.1
  · intro hs
    simp [NodeRecord.isFrontierCandidate, hs, t.wf.frontier_live id r h hs]

end Tree
end Orchestrator.Core

namespace Orchestrator

-- So that the name means this tree wherever the development uses it.
export Core (Tree)

end Orchestrator
