import Orchestrator.Services.Scorer

/-! # Services — Store

The snapshot store as the in-repository service implements it: node rows, the experiment's
checkpoint under a generation, and one write-ahead entry per batch sequence number. Rows
are created once and never overwritten; an update changes the status and the counters of a
row and nothing else of it.

* `createNode_ok`, `updateNode_ok`: what a successful call did.
* `Holds`: the rows hold a list of nodes, the node ids being the positions in it.
-/

namespace Orchestrator.Services

open Core Lib

variable {F : Type} [Float64 F]

/-- The part of a row's attrs envelope that is read back. -/
structure NodeAttrs (F : Type) [Float64 F] where
  determinismClass : Nat
  createdByBurst : Option Burst
  decodedFeatures : List (String × F)
  frameCounter : Nat
  stateHash : StateHash
  cellKey : CellKey
  stage : Nat
deriving DecidableEq

structure CreateNodeRequest (F : Type) [Float64 F] where
  nodeId : NodeId
  parentNodeId : Option NodeId
  snapshotRef : SnapshotRef
  inputLogId : Option Nat
  status : NodeStatus
  progressScore : Score F
  noveltyScore : Novelty F
  attrs : NodeAttrs F
deriving DecidableEq

/-- A stored node, `NodeMeta` with its decoded attrs. -/
structure Row (F : Type) [Float64 F] where
  nodeId : NodeId
  parentNodeId : Option NodeId
  depth : Nat
  snapshotRef : SnapshotRef
  inputLogId : Option Nat
  status : NodeStatus
  progressScore : Score F
  noveltyScore : Novelty F
  visitCount : Nat
  expandCount : Nat
  attrs : NodeAttrs F
deriving DecidableEq

/-- The fields of a `NodeUpdate` the runner sets. -/
structure NodeUpdate where
  nodeId : NodeId
  status : Option NodeStatus
  visitCountDelta : Nat
  expandCountDelta : Nat
deriving DecidableEq, Repr

/-- The checkpoint, `CheckpointV1`. -/
structure Checkpoint (F : Type) [Float64 F] where
  batchSeq : Nat
  expansions : Nat
  guestInstructions : Nat
  frontier : List FrontierEntry
  scorerArchiveRef : ArchiveSnapshot
  scorerArchiveSeq : Nat
  scorerCheckpointId : Nat
  featureMapVersion : Nat
  featureMapHash : Nat
  scoringProgramHash : Nat
  /-- The pinned fingerprint of the base profile; zero stands for none. -/
  synthConfigFingerprint : Nat
  cellMirror : List (CellKey × Nat)
  seen : List (StateHash × NodeId)
  plateau : PlateauCheckpoint F
  goalNodes : List NodeId
  status : ExperimentState
deriving DecidableEq

structure Store (F : Type) [Float64 F] where
  rows : Std.ExtTreeMap NodeId (Row F)
  checkpoint : Option (Checkpoint F × Nat)
  wal : Std.ExtTreeMap Nat ExpansionIntent

namespace Store

def new : Store F := ⟨∅, none, ∅⟩

/-! ### Nodes -/

/-- `CreateNodeRequest::validate`. -/
def validateCreate (req : CreateNodeRequest F) : Option ClientError :=
  if req.nodeId = NodeId.root then
    if req.parentNodeId.isSome then
      some (.new .invalidRequest "root node must not have a parent")
    else if req.inputLogId.isSome then
      some (.new .invalidRequest "root node must not have an input log")
    else none
  else if req.parentNodeId.isNone then
    some (.new .invalidRequest "non-root node must have a parent")
  else if req.inputLogId.isNone then
    some (.new .invalidRequest
      "non-root node must provide an input log id or inline log container")
  else none

/-- `same_immutable_create_identity`. -/
def sameIdentity (row : Row F) (req : CreateNodeRequest F) : Bool :=
  row.parentNodeId = req.parentNodeId && row.snapshotRef = req.snapshotRef &&
    row.inputLogId = req.inputLogId

/-- The depth of a new row, or why its parent cannot have children. -/
def depthOfNew (s : Store F) (req : CreateNodeRequest F) : Except ClientError Nat :=
  match req.parentNodeId with
  | none => .ok 0
  | some parent =>
    match s.rows[parent]? with
    | none => .error (.new .notFound "parent node not found")
    | some row =>
      if row.status = .pruned then .error (.new .failedPrecondition "parent node is pruned")
      else .ok (row.depth + 1)

def newRow (req : CreateNodeRequest F) (depth : Nat) : Row F :=
  { nodeId := req.nodeId, parentNodeId := req.parentNodeId, depth
    snapshotRef := req.snapshotRef, inputLogId := req.inputLogId, status := req.status
    progressScore := req.progressScore, noveltyScore := req.noveltyScore
    visitCount := 0, expandCount := 0, attrs := req.attrs }

/-- `create_node`: idempotent on the immutable part of a row. -/
def createNode (s : Store F) (req : CreateNodeRequest F) : Except ClientError (Store F) :=
  match validateCreate req with
  | some e => .error e
  | none =>
    match s.rows[req.nodeId]? with
    | some row =>
      if sameIdentity row req then .ok s
      else .error (.new .alreadyExists
        "node id already exists with different immutable create data")
    | none =>
      match s.depthOfNew req with
      | .error e => .error e
      | .ok depth => .ok { s with rows := s.rows.insert req.nodeId (newRow req depth) }

/-- `apply_update`. -/
def applyUpdate (row : Row F) (update : NodeUpdate) : Row F :=
  { row with
    status := update.status.getD row.status
    visitCount := row.visitCount + update.visitCountDelta
    expandCount := row.expandCount + update.expandCountDelta }

/-- `update_nodes` with one update. -/
def updateNode (s : Store F) (update : NodeUpdate) : Except ClientError (Store F) :=
  match s.rows[update.nodeId]? with
  | none => .error (.new .notFound "node not found")
  | some row => .ok { s with rows := s.rows.insert update.nodeId (applyUpdate row update) }

/-- `query_nodes` without filters, in node id order. -/
def queryNodes (s : Store F) : List (Row F) := s.rows.toList.map (·.2)

/-- `get_children`, in node id order. -/
def getChildren (s : Store F) (parent : NodeId) : List (Row F) :=
  s.queryNodes.filter (·.parentNodeId = some parent)

/-! ### Metadata -/

/-- `put_metadata` on the checkpoint key: `none` expects that no checkpoint exists. -/
def putCheckpoint (s : Store F) (expected : Option Nat) (value : Checkpoint F) :
    Except ClientError (Nat × Store F) :=
  let current := s.checkpoint.map (·.2)
  if current = expected then
    let generation := (current.map (· + 1)).getD 1
    .ok (generation, { s with checkpoint := some (value, generation) })
  else .error (.new .failedPrecondition "metadata generation conflict")

def getCheckpoint (s : Store F) : Except ClientError (Checkpoint F × Nat) :=
  match s.checkpoint with
  | none => .error (.new .notFound "metadata not found")
  | some entry => .ok entry

/-- `put_metadata` on a write-ahead key, unconditional. -/
def putWal (s : Store F) (seq : Nat) (intent : ExpansionIntent) : Store F :=
  { s with wal := s.wal.insert seq intent }

def getWal (s : Store F) (seq : Nat) : Except ClientError ExpansionIntent :=
  match s.wal[seq]? with
  | none => .error (.new .notFound "metadata not found")
  | some intent => .ok intent

/-- `delete_metadata` on a write-ahead key, unconditional. -/
def deleteWal (s : Store F) (seq : Nat) : Except ClientError (Store F) :=
  match s.wal[seq]? with
  | none => .error (.new .notFound "metadata not found")
  | some _ => .ok { s with wal := s.wal.erase seq }

/-! ### What a call did -/

variable {s s' : Store F} {req : CreateNodeRequest F}

theorem createNode_ok (h : s.createNode req = .ok s') :
    (∃ row, s.rows[req.nodeId]? = some row ∧ sameIdentity row req = true ∧ s' = s) ∨
      s.rows[req.nodeId]? = none ∧ ∃ depth, s.depthOfNew req = .ok depth ∧
        s' = { s with rows := s.rows.insert req.nodeId (newRow req depth) } := by
  unfold createNode at h
  split at h
  · cases h
  · split at h
    · rename_i row hrow
      split at h
      · rename_i hsame
        cases h
        exact .inl ⟨row, hrow, hsame, rfl⟩
      · cases h
    · rename_i hrow
      split at h
      · cases h
      · rename_i depth hdepth
        cases h
        exact .inr ⟨hrow, depth, hdepth, rfl⟩

theorem depthOfNew_child {parent : NodeId} {depth : Nat} (hp : req.parentNodeId = some parent)
    (h : s.depthOfNew req = .ok depth) :
    ∃ row, s.rows[parent]? = some row ∧ depth = row.depth + 1 := by
  simp only [depthOfNew, hp] at h
  split at h
  · cases h
  · rename_i row hrow
    split at h
    · cases h
    · cases h
      exact ⟨row, hrow, rfl⟩

/-- Only an existing row is refused as one. -/
theorem createNode_alreadyExists {e : ClientError} (h : s.createNode req = .error e)
    (he : e.kind = .alreadyExists) : ∃ row, s.rows[req.nodeId]? = some row := by
  cases hrow : s.rows[req.nodeId]? with
  | some row => exact ⟨row, rfl⟩
  | none =>
    exfalso
    simp only [createNode, validateCreate, depthOfNew, hrow, ClientError.new] at h
    grind

theorem updateNode_ok {update : NodeUpdate} (h : s.updateNode update = .ok s') :
    ∃ row, s.rows[update.nodeId]? = some row ∧
      s' = { s with rows := s.rows.insert update.nodeId (applyUpdate row update) } := by
  unfold updateNode at h
  split at h
  · cases h
  · rename_i row hrow
    cases h
    exact ⟨row, hrow, rfl⟩

theorem putCheckpoint_ok {expected : Option Nat} {value : Checkpoint F} {g : Nat}
    (h : s.putCheckpoint expected value = .ok (g, s')) :
    s.checkpoint.map (·.2) = expected ∧ g = (expected.map (· + 1)).getD 1 ∧
      s' = { s with checkpoint := some (value, g) } := by
  unfold putCheckpoint at h
  dsimp only at h
  split at h
  · rename_i hexp
    cases h
    exact ⟨hexp, by rw [hexp], rfl⟩
  · cases h

theorem deleteWal_ok {seq : Nat} (h : s.deleteWal seq = .ok s') :
    s' = { s with wal := s.wal.erase seq } := by
  unfold deleteWal at h
  split at h
  · cases h
  · cases h
    rfl

/-! ### The rows as a list of nodes -/

end Store

/-- What a row says a node is. -/
def Row.image (row : Row F) : NodeImage F :=
  ⟨row.parentNodeId, row.depth, row.snapshotRef, row.progressScore, row.attrs.cellKey,
    row.attrs.stateHash⟩

/-- A row apart from its status and counters. -/
def Row.node (row : Row F) : Row F :=
  { row with status := .frontier, visitCount := 0, expandCount := 0 }

namespace Store

/-- The rows are these nodes, each under the id that is its position. -/
structure Holds (s : Store F) (images : List (NodeImage F)) : Prop where
  image : ∀ id : NodeId, s.rows[id]?.map Row.image = images[id]?
  nodeId : ∀ (id : NodeId) (row : Row F), s.rows[id]? = some row → row.nodeId = id

namespace Holds

variable {s s' : Store F} {images : List (NodeImage F)}

theorem getElem?_eq_none (h : s.Holds images) {id : NodeId} (hid : images.length ≤ id) :
    s.rows[id]? = none := by
  have := h.image id
  rw [List.getElem?_eq_none hid, Option.map_eq_none_iff] at this
  exact this

theorem mem_iff (h : s.Holds images) (id : NodeId) : id ∈ s.rows ↔ id < images.length := by
  rw [Std.ExtTreeMap.mem_iff_isSome_getElem?, ← Option.isSome_map (f := Row.image), h.image,
    isSome_getElem?]

theorem getElem?_queryNodes (h : s.Holds images) (i : Nat) : s.queryNodes[i]? = s.rows[i]? :=
  getElem?_values_of_dense s.rows h.mem_iff i

theorem length_queryNodes (h : s.Holds images) : s.queryNodes.length = images.length := by
  rw [queryNodes, List.length_map, ← List.length_range (n := images.length),
    ← keys_of_dense s.rows h.mem_iff, List.length_map]

theorem of_rows (h : s.Holds images) (hrows : s'.rows = s.rows) : s'.Holds images :=
  ⟨fun id => hrows ▸ h.image id, fun id row => hrows ▸ h.nodeId id row⟩

/-- A row created past the last one is one more node. -/
theorem create (h : s.Holds images) {req : CreateNodeRequest F} (hid : req.nodeId = images.length)
    (hc : s.createNode req = .ok s') :
    ∃ depth, s.depthOfNew req = .ok depth ∧
      s'.rows = s.rows.insert req.nodeId (newRow req depth) ∧
      s'.Holds (images ++ [(newRow req depth).image]) := by
  have hnone := h.getElem?_eq_none (Nat.le_refl images.length)
  rcases createNode_ok hc with ⟨row, hrow, -, -⟩ | ⟨-, depth, hdepth, rfl⟩
  · rw [hid, hnone] at hrow
    cases hrow
  · refine ⟨depth, hdepth, rfl, fun id => ?_, fun id row hrow => ?_⟩
    · have himage := h.image id
      rw [getElem?_insert_if, hid, List.getElem?_append]
      grind
    · rw [getElem?_insert_if] at hrow
      have hold := h.nodeId id row
      grind [newRow]

/-- An update leaves the nodes as they are. -/
theorem update (h : s.Holds images) {u : NodeUpdate} (hu : s.updateNode u = .ok s') :
    s'.Holds images := by
  obtain ⟨row, hrow, rfl⟩ := updateNode_ok hu
  refine ⟨fun id => ?_, fun id row' hrow' => ?_⟩
  · have himage := h.image id
    rw [getElem?_insert_if]
    split
    · rename_i hid
      subst hid
      rw [← himage, hrow]
      rfl
    · exact himage
  · rw [getElem?_insert_if] at hrow'
    split at hrow'
    · rename_i hid
      subst hid
      cases hrow'
      exact h.nodeId _ row hrow
    · exact h.nodeId id row' hrow'

end Holds

/-- Every row is still there and still the same node. -/
def Extends (s s' : Store F) : Prop :=
  ∀ (id : NodeId) (row : Row F), s.rows[id]? = some row →
    ∃ row', s'.rows[id]? = some row' ∧ row'.node = row.node

theorem Extends.refl (s : Store F) : s.Extends s := fun _ row h => ⟨row, h, rfl⟩

variable {s s' : Store F}

theorem Extends.trans {s₁ : Store F} (h : s.Extends s₁) (h' : s₁.Extends s') : s.Extends s' := by
  intro id row hrow
  obtain ⟨row₁, hrow₁, hnode₁⟩ := h id row hrow
  obtain ⟨row', hrow', hnode'⟩ := h' id row₁ hrow₁
  exact ⟨row', hrow', hnode'.trans hnode₁⟩

theorem Extends.of_rows (h : s'.rows = s.rows) : s.Extends s' :=
  fun _ row hrow => ⟨row, h ▸ hrow, rfl⟩

theorem Extends.mem (h : s.Extends s') {id : NodeId} (hid : id ∈ s.rows) : id ∈ s'.rows := by
  rw [Std.ExtTreeMap.mem_iff_isSome_getElem?] at hid ⊢
  obtain ⟨row, hrow⟩ := Option.isSome_iff_exists.mp hid
  obtain ⟨row', hrow', -⟩ := h id row hrow
  rw [hrow']
  rfl

theorem extends_createNode {req : CreateNodeRequest F} (h : s.createNode req = .ok s') :
    s.Extends s' := by
  rcases createNode_ok h with ⟨-, -, -, rfl⟩ | ⟨hnone, depth, -, rfl⟩
  · exact .refl _
  · intro id row hrow
    refine ⟨row, ?_, rfl⟩
    rw [getElem?_insert_if, if_neg]
    · exact hrow
    · rintro rfl
      rw [hnone] at hrow
      cases hrow

theorem extends_updateNode {u : NodeUpdate} (h : s.updateNode u = .ok s') : s.Extends s' := by
  obtain ⟨old, hold, rfl⟩ := updateNode_ok h
  intro id row hrow
  rw [getElem?_insert_if]
  split
  · rename_i hid
    subst hid
    obtain rfl : old = row := by simpa [hold] using hrow
    exact ⟨_, rfl, rfl⟩
  · exact ⟨row, hrow, rfl⟩

end Store

/-- The same node later on: the only change of its status is that it was exhausted. -/
structure Row.Later (row row' : Row F) : Prop where
  node : row'.node = row.node
  status : row'.status = row.status ∨ row.status = .frontier ∧ row'.status = .expanded

/-- What does not depend on the status and the counters is the same later on. -/
theorem Row.Later.field {α : Type} {row row' : Row F} (h : row.Later row') (f : Row F → α)
    (hf : ∀ row, f row.node = f row) : f row' = f row := by
  rw [← hf row', h.node, hf]

theorem Row.Later.refl (row : Row F) : row.Later row := ⟨rfl, .inl rfl⟩

theorem Row.Later.trans {row row₁ row' : Row F} (h : row.Later row₁) (h' : row₁.Later row') :
    row.Later row' := by
  refine ⟨h'.node.trans h.node, ?_⟩
  rcases h.status with hs | ⟨hf, he⟩
  · rcases h'.status with hs' | ⟨hf', he'⟩
    · exact .inl (hs'.trans hs)
    · exact .inr ⟨hs ▸ hf', he'⟩
  · rcases h'.status with hs' | ⟨hf', -⟩
    · exact .inr ⟨hf, hs'.trans he⟩
    · rw [he] at hf'
      cases hf'

namespace Store

/-- Every row is still there, later on. -/
def Evolves (s s' : Store F) : Prop :=
  ∀ (id : NodeId) (row : Row F), s.rows[id]? = some row →
    ∃ row', s'.rows[id]? = some row' ∧ row.Later row'

theorem Evolves.refl (s : Store F) : s.Evolves s := fun _ row h => ⟨row, h, .refl row⟩

variable {s s' : Store F}

theorem Evolves.trans {s₁ : Store F} (h : s.Evolves s₁) (h' : s₁.Evolves s') : s.Evolves s' := by
  intro id row hrow
  obtain ⟨row₁, hrow₁, hl₁⟩ := h id row hrow
  obtain ⟨row', hrow', hl'⟩ := h' id row₁ hrow₁
  exact ⟨row', hrow', hl₁.trans hl'⟩

theorem Evolves.of_rows (h : s'.rows = s.rows) : s.Evolves s' :=
  fun _ row hrow => ⟨row, h ▸ hrow, .refl row⟩

theorem evolves_createNode {req : CreateNodeRequest F} (h : s.createNode req = .ok s') :
    s.Evolves s' := by
  rcases createNode_ok h with ⟨-, -, -, rfl⟩ | ⟨hnone, depth, -, rfl⟩
  · exact .refl _
  · intro id row hrow
    refine ⟨row, ?_, .refl row⟩
    rw [getElem?_insert_if, if_neg]
    · exact hrow
    · rintro rfl
      rw [hnone] at hrow
      cases hrow

theorem evolves_updateNode {u : NodeUpdate} (h : s.updateNode u = .ok s')
    (hu : ∀ row, s.rows[u.nodeId]? = some row → row.Later (applyUpdate row u)) : s.Evolves s' := by
  obtain ⟨old, hold, rfl⟩ := updateNode_ok h
  intro id row hrow
  rw [getElem?_insert_if]
  split
  · rename_i hid
    subst hid
    obtain rfl : old = row := by simpa [hold] using hrow
    exact ⟨_, rfl, hu old hold⟩
  · exact ⟨row, hrow, .refl row⟩

end Store
end Orchestrator.Services
