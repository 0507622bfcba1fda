import Orchestrator.Core.Commit

/-! # Core — The commit-state invariant

Tree, frontier, seen map, mirror and streaks stay coherent through any sequence of
successful batches. The tree carries its own well-formedness, so what is left to prove is
how the other four structures follow it; each clause needs the others only through the
tree, and each is preserved by every outcome of a child and by the eviction rule.

* `ChildStep.coherent`: one child.
* `Committed.coherent`: any sequence of successful batches from a root.
* `commit_state_invariant`: the invariant in full.
-/

namespace Orchestrator.Core

open Lib

variable {F : Type} [Float64 F]

/-- The number of nodes of a tree in a cell. -/
def Tree.cellCount (t : Tree F) (cell : CellKey) : Nat :=
  t.payloads.countP (·.cell = cell)

/-- The smallest node id with a state hash. -/
def Tree.firstWith (t : Tree F) (hash : StateHash) : Option NodeId :=
  t.payloads.findIdx? (·.stateHash = hash)

/-- The status of a node, if it exists. -/
def Tree.statusOf (t : Tree F) (id : NodeId) : Option NodeStatus := (t.get id).map (·.status)

/-- Whether a node belongs in the frontier. -/
def Tree.inFrontier (t : Tree F) (id : NodeId) : Prop :=
  t.statusOf id = some .frontier ∨ t.statusOf id = some .goal

/-- How the four other structures follow the tree, given the cells of the children
discarded as duplicates so far. -/
structure CommitState.Coherent (s : CommitState F) (dups : List CellKey) : Prop where
  streaks : s.allDuplicateStreaks.length = s.tree.len
  frontier : ∀ id, id ∈ s.frontier.entries ↔ s.tree.inFrontier id
  seen : ∀ hash, s.seen.get hash = s.tree.firstWith hash
  mirror : ∀ cell, s.cellMirror.count cell = s.tree.cellCount cell + dups.count cell

/-! ### How the tree's projections move -/

variable {t t' : Tree F} {payload : NodePayload F} {id parent : NodeId} {tree : Tree F}
  {rules : CommitRules F} {s s' : CommitState F} {dups : List CellKey}

theorem Tree.cellCount_append (h : t'.payloads = t.payloads ++ [payload]) (cell : CellKey) :
    t'.cellCount cell = t.cellCount cell + if cell = payload.cell then 1 else 0 := by
  simp only [cellCount, h, List.countP_append, List.countP_singleton, decide_eq_true_eq]
  by_cases hc : cell = payload.cell
  · simp [hc]
  · simp [hc, Ne.symm hc]

theorem Tree.firstWith_append (h : t'.payloads = t.payloads ++ [payload]) (hash : StateHash) :
    t'.firstWith hash =
      if hash = payload.stateHash then some ((t.firstWith hash).getD t.len)
      else t.firstWith hash := by
  simp only [firstWith, h, List.findIdx?_append, length_payloads]
  by_cases hh : hash = payload.stateHash
  · cases hf : t.payloads.findIdx? (fun x => decide (x.stateHash = hash)) with
    | none => simp [hh]
    | some i => simp [hh]
  · simp [hh, Ne.symm hh]

/-- A child seen map insertion at the next id follows the tree. -/
theorem CommitState.seen_insert {seen : SeenMap} (h : t'.payloads = t.payloads ++ [payload])
    (hs : ∀ hash, seen.get hash = t.firstWith hash) (hash : StateHash) :
    (seen.insert payload.stateHash t.len).get hash = t'.firstWith hash := by
  rw [SeenMap.get_insert, Tree.firstWith_append h, hs, hs]
  by_cases hh : hash = payload.stateHash
  · rw [hh]
  · rw [if_neg hh, if_neg hh]

theorem CommitState.length_trackedTo {streaks : List Nat} {n : Nat} (h : streaks.length = n) :
    (trackedTo streaks n).length = n + 1 := by
  rw [trackedTo, List.length_append, List.length_replicate, h]
  omega

theorem Tree.payloads_keptTree (t : Tree F) (parent : NodeId) (record : NodeRecord F)
    (hr : Room t.records parent record) (child : ScoredChild F) :
    (keptTree t parent record hr child).payloads = t.payloads ++ [child.payload] := by
  unfold keptTree
  split <;> simp

theorem Tree.payloads_prunedTree (t : Tree F) (parent : NodeId) (record : NodeRecord F)
    (hr : Room t.records parent record) (payload : NodePayload F) :
    (prunedTree t parent record hr payload).payloads = t.payloads ++ [payload] := by
  simp [prunedTree]

theorem Tree.len_of_payloads (h : t'.payloads = t.payloads ++ [payload]) : t'.len = t.len + 1 := by
  rw [← length_payloads, h, List.length_append, length_payloads]
  rfl

theorem Tree.statusOf_push (t : Tree F) (parent : NodeId) (record : NodeRecord F)
    (hr : Room t.records parent record) (payload : NodePayload F) (i : NodeId) :
    (t.push parent record hr payload).statusOf i =
      if i = t.len then some .frontier else t.statusOf i := by
  rw [statusOf, get_push]
  split
  · rfl
  · split
    · rename_i hp
      rw [hp, statusOf, show t.get parent = some record from hr.get]
      rfl
    · rfl

theorem Tree.statusOf_update (t : Tree F) (id : NodeId) (f : NodeRecord F → NodeRecord F)
    (hf : Keeps f) (i : NodeId) :
    (t.update id f hf).statusOf i =
      if i = id then (t.get i).map (fun r => (f r).status) else t.statusOf i := by
  rw [statusOf, get_update]
  split
  · rw [Option.map_map]
    rfl
  · rfl

variable {visits : Nat} {tree' : Tree F} {route : Option NodeId} {parentScore : F}
  {children : List (ScoredChild F)} {i : NodeId}

theorem Tree.statusOf_incrementVisits (h : t.incrementVisits id = .ok (visits, t')) (i : NodeId) :
    t'.statusOf i = t.statusOf i := by
  obtain ⟨record, -, -, rfl⟩ := incrementVisits_ok h
  rw [statusOf_update]
  split
  · rfl
  · rfl

theorem Tree.statusOf_len (t : Tree F) : t.statusOf t.len = none := by
  rw [statusOf, get_eq_none (Nat.le_refl _)]
  rfl

theorem Tree.statusOf_keptTree (t : Tree F) (parent : NodeId) (record : NodeRecord F)
    (hr : Room t.records parent record) (child : ScoredChild F) (i : NodeId) :
    (keptTree t parent record hr child).statusOf i =
      if i = t.len then some (if child.goal then .goal else .frontier) else t.statusOf i := by
  unfold keptTree
  cases hg : child.goal with
  | false => simp only [Bool.false_eq_true, if_false, statusOf_push]
  | true =>
    simp only [if_true, statusOf_update]
    split
    · rename_i hi
      rw [get_push, if_pos hi]
      rfl
    · rename_i hi
      rw [statusOf_push, if_neg hi]

theorem Tree.statusOf_prunedTree (t : Tree F) (parent : NodeId) (record : NodeRecord F)
    (hr : Room t.records parent record) (payload : NodePayload F) (i : NodeId) :
    (prunedTree t parent record hr payload).statusOf i =
      if i = t.len then some .pruned else t.statusOf i := by
  rw [prunedTree, statusOf_update]
  split
  · rename_i hi
    rw [get_push, if_pos hi]
    rfl
  · rename_i hi
    rw [statusOf_push, if_neg hi]

theorem Tree.statusOf_setExhausted (t : Tree F) {record : NodeRecord F}
    (hr : t.get id = some record) (hg : record.status ≠ .goal) (i : NodeId) :
    (t.update id setExhausted setExhausted_keeps).statusOf i =
      if i = id then some (if record.status = .pruned then .pruned else .expanded)
      else t.statusOf i := by
  rw [statusOf_update]
  split
  · rename_i hi
    have hgoal : record.goal = false := by
      rw [Bool.eq_false_iff, ne_eq, t.wf.goal_iff id record hr]
      exact hg
    rw [hi, hr]
    by_cases hp : record.status = .pruned
    · simp [setExhausted, NodeRecord.expandedStatus, hgoal, hp]
    · simp [setExhausted, NodeRecord.expandedStatus, hgoal, hp]
  · rfl

/-! ### One child -/

/-- The cell a child adds to the duplicates, if it was discarded as one. -/
def duplicateCell (child : ScoredChild F) (commit : ChildCommit) : List CellKey :=
  if commit.disposition = .discard .duplicate then [child.payload.cell] else []

theorem RouteVisit.payloads (h : RouteVisit parent tree route tree') :
    tree'.payloads = tree.payloads := by
  cases h with
  | visit _ hv =>
    obtain ⟨_, -, -, rfl⟩ := Tree.incrementVisits_ok hv
    simp
  | parent => rfl
  | unrouted => rfl

theorem RouteVisit.statusOf (h : RouteVisit parent tree route tree') (i : NodeId) :
    tree'.statusOf i = tree.statusOf i := by
  cases h with
  | visit _ hv => exact Tree.statusOf_incrementVisits hv i
  | parent => rfl
  | unrouted => rfl

theorem ChildStep.coherent {child : ScoredChild F} {commit : ChildCommit}
    (h : ChildStep parent parentScore child rules s commit s') (hs : s.Coherent dups) :
    s'.Coherent (dups ++ duplicateCell child commit) := by
  cases h with
  | pruneDrop hp ha =>
    simpa [duplicateCell] using hs
  | regression hp hd hreg =>
    simpa [duplicateCell] using hs
  | duplicate hp hd hm hv =>
    have hpay := hv.payloads
    refine ⟨?_, ?_, ?_, ?_⟩
    · simpa [← Tree.length_payloads, hpay] using hs.streaks
    · intro id
      rw [hs.frontier, Tree.inFrontier, Tree.inFrontier, hv.statusOf]
    · intro hash
      rw [hs.seen, Tree.firstWith, Tree.firstWith, hpay]
    · intro cell
      rw [CellMirror.count_bump hm, hs.mirror, Tree.cellCount, Tree.cellCount, hpay,
        duplicateCell, if_pos rfl, List.count_append, List.count_singleton]
      by_cases hc : cell = child.payload.cell
      · simp [hc, Nat.add_assoc]
      · simp [hc, Ne.symm hc]
  | prunedExhausted hp ha hr hm =>
    have hpay := s.tree.payloads_prunedTree parent _ hr child.payload
    refine ⟨?_, ?_, ?_, ?_⟩
    · rw [CommitState.length_trackedTo hs.streaks, Tree.len_of_payloads hpay]
    · intro id
      rw [hs.frontier, Tree.inFrontier, Tree.inFrontier, Tree.statusOf_prunedTree]
      by_cases hid : id = s.tree.len
      · simp [hid, Tree.statusOf_len]
      · simp [hid]
    · exact CommitState.seen_insert hpay hs.seen
    · intro cell
      rw [CellMirror.count_bump hm, hs.mirror, Tree.cellCount_append hpay]
      simp [duplicateCell, Nat.add_right_comm]
  | keep hp hd hreg hr hm hf =>
    have hpay := s.tree.payloads_keptTree parent _ hr child
    refine ⟨?_, ?_, ?_, ?_⟩
    · rw [CommitState.length_trackedTo hs.streaks, Tree.len_of_payloads hpay]
    · intro id
      rw [Frontier.mem_insert hf, hs.frontier, Tree.inFrontier, Tree.inFrontier,
        Tree.statusOf_keptTree]
      by_cases hid : id = s.tree.len
      · cases child.goal <;> simp [hid]
      · simp [hid]
    · exact CommitState.seen_insert hpay hs.seen
    · intro cell
      rw [CellMirror.count_bump hm, hs.mirror, Tree.cellCount_append hpay]
      simp [duplicateCell, Nat.add_right_comm]

/-! ### Whole batches -/

/-- The cells of the children of a batch that were discarded as duplicates. -/
def duplicateCells (children : List (ScoredChild F)) (commits : List ChildCommit) :
    List CellKey :=
  (children.zip commits).flatMap fun entry => duplicateCell entry.1 entry.2

theorem ChildSteps.coherent {commits : List ChildCommit}
    (h : ChildSteps parent parentScore rules s children commits s') (hs : s.Coherent dups) :
    s'.Coherent (dups ++ duplicateCells children commits) := by
  induction h generalizing dups with
  | nil => simpa [duplicateCells] using hs
  | cons hstep hrest ih =>
    have := ih (hstep.coherent hs)
    simpa [duplicateCells, List.append_assoc] using this

theorem CommitState.Coherent.visited (hs : s.Coherent dups)
    (h : s.tree.incrementVisits id = .ok (visits, tree)) :
    ({ s with tree := tree } : CommitState F).Coherent dups := by
  obtain ⟨_, -, -, rfl⟩ := Tree.incrementVisits_ok h
  refine ⟨?_, ?_, ?_, ?_⟩
  · simpa using hs.streaks
  · intro i
    rw [hs.frontier, Tree.inFrontier, Tree.inFrontier, Tree.statusOf_incrementVisits h]
  · intro hash
    rw [hs.seen, Tree.firstWith, Tree.firstWith, Tree.payloads_update]
  · intro cell
    rw [hs.mirror, Tree.cellCount, Tree.cellCount, Tree.payloads_update]

theorem CommitState.Coherent.withStreak (hs : s.Coherent dups) (hid : id < s.tree.len)
    (streak : Nat) : (s.withStreak id streak).Coherent dups := by
  refine ⟨?_, hs.frontier, hs.seen, hs.mirror⟩
  have hlen := hs.streaks
  change ((CommitState.trackedTo s.allDuplicateStreaks id).set id streak).length = s.tree.len
  rw [List.length_set, CommitState.trackedTo, List.length_append, List.length_replicate]
  lia

/-- The frontier and the tree drop an exhausted parent together. -/
theorem ExhaustionStep.coherent {reason : Option FrontierEvictReason}
    (h : ExhaustionStep parent s reason s') (hs : s.Coherent dups) : s'.Coherent dups := by
  cases h with
  | stay => exact hs
  | @evict record hr hg hc frontier hf reason =>
    refine ⟨by simpa using hs.streaks, ?_, ?_, ?_⟩
    · intro id
      rw [Frontier.mem_remove hf, hs.frontier, Tree.inFrontier, Tree.inFrontier,
        Tree.statusOf_setExhausted _ hr hg]
      by_cases hid : id = parent
      · by_cases hp : record.status = .pruned <;> simp [hid, hp]
      · simp [hid]
    · intro hash
      rw [hs.seen, Tree.firstWith, Tree.firstWith, Tree.payloads_update]
    · intro cell
      rw [hs.mirror, Tree.cellCount, Tree.cellCount, Tree.payloads_update]
  | @absent record hr hg hc reason =>
    have hout : ¬ s.tree.inFrontier parent := by
      rw [← hs.frontier, ← Frontier.contains_iff, hc]
      exact Bool.false_ne_true
    refine ⟨by simpa using hs.streaks, ?_, ?_, ?_⟩
    · intro id
      rw [hs.frontier, Tree.inFrontier, Tree.inFrontier, Tree.statusOf_setExhausted _ hr hg]
      by_cases hid : id = parent
      · subst hid
        by_cases hp : record.status = .pruned <;> simpa [Tree.inFrontier, hp] using hout
      · simp [hid]
    · intro hash
      rw [hs.seen, Tree.firstWith, Tree.firstWith, Tree.payloads_update]
    · intro cell
      rw [hs.mirror, Tree.cellCount, Tree.cellCount, Tree.payloads_update]

theorem commitBatch_coherent {outcome : BatchCommitOutcome}
    (h : commitBatch parent children rules s = .ok outcome s') (hs : s.Coherent dups) :
    s'.Coherent (dups ++ duplicateCells children outcome.childCommits) := by
  obtain ⟨record, s₁, tree, -, hsteps, hv, -, hex⟩ := commitBatch_ok h
  have h₁ := hsteps.coherent hs
  have h₂ := h₁.visited hv
  have hlt : parent < tree.len := by
    obtain ⟨r, hr, -, rfl⟩ := Tree.incrementVisits_ok hv
    rw [Tree.len_update]
    exact Tree.lt_len_of_get hr
  exact hex.coherent (h₂.withStreak hlt _)

theorem CommitState.fromRoot_coherent (payload : NodePayload F) :
    (CommitState.fromRoot payload).Coherent [] := by
  refine ⟨rfl, ?_, ?_, ?_⟩
  · intro id
    cases id with
    | zero => simp [fromRoot, Frontier.withRoot, NodeId.root, Tree.inFrontier, Tree.statusOf,
        Tree.get, Tree.fromRoot, NodeRecord.new]
    | succ id => simp [fromRoot, Frontier.withRoot, NodeId.root, Tree.inFrontier,
        Tree.statusOf, Tree.get, Tree.fromRoot]
  · intro hash
    rw [fromRoot, SeenMap.get_insert, SeenMap.get_new]
    by_cases hh : hash = payload.stateHash
    · simp [hh, Tree.firstWith, Tree.payloads, Tree.fromRoot, NodeRecord.new, NodeId.root]
    · simp [hh, Ne.symm hh, Tree.firstWith, Tree.payloads, Tree.fromRoot, NodeRecord.new]
  · intro cell
    simp only [fromRoot, CellMirror.count, getElem?_insert_if]
    by_cases hc : cell = payload.cell
    · simp [hc, Tree.cellCount, Tree.payloads, Tree.fromRoot, NodeRecord.new]
    · simp [hc, Ne.symm hc, Tree.cellCount, Tree.payloads, Tree.fromRoot, NodeRecord.new,
        CellMirror.new]

/-- The states any sequence of successful batches reaches from a root, each with the cells
of the children discarded as duplicates on the way. -/
inductive Committed (root : NodePayload F) : CommitState F → List CellKey → Prop where
  | root : Committed root (.fromRoot root) []
  | batch {s s' : CommitState F} {dups : List CellKey} {parent : NodeId}
      {children : List (ScoredChild F)} {rules : CommitRules F} {outcome : BatchCommitOutcome}
      (hs : Committed root s dups)
      (h : commitBatch parent children rules s = .ok outcome s') :
      Committed root s' (dups ++ duplicateCells children outcome.childCommits)

theorem Committed.coherent {root : NodePayload F} (h : Committed root s dups) :
    s.Coherent dups := by
  induction h with
  | root => exact CommitState.fromRoot_coherent root
  | batch _ hb ih => exact commitBatch_coherent hb ih

/-! ### The invariant in full -/

/-- The commit-state invariant: what holds between the five structures of a commit state,
given the cells of the children discarded as duplicates so far. -/
structure CommitState.Invariant (s : CommitState F) (dups : List CellKey) : Prop where
  /-- Node ids are exactly `0 .. n-1`. -/
  ids : ∀ i, (i < s.tree.len ↔ ∃ r, s.tree.get i = some r) ∧
    ∀ r, s.tree.get i = some r → r.id = i
  /-- The root has no parent and depth 0. -/
  root : ∃ r, s.tree.get NodeId.root = some r ∧ r.parent = none ∧ r.depth = 0
  /-- Every other node has a smaller parent, one level up. -/
  parents : ∀ i r, s.tree.get i = some r → i ≠ NodeId.root →
    ∃ p rp, r.parent = some p ∧ p < i ∧ s.tree.get p = some rp ∧ r.depth = rp.depth + 1
  child_counts : ∀ i r, s.tree.get i = some r → r.children = (s.tree.childrenOf i).length
  /-- The child lists hold no id twice, and every non-root id is in exactly one of them. -/
  children_nodup : ∀ i, (s.tree.childrenOf i).Nodup
  children_cover : ∀ c, (c ≠ NodeId.root ∧ c < s.tree.len) ↔ ∃ i, c ∈ s.tree.childrenOf i
  children_disjoint : ∀ c i j, c ∈ s.tree.childrenOf i → c ∈ s.tree.childrenOf j → i = j
  streaks : s.allDuplicateStreaks.length = s.tree.len
  frontier_nodup : s.frontier.entries.Nodup
  frontier : ∀ id, id ∈ s.frontier.entries ↔
    ∃ r, s.tree.get id = some r ∧ (r.status = .frontier ∨ r.status = .goal)
  candidates : ∃ cs, s.frontier.deterministicCandidates s.tree = .ok cs ∧
    ∀ id, id ∈ cs ↔ ∃ r, s.tree.get id = some r ∧ r.status = .frontier
  /-- The seen map has exactly the hashes of the nodes, each with its smallest node. -/
  seen : ∀ hash id, s.seen.get hash = some id ↔
    (∃ r, s.tree.get id = some r ∧ r.payload.stateHash = hash) ∧
      ∀ j r, s.tree.get j = some r → r.payload.stateHash = hash → id ≤ j
  mirror : ∀ cell, s.cellMirror.count cell =
    s.tree.records.countP (·.payload.cell = cell) + dups.count cell

theorem Tree.getElem?_childrenByNode {r : NodeRecord F} (h : t.get i = some r) :
    t.childrenByNode[i]? = some (t.childrenOf i) := by
  have hlt : i < t.childrenByNode.length := by
    rw [t.wf.length_eq]
    exact lt_len_of_get h
  rw [childrenOf, List.getElem?_eq_getElem hlt]
  rfl

theorem Tree.mem_childrenOf {c : NodeId} :
    c ∈ t.childrenOf i ↔ ∃ r, t.get c = some r ∧ r.parent = some i := by
  cases hi : t.childrenByNode[i]? with
  | some cs =>
    rw [childrenOf, hi]
    exact t.wf.mem_children i cs hi c
  | none =>
    rw [childrenOf, hi]
    refine ⟨fun h => absurd h List.not_mem_nil, ?_⟩
    rintro ⟨r, hr, hp⟩
    have hlen := List.getElem?_eq_none_iff.mp hi
    rw [t.wf.length_eq] at hlen
    have h₁ := t.wf.parent_lt hr hp
    have h₂ := lt_len_of_get hr
    exact absurd (Nat.lt_trans h₁ h₂) (Nat.not_lt.mpr hlen)

theorem Tree.inFrontier_iff :
    t.inFrontier id ↔ ∃ r, t.get id = some r ∧ (r.status = .frontier ∨ r.status = .goal) := by
  rw [inFrontier, statusOf]
  cases t.get id with
  | none => simp
  | some r => simp

/-- Every frontier entry is a node, so the candidate loop meets no unknown id. -/
theorem Frontier.candidatesIn_ok {ids : List NodeId} (h : ∀ id ∈ ids, ∃ r, tree.get id = some r) :
    ∃ cs, candidatesIn tree ids = .ok cs := by
  induction ids with
  | nil => exact ⟨[], rfl⟩
  | cons id rest ih =>
    obtain ⟨r, hr⟩ := h id List.mem_cons_self
    obtain ⟨cs, hcs⟩ := ih (fun i hi => h i (List.mem_cons_of_mem _ hi))
    simp only [candidatesIn, hr, hcs]
    split
    · exact ⟨_, rfl⟩
    · exact ⟨_, rfl⟩

theorem Tree.firstWith_eq_some {hash : StateHash} :
    t.firstWith hash = some id ↔
      (∃ r, t.get id = some r ∧ r.payload.stateHash = hash) ∧
        ∀ j r, t.get j = some r → r.payload.stateHash = hash → id ≤ j := by
  have hget : ∀ {j r}, t.get j = some r → t.payloads[j]? = some r.payload := by
    intro j r h
    rw [getElem?_payloads, h]
    rfl
  rw [firstWith, List.findIdx?_eq_some_iff_getElem]
  constructor
  · rintro ⟨hlt, heq, hmin⟩
    obtain ⟨r, hr⟩ := t.get_of_lt_len (by simpa using hlt)
    have hpay := hget hr
    rw [List.getElem?_eq_getElem hlt, Option.some.injEq] at hpay
    refine ⟨⟨r, hr, by rw [← hpay]; simpa using heq⟩, ?_⟩
    intro j r' hr' hh
    by_contra hlt'
    have hj := hmin j (Nat.lt_of_not_le hlt')
    have hpay' := hget hr'
    rw [List.getElem?_eq_getElem (Nat.lt_trans (Nat.lt_of_not_le hlt') hlt),
      Option.some.injEq] at hpay'
    rw [hpay'] at hj
    simp [hh] at hj
  · rintro ⟨⟨r, hr, hh⟩, hmin⟩
    have hlt : id < t.payloads.length := by
      rw [length_payloads]
      exact lt_len_of_get hr
    have hpay := hget hr
    rw [List.getElem?_eq_getElem hlt, Option.some.injEq] at hpay
    refine ⟨hlt, by rw [hpay]; simpa using hh, ?_⟩
    intro j hj heq
    obtain ⟨r', hr'⟩ := t.get_of_lt_len (Nat.lt_trans hj (lt_len_of_get hr))
    have hpay' := hget hr'
    rw [List.getElem?_eq_getElem (Nat.lt_trans hj hlt), Option.some.injEq] at hpay'
    rw [hpay'] at heq
    exact absurd (hmin j r' hr' (by simpa using heq)) (Nat.not_le.mpr hj)

/-- **The commit-state invariant.** From `CommitState::from_root`, after any sequence of
successful batches with any parents, children and rules, the five structures agree. -/
theorem commit_state_invariant {root : NodePayload F} {s : CommitState F} {dups : List CellKey}
    (h : Committed root s dups) : s.Invariant dups := by
  have hs := h.coherent
  have hwf := s.tree.wf
  obtain ⟨r₀, hr₀⟩ := s.tree.get_of_lt_len s.tree.len_pos
  have hfrontier : ∀ id, id ∈ s.frontier.entries ↔
      ∃ r, s.tree.get id = some r ∧ (r.status = .frontier ∨ r.status = .goal) :=
    fun id => (hs.frontier id).trans Tree.inFrontier_iff
  refine ⟨?_, ⟨r₀, hr₀, hwf.root r₀ hr₀⟩, ?_, ?_, ?_, ?_, ?_, hs.streaks, s.frontier.nodup,
    hfrontier, ?_, ?_, ?_⟩
  · intro i
    exact ⟨⟨Tree.get_of_lt_len, fun ⟨r, hr⟩ => Tree.lt_len_of_get hr⟩, hwf.id_eq i⟩
  · intro i r hr hi
    exact hwf.parent i r hr (Nat.pos_of_ne_zero hi)
  · intro i r hr
    exact hwf.children_count i r _ hr (Tree.getElem?_childrenByNode hr)
  · intro i
    cases hi : s.tree.childrenByNode[i]? with
    | none => simp [Tree.childrenOf, hi]
    | some cs =>
      rw [Tree.childrenOf, hi]
      exact (hwf.children_sorted i cs hi).imp Nat.ne_of_lt
  · intro c
    constructor
    · rintro ⟨hc, hlt⟩
      obtain ⟨r, hr⟩ := Tree.get_of_lt_len hlt
      obtain ⟨p, -, hp, -⟩ := hwf.parent c r hr (Nat.pos_of_ne_zero hc)
      exact ⟨p, Tree.mem_childrenOf.mpr ⟨r, hr, hp⟩⟩
    · rintro ⟨i, hi⟩
      obtain ⟨r, hr, hp⟩ := Tree.mem_childrenOf.mp hi
      exact ⟨Nat.ne_of_gt (Nat.zero_lt_of_lt (hwf.parent_lt hr hp)), Tree.lt_len_of_get hr⟩
  · intro c i j hi hj
    obtain ⟨r, hr, hp⟩ := Tree.mem_childrenOf.mp hi
    obtain ⟨r', hr', hp'⟩ := Tree.mem_childrenOf.mp hj
    rw [hr] at hr'
    cases hr'
    exact Option.some.inj (hp.symm.trans hp')
  · have hlive : ∀ id ∈ s.frontier.entries, ∃ r, s.tree.get id = some r :=
      fun id hid => ((hfrontier id).mp hid).imp fun _ hr => hr.1
    obtain ⟨cs, hcs⟩ := Frontier.candidatesIn_ok hlive
    have hdet : s.frontier.deterministicCandidates s.tree = .ok (cs.insertionSort (· ≤ ·)) := by
      simp only [Frontier.deterministicCandidates, hcs]
    refine ⟨_, hdet, ?_⟩
    intro id
    rw [Frontier.mem_deterministicCandidates hdet, hfrontier]
    constructor
    · exact fun h => h.2
    · rintro ⟨r, hr, hst⟩
      exact ⟨⟨r, hr, .inl hst⟩, r, hr, hst⟩
  · intro hash id
    rw [hs.seen]
    exact Tree.firstWith_eq_some
  · intro cell
    rw [hs.mirror, Tree.cellCount, Tree.payloads, List.countP_map]
    rfl

/-- A payload with integer scores. -/
def NodePayload.ofInt (snapshot : SnapshotRef) (score : Int) (cell : CellKey)
    (stateHash : StateHash) : NodePayload Int :=
  { snapshot, score := .ofInt score, noveltyAtCommit := .ofInt 1000, cell, stateHash,
    stage := 0, frameCounter := 0 }

/-- A batch with one child of every kind: kept, duplicate, worse than its parent, pruned and
goal, the last with the hash of the root. -/
def mixedChildren : List (ScoredChild Int) :=
  [⟨.ofInt 1 12 1 101, false, false, false⟩, ⟨.ofInt 2 12 0 100, true, false, false⟩,
   ⟨.ofInt 3 1 0 103, false, false, false⟩, ⟨.ofInt 4 1 4 104, false, true, false⟩,
   ⟨.ofInt 5 20 0 100, false, false, true⟩]

/-- The invariant after that batch, with the duplicate in cell 0. -/
theorem commit_state_invariant_mixed :
    ∃ s : CommitState Int, Committed (.ofInt 0 10 0 100) s [0] ∧ s.Invariant [0] := by
  obtain ⟨o, s, h, hd⟩ := exists_of_succeedsWith
    (r := commitBatch 0 mixedChildren ⟨.exhausted, 0, 64, 8⟩ (.fromRoot (.ofInt 0 10 0 100)))
    (p := fun o _ => duplicateCells mixedChildren o.childCommits = [0]) (by decide +kernel)
  rw [decide_eq_true_eq] at hd
  have hrun := Committed.batch .root h
  rw [hd] at hrun
  exact ⟨s, hrun, commit_state_invariant hrun⟩

end Orchestrator.Core
