import Orchestrator.Core.CommitGrowth

/-! # Core — Visits

What a commit adds to the visits of the nodes: one to the expanded parent, and one to the node
a duplicate is routed to, unless that is the parent.

* `commitBatch_visitsOf`: the visits after a commit.
* `commitBatch_routes`: which duplicates are routed to the parent.
-/

namespace Orchestrator.Core

open Lib

variable {F : Type} [Float64 F] {parent : NodeId} {parentScore : F} {child : ScoredChild F}
  {children : List (ScoredChild F)} {rules : CommitRules F} {s s₁ s' : CommitState F}
  {commit : ChildCommit} {commits : List ChildCommit} {outcome : BatchCommitOutcome}

/-- The visits of a node. -/
def Tree.visitsOf (t : Tree F) (id : NodeId) : Nat := ((t.get id).map (·.visits)).getD 0

variable {t : Tree F} {id : NodeId}

theorem Tree.visitsOf_of_get {record : NodeRecord F} (h : t.get id = some record) :
    t.visitsOf id = record.visits := by
  rw [visitsOf, h]
  rfl

/-- A new node has no visits, and neither has a node that is not there. -/
theorem Tree.visitsOf_push (t : Tree F) (parent : NodeId) (record : NodeRecord F)
    (hr : Room t.records parent record) (payload : NodePayload F) (id : NodeId) :
    (t.push parent record hr payload).visitsOf id = t.visitsOf id := by
  unfold visitsOf
  rw [get_push]
  by_cases hid : id = t.len
  · rw [if_pos hid, get_eq_none hid.ge]
    rfl
  · rw [if_neg hid]
    by_cases hparent : id = parent
    · rw [if_pos hparent, hparent, show t.get parent = some record from hr.get]
      rfl
    · rw [if_neg hparent]

theorem Tree.visitsOf_update (t : Tree F) (i : NodeId) {f : NodeRecord F → NodeRecord F}
    (hf : Keeps f) (hvisits : ∀ record, (f record).visits = record.visits) (id : NodeId) :
    (t.update i f hf).visitsOf id = t.visitsOf id := by
  unfold visitsOf
  rw [get_update]
  split
  · cases t.get id with
    | none => rfl
    | some record => simp [hvisits]
  · rfl

theorem Tree.visitsOf_incrementVisits {t' : Tree F} {i : NodeId} {visits : Nat}
    (h : t.incrementVisits i = .ok (visits, t')) (id : NodeId) :
    t'.visitsOf id = t.visitsOf id + if id = i then 1 else 0 := by
  obtain ⟨record, hr, rfl, rfl⟩ := incrementVisits_ok h
  unfold visitsOf
  rw [get_update]
  by_cases hid : id = i
  · subst hid
    simp [hr, setVisits]
  · simp [hid]

/-! ### The children -/

/-- The visits that routed duplicates add to a node. -/
def routedTo (id : NodeId) (commits : List ChildCommit) : Nat :=
  commits.countP (·.duplicateRoute = some id)

theorem routedTo_cons (id : NodeId) (commit : ChildCommit) (commits : List ChildCommit) :
    routedTo id (commit :: commits) =
      routedTo id commits + if commit.duplicateRoute = some id then 1 else 0 := by
  rw [routedTo, List.countP_cons]
  simp only [decide_eq_true_iff]
  rfl

theorem routedTo_eq_zero (h : ∀ c ∈ commits, c.duplicateRoute ≠ some id) :
    routedTo id commits = 0 :=
  List.countP_eq_zero.mpr fun c hc => by simpa using h c hc

theorem RouteVisit.visitsOf {t' : Tree F} {route : Option NodeId} (h : RouteVisit parent t route t')
    (id : NodeId) :
    t'.visitsOf id = t.visitsOf id + if id ≠ parent ∧ route = some id then 1 else 0 := by
  cases h with
  | @visit existing _ _ hne h =>
    rw [Tree.visitsOf_incrementVisits h]
    by_cases hid : id = existing
    · rw [if_pos hid, if_pos ⟨hid ▸ hne, congrArg some hid.symm⟩]
    · rw [if_neg hid, if_neg fun hc => hid (Option.some.inj hc.2).symm]
  | parent => rw [if_neg fun hc => hc.1 (Option.some.inj hc.2).symm]; rfl
  | unrouted => rw [if_neg fun hc => nomatch hc.2]; rfl

theorem ChildStep.visitsOf (h : ChildStep parent parentScore child rules s commit s₁)
    (id : NodeId) :
    s₁.tree.visitsOf id =
      s.tree.visitsOf id + if id ≠ parent ∧ commit.duplicateRoute = some id then 1 else 0 := by
  cases h with
  | pruneDrop | regression => rw [if_neg fun hc => nomatch hc.2]; rfl
  | duplicate _ _ _ hv => exact hv.visitsOf id
  | prunedExhausted hp ha hr hm =>
    rw [if_neg fun hc => nomatch hc.2]
    exact (Tree.visitsOf_update _ _ Tree.setPruned_keeps (fun _ => rfl) id).trans
      (Tree.visitsOf_push _ _ _ hr child.payload id)
  | keep hp hd hreg hr hm hf =>
    rw [if_neg fun hc => nomatch hc.2]
    refine Eq.trans ?_ (Tree.visitsOf_push _ _ _ hr child.payload id)
    unfold keptTree
    split
    · exact Tree.visitsOf_update _ _ Tree.setGoal_keeps (fun _ => rfl) id
    · rfl

theorem ChildSteps.visitsOf (h : ChildSteps parent parentScore rules s children commits s')
    (id : NodeId) :
    s'.tree.visitsOf id =
      s.tree.visitsOf id + if id = parent then 0 else routedTo id commits := by
  induction h with
  | nil => split <;> rfl
  | cons hstep hrest ih =>
    rw [ih, hstep.visitsOf, routedTo_cons]
    by_cases hid : id = parent
    · simp [hid]
    · simp only [hid, if_false, ne_eq, not_false_eq_true, true_and]
      omega

theorem ExhaustionStep.visitsOf {reason : Option FrontierEvictReason}
    (h : ExhaustionStep parent s reason s') (id : NodeId) :
    s'.tree.visitsOf id = s.tree.visitsOf id := by
  cases h with
  | stay => rfl
  | evict | absent => exact Tree.visitsOf_update _ _ Tree.setExhausted_keeps (fun _ => rfl) id

/-! ### The batch -/

/-- The visits after a commit: the parent has one more, whatever is routed to it. -/
theorem commitBatch_visitsOf (h : commitBatch parent children rules s = .ok outcome s')
    (id : NodeId) :
    s'.tree.visitsOf id =
      s.tree.visitsOf id + if id = parent then 1 else routedTo id outcome.childCommits := by
  obtain ⟨record, s₁, tree, -, hsteps, hv, -, hex⟩ := commitBatch_ok h
  have hend : s'.tree.visitsOf id = s₁.tree.visitsOf id + if id = parent then 1 else 0 :=
    (hex.visitsOf id).trans (Tree.visitsOf_incrementVisits hv id)
  rw [hend, hsteps.visitsOf]
  by_cases hid : id = parent
  · simp [hid]
  · simp [hid]

theorem commitBatch_parentVisits (h : commitBatch parent children rules s = .ok outcome s') :
    s'.tree.visitsOf parent = outcome.parentVisits := by
  obtain ⟨record, s₁, tree, -, -, hv, -, hex⟩ := commitBatch_ok h
  obtain ⟨record', hr, hvisits, -⟩ := Tree.incrementVisits_ok hv
  rw [hex.visitsOf parent]
  refine (Tree.visitsOf_incrementVisits hv parent).trans ?_
  rw [if_pos rfl, hvisits, Tree.visitsOf_of_get hr]

/-- New nodes enter the seen map under hashes it did not have, so a hash is routed to an old
node only if it was before. -/
theorem ChildStep.seen (h : ChildStep parent parentScore child rules s commit s₁) {hash : StateHash}
    (hid : id < s.tree.len) : s₁.seen.get hash = some id ↔ s.seen.get hash = some id := by
  have hinsert : (s.seen.insert child.payload.stateHash s.tree.len).get hash = some id ↔
      s.seen.get hash = some id := by
    rw [SeenMap.get_insert]
    split
    · rename_i heq
      rw [heq]
      cases s.seen.get child.payload.stateHash with
      | none => simp [Nat.ne_of_gt hid]
      | some _ => rfl
    · rfl
  cases h with
  | pruneDrop | regression | duplicate => rfl
  | prunedExhausted | keep => exact hinsert

theorem ChildStep.route (h : ChildStep parent parentScore child rules s commit s₁)
    (hroute : commit.duplicateRoute = some id) : s.seen.get child.payload.stateHash = some id := by
  cases h with
  | duplicate => exact hroute
  | _ => cases hroute

/-- A child is stored or routed, not both. -/
theorem ChildSteps.stored_or_routed
    (h : ChildSteps parent parentScore rules s children commits s') :
    commits.length = children.length ∧
      ∀ c ∈ commits, c.nodeId = none ∨ c.duplicateRoute = none := by
  induction h with
  | nil => exact ⟨rfl, fun c hc => absurd hc List.not_mem_nil⟩
  | cons hstep _ ih =>
    refine ⟨congrArg (· + 1) ih.1, fun c hc => ?_⟩
    rcases List.mem_cons.mp hc with rfl | hc
    · cases hstep with
      | prunedExhausted | keep => exact .inr rfl
      | _ => exact .inl rfl
    · exact ih.2 c hc

theorem ChildSteps.routes (h : ChildSteps parent parentScore rules s children commits s')
    (hid : id < s.tree.len) {c : ChildCommit} (hc : c ∈ commits)
    (hroute : c.duplicateRoute = some id) :
    ∃ child ∈ children, s.seen.get child.payload.stateHash = some id := by
  induction h with
  | nil => cases hc
  | cons hstep hrest ih =>
    rcases List.mem_cons.mp hc with rfl | hc
    · exact ⟨_, List.mem_cons_self, hstep.route hroute⟩
    · obtain ⟨child, hmem, hseen⟩ := ih (Nat.lt_of_lt_of_le hid hstep.grows.1.len_le) hc
      exact ⟨child, List.mem_cons_of_mem _ hmem, (hstep.seen hid).mp hseen⟩

theorem commitBatch_stored_or_routed (h : commitBatch parent children rules s = .ok outcome s') :
    outcome.childCommits.length = children.length ∧
      ∀ c ∈ outcome.childCommits, c.nodeId = none ∨ c.duplicateRoute = none := by
  obtain ⟨_, _, _, -, hsteps, -⟩ := commitBatch_ok h
  exact hsteps.stored_or_routed

/-- A duplicate is routed to the parent only if the seen map led there before the batch. -/
theorem commitBatch_routes (h : commitBatch parent children rules s = .ok outcome s')
    {c : ChildCommit} (hc : c ∈ outcome.childCommits) (hroute : c.duplicateRoute = some parent) :
    ∃ child ∈ children, s.seen.get child.payload.stateHash = some parent := by
  obtain ⟨record, s₁, tree, hr, hsteps, -⟩ := commitBatch_ok h
  exact hsteps.routes (Tree.lt_len_of_get hr) hc hroute

end Orchestrator.Core
