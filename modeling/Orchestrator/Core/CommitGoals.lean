import Orchestrator.Core.CommitSound

/-! # Core — Goals of a batch

Which children of a batch are kept, read off the state before it and the children before
them, and what becomes of those that are goals. The goal flag is looked at last: a goal that
scores worse than its parent in a known cell is discarded like any other child.

* `ChildSteps.at`: the children that are kept, and their nodes.
* `commitBatch_goal_status`: the goals of the tree after a batch.
* `new_goals_committed_iff`
-/

namespace Orchestrator.Core

open Lib

variable {F : Type} [Float64 F]

/-- A cell is counted at a child's turn: it was before the batch, or a child before it counted
it. Only a pruned child that is dropped does not count. -/
def CellKnown (s : CommitState F) (rules : CommitRules F) (before : List (ScoredChild F))
    (cell : CellKey) : Prop :=
  0 < s.cellMirror.count cell ∨
    ∃ d ∈ before, d.payload.cell = cell ∧ ¬ (d.prune = true ∧ rules.pruneAction = .drop)

/-- The rules keep a child, after the children before it. -/
structure KeptAfter (s : CommitState F) (rules : CommitRules F) (parentScore : F)
    (before : List (ScoredChild F)) (child : ScoredChild F) : Prop where
  unpruned : child.prune = false
  unique : child.duplicate = false
  spared : child.payload.score.get + rules.epsilonKeep < parentScore →
    ¬ CellKnown s rules before child.payload.cell

section

variable {parent : NodeId} {parentScore : F} {rules : CommitRules F} {s s₁ s' : CommitState F}
  {child : ScoredChild F} {commit : ChildCommit} {children before : List (ScoredChild F)}
  {commits : List ChildCommit}

theorem cellKnown_nil {cell : CellKey} :
    CellKnown s rules [] cell ↔ 0 < s.cellMirror.count cell := by
  simp [CellKnown]

theorem ChildStep.cellKnown (h : ChildStep parent parentScore child rules s commit s₁)
    (cell : CellKey) :
    CellKnown s₁ rules before cell ↔ CellKnown s rules (child :: before) cell := by
  have hbump : ∀ {m : CellMirror}, s.cellMirror.bump child.payload.cell = some m →
      (0 < m.count cell ↔ 0 < s.cellMirror.count cell ∨ child.payload.cell = cell) := by
    intro m hm
    rw [CellMirror.count_bump hm]
    by_cases hcell : cell = child.payload.cell
    · simp [hcell]
    · simp [hcell, Ne.symm hcell]
  unfold CellKnown
  simp only [List.mem_cons, exists_eq_or_imp]
  cases h with
  | pruneDrop hp ha => simp [hp, ha]
  | prunedExhausted hp ha hr hm => simp [hbump hm, ha, or_assoc]
  | duplicate hp hd hm hv => simp [hbump hm, hp, or_assoc]
  | keep hp hd hreg hr hm hf => simp [hbump hm, hp, or_assoc]
  | regression hp hd hreg =>
    -- the cell of a regression is counted already
    simp only [isRegression, Bool.and_eq_true, decide_eq_true_eq] at hreg
    constructor
    · rintro (hcount | hbefore)
      · exact .inl hcount
      · exact .inr (.inr hbefore)
    · rintro (hcount | ⟨rfl, -⟩ | hbefore)
      · exact .inl hcount
      · exact .inl hreg.2
      · exact .inr hbefore

theorem keptAfter_nil (hp : child.prune = false) (hd : child.duplicate = false) :
    KeptAfter s rules parentScore [] child ↔
      isRegression s parentScore child.payload rules = false := by
  simp only [isRegression, Bool.and_eq_false_iff, decide_eq_false_iff_not]
  constructor
  · intro h
    by_cases hworse : child.payload.score.get + rules.epsilonKeep < parentScore
    · exact .inr fun hcount => h.spared hworse (cellKnown_nil.mpr hcount)
    · exact .inl hworse
  · rintro (hbetter | hnew)
    · exact ⟨hp, hd, fun hworse => absurd hworse hbetter⟩
    · exact ⟨hp, hd, fun _ hknown => hnew (cellKnown_nil.mp hknown)⟩

theorem ChildStep.keep_iff (h : ChildStep parent parentScore child rules s commit s₁) :
    commit.disposition = .keep ↔ KeptAfter s rules parentScore [] child := by
  cases h with
  | pruneDrop hp ha => exact ⟨nofun, fun h => absurd h.unpruned (by simp [hp])⟩
  | prunedExhausted hp ha hr hm => exact ⟨nofun, fun h => absurd h.unpruned (by simp [hp])⟩
  | duplicate hp hd hm hv => exact ⟨nofun, fun h => absurd h.unique (by simp [hd])⟩
  | regression hp hd hreg => exact ⟨nofun, fun h => by simp [(keptAfter_nil hp hd).mp h] at hreg⟩
  | keep hp hd hreg hr hm hf => exact ⟨fun _ => (keptAfter_nil hp hd).mpr hreg, fun _ => rfl⟩

/-- A child that got a node is kept or pruned. -/
theorem ChildStep.keep_of_nodeId (h : ChildStep parent parentScore child rules s commit s₁)
    (hp : child.prune = false) (hid : commit.nodeId.isSome) : commit.disposition = .keep := by
  cases h with
  | prunedExhausted hp' =>
    rw [hp'] at hp
    cases hp
  | keep => rfl
  | _ => cases hid

/-- The status of the node a child got. -/
theorem ChildStep.statusOf (h : ChildStep parent parentScore child rules s commit s₁)
    (id : NodeId) :
    s₁.tree.statusOf id = some .goal ↔ s.tree.statusOf id = some .goal ∨
      child.goal = true ∧ commit.disposition = .keep ∧ commit.nodeId = some id := by
  cases h with
  | pruneDrop hp ha => simp
  | regression hp hd hreg => simp
  | duplicate hp hd hm hv => simp [hv.statusOf id]
  | prunedExhausted hp ha hr hm =>
    rw [Tree.statusOf_prunedTree]
    split
    · rename_i hid
      simp [hid, Tree.statusOf_len]
    · simp
  | keep hp hd hreg hr hm hf =>
    rw [Tree.statusOf_keptTree]
    split
    · rename_i hid
      subst hid
      cases child.goal <;> simp [Tree.statusOf_len]
    · rename_i hid
      simp [Ne.symm hid]

/-! ### Whole batches -/

variable {i : Nat} {id : NodeId}

theorem ChildSteps.at (h : ChildSteps parent parentScore rules s children commits s')
    (hc : children[i]? = some child) :
    ∃ commit, commits[i]? = some commit ∧
      (commit.disposition = .keep ↔ KeptAfter s rules parentScore (children.take i) child) ∧
      (child.prune = false → commit.nodeId.isSome → commit.disposition = .keep) ∧
      (commit.disposition = .keep → commit.nodeId.isSome) := by
  induction h generalizing i with
  | nil => simp at hc
  | @cons s s₁ s' first commit rest commits hstep hrest ih =>
    cases i with
    | zero =>
      cases hc
      refine ⟨commit, rfl, hstep.keep_iff, hstep.keep_of_nodeId, ?_⟩
      cases hstep <;> simp
    | succ i =>
      obtain ⟨commit', hcommit', hkept, hnode, hsome⟩ := ih hc
      refine ⟨commit', hcommit', hkept.trans ?_, hnode, hsome⟩
      rw [List.take_succ_cons]
      constructor
      · exact fun h => ⟨h.unpruned, h.unique, fun hworse hknown =>
          h.spared hworse ((hstep.cellKnown _).mpr hknown)⟩
      · exact fun h => ⟨h.unpruned, h.unique, fun hworse hknown =>
          h.spared hworse ((hstep.cellKnown _).mp hknown)⟩

/-- The node of a goal that was kept. -/
def KeptGoal (children : List (ScoredChild F)) (commits : List ChildCommit) (id : NodeId) : Prop :=
  ∃ (i : Nat) (child : ScoredChild F) (commit : ChildCommit), children[i]? = some child ∧
    commits[i]? = some commit ∧ child.goal = true ∧ commit.disposition = .keep ∧
    commit.nodeId = some id

/-- The goals after the children: those before, and the kept goals. -/
theorem ChildSteps.goal_status (h : ChildSteps parent parentScore rules s children commits s')
    (id : NodeId) : s'.tree.statusOf id = some .goal ↔
      s.tree.statusOf id = some .goal ∨ KeptGoal children commits id := by
  induction h with
  | nil => simp [KeptGoal]
  | @cons s s₁ s' first commit rest commits hstep hrest ih =>
    rw [ih, hstep.statusOf, or_assoc]
    refine or_congr_right ?_
    constructor
    · rintro (hfirst | ⟨i, child, commit', hchild, hcommit, hkept⟩)
      · exact ⟨0, first, commit, rfl, rfl, hfirst⟩
      · exact ⟨i + 1, child, commit', hchild, hcommit, hkept⟩
    · rintro ⟨i, child, commit', hchild, hcommit, hkept⟩
      cases i with
      | zero =>
        cases hchild
        cases hcommit
        exact .inl hkept
      | succ i => exact .inr ⟨i, child, commit', hchild, hcommit, hkept⟩

/-- The end of a commit leaves goals alone. -/
theorem Tree.Grows.goal {t t' : Tree F} {touched : NodeId → Prop} (h : t.Grows t' touched)
    (hlen : t'.len = t.len) (id : NodeId) :
    t'.statusOf id = some .goal ↔ t.statusOf id = some .goal := by
  by_cases hid : id < t.len
  · rcases h.status id hid with hsame | ⟨-, hfrontier, hexpanded⟩
    · rw [hsame]
    · rw [hfrontier, hexpanded]
      simp
  · have hnone : ∀ {u : Tree F}, u.len = t.len → u.statusOf id = none := by
      intro u hu
      rw [statusOf, get_eq_none (hu ▸ Nat.not_lt.mp hid)]
      rfl
    rw [hnone hlen, hnone rfl]

variable {outcome : BatchCommitOutcome} {images : List (NodeImage F)} {n : Nat}

theorem commitBatch_goal_status (h : commitBatch parent children rules s = .ok outcome s')
    (id : NodeId) :
    s'.tree.statusOf id = some .goal ↔
      s.tree.statusOf id = some .goal ∨ KeptGoal children outcome.childCommits id := by
  obtain ⟨record, s₁, tree, -, hsteps, hv, -, hex⟩ := commitBatch_ok h
  obtain ⟨himages, hgrows⟩ := parent_grows hv hex
  have hlen : s'.tree.len = s₁.tree.len := by simpa using congrArg List.length himages
  rw [hgrows.goal hlen, hsteps.goal_status]

/-- The node of a child carries its payload. -/
theorem Assigned.at (h : Assigned images parent n children commits)
    (hchild : children[i]? = some child) (hcommit : commits[i]? = some commit)
    (hid : commit.nodeId = some id) :
    n ≤ id ∧ ∃ depth, images[id]? = some (child.payload.image (some parent) depth) := by
  induction commits generalizing n i children with
  | nil => simp at hcommit
  | cons first rest ih =>
    cases children with
    | nil => exact h.elim
    | cons d children =>
      simp only [Assigned] at h
      cases i with
      | zero =>
        cases hchild
        cases hcommit
        simp only [hid] at h
        exact ⟨h.1.ge, h.1 ▸ h.2.1⟩
      | succ i =>
        split at h
        · exact ih h hchild hcommit
        · obtain ⟨hle, himage⟩ := ih h.2.2 hchild hcommit
          exact ⟨(Nat.le_succ n).trans hle, himage⟩

/-- Nodes are numbered in the order of the children. -/
theorem Assigned.nodeId_lt {j : Nat} {id' : NodeId} {commit' : ChildCommit}
    (h : Assigned images parent n children commits) (hij : i < j)
    (hchild : children[j]? = some child) (hi : commits[i]? = some commit)
    (hj : commits[j]? = some commit') (hid : commit.nodeId = some id)
    (hid' : commit'.nodeId = some id') : id < id' := by
  induction commits generalizing n i j children with
  | nil => simp at hi
  | cons first rest ih =>
    cases children with
    | nil => exact h.elim
    | cons d children =>
      simp only [Assigned] at h
      obtain ⟨j, rfl⟩ := Nat.exists_eq_succ_of_ne_zero (Nat.ne_zero_of_lt hij)
      cases i with
      | zero =>
        cases hi
        simp only [hid] at h
        exact h.1 ▸ (h.2.2.at hchild hj hid').1
      | succ i =>
        have hij := Nat.lt_of_succ_lt_succ hij
        split at h
        · exact ih h hij hchild hi hj
        · exact ih h.2.2 hij hchild hi hj

/-- The reported goal is a kept goal, and there is none before it. -/
theorem firstGoal_of_kept (hchild : children[i]? = some child) (hcommit : commits[i]? = some commit)
    (hgoal : child.goal = true) (hkeep : commit.disposition = .keep) (hid : commit.nodeId.isSome) :
    ∃ (j : Nat) (d : ScoredChild F) (e : ChildCommit), j ≤ i ∧ children[j]? = some d ∧
      commits[j]? = some e ∧ d.goal = true ∧ e.disposition = .keep ∧
      firstGoal children commits = e.nodeId := by
  induction i generalizing children commits with
  | zero =>
    cases children with
    | nil => cases hchild
    | cons d rest =>
      cases commits with
      | nil => cases hcommit
      | cons e others =>
        cases hchild
        cases hcommit
        exact ⟨0, child, commit, Nat.le_refl 0, rfl, rfl, hgoal, hkeep,
          by rw [firstGoal, if_pos ⟨hgoal, hkeep, hid⟩]⟩
  | succ i ih =>
    cases children with
    | nil => cases hchild
    | cons d rest =>
      cases commits with
      | nil => cases hcommit
      | cons e others =>
        by_cases hhere : d.goal = true ∧ e.disposition = .keep ∧ e.nodeId.isSome
        · exact ⟨0, d, e, Nat.zero_le _, rfl, rfl, hhere.1, hhere.2.1,
            by rw [firstGoal, if_pos hhere]⟩
        · obtain ⟨j, d', e', hj, hd, he, hgoal', hkeep', hfirst⟩ := ih hchild hcommit
          exact ⟨j + 1, d', e', Nat.succ_le_succ hj, hd, he, hgoal', hkeep',
            by rw [firstGoal, if_neg hhere, hfirst]⟩

theorem firstGoal_kept (h : firstGoal children commits = some id) :
    KeptGoal children commits id := by
  induction children generalizing commits with
  | nil => cases h
  | cons child rest ih =>
    cases commits with
    | nil => cases h
    | cons commit others =>
      by_cases hhere : child.goal = true ∧ commit.disposition = .keep ∧ commit.nodeId.isSome
      · rw [firstGoal, if_pos hhere] at h
        exact ⟨0, child, commit, rfl, rfl, hhere.1, hhere.2.1, h⟩
      · rw [firstGoal, if_neg hhere] at h
        obtain ⟨i, d, e, hd, he, hkept⟩ := ih h
        exact ⟨i + 1, d, e, hd, he, hkept⟩

/-- With at most one goal in a batch, the reported goal is the only new one. -/
theorem commitBatch_goal_iff (h : commitBatch parent children rules s = .ok outcome s')
    (hone : children.Pairwise fun a b => ¬ (a.goal = true ∧ b.goal = true)) (id : NodeId) :
    s'.tree.statusOf id = some .goal ↔
      s.tree.statusOf id = some .goal ∨ outcome.goalNode = some id := by
  rw [commitBatch_goal_status h, commitBatch_goalNode h]
  refine or_congr_right ⟨?_, firstGoal_kept⟩
  rintro ⟨i, child, commit, hchild, hcommit, hgoal, hkeep, hid⟩
  obtain ⟨j, d, e, hj, hd, he, hgoal', -, hfirst⟩ :=
    firstGoal_of_kept hchild hcommit hgoal hkeep (by rw [hid]; rfl)
  rcases Nat.lt_or_eq_of_le hj with hlt | rfl
  · obtain ⟨hj', rfl⟩ := List.getElem?_eq_some_iff.mp hd
    obtain ⟨hi', rfl⟩ := List.getElem?_eq_some_iff.mp hchild
    exact absurd ⟨hgoal', hgoal⟩ (List.pairwise_iff_getElem.mp hone j i hj' hi' hlt)
  · obtain rfl : e = commit := Option.some.inj (he.symm.trans hcommit)
    rw [hfirst, hid]

end

/-! ### New goals -/

/-- A goal of the batch that is not pruned and whose state is new. -/
structure NewGoal (s : CommitState F) (children : List (ScoredChild F)) (i : Nat)
    (child : ScoredChild F) : Prop where
  get : children[i]? = some child
  goal : child.goal = true
  unpruned : child.prune = false
  unseen : s.seen.get child.payload.stateHash = none
  first : ∀ j < i, ∀ d, children[j]? = some d → d.payload.stateHash ≠ child.payload.stateHash

/-- There is no new goal before a child. -/
def NoneBefore (s : CommitState F) (children : List (ScoredChild F)) (i : Nat) : Prop :=
  ∀ j < i, ∀ d, ¬ NewGoal s children j d

/-- Every new goal gets a node that is a goal of the tree, and the first one is reported. -/
def NewGoalsCommitted (parent : NodeId) (s s' : CommitState F) (children : List (ScoredChild F))
    (outcome : BatchCommitOutcome) : Prop :=
  ∀ i child, NewGoal s children i child → ∃ commit id, outcome.childCommits[i]? = some commit ∧
    commit.nodeId = some id ∧ s'.tree.statusOf id = some .goal ∧
    (∃ depth, s'.tree.images[id]? = some (child.payload.image (some parent) depth)) ∧
    (NoneBefore s children i → outcome.goalNode = some id)

/-- The rules keep every new goal, and no other goal before the first of them. -/
def NewGoalsSpared (s : CommitState F) (rules : CommitRules F) (parentScore : F)
    (children : List (ScoredChild F)) : Prop :=
  ∀ i child, NewGoal s children i child →
    KeptAfter s rules parentScore (children.take i) child ∧
    (NoneBefore s children i → ∀ j < i, ∀ d, children[j]? = some d → d.goal = true →
      ¬ KeptAfter s rules parentScore (children.take j) d)

/-- **New goals are committed exactly when the other rules spare them.** -/
theorem new_goals_committed_iff (parent : NodeId) (children : List (ScoredChild F))
    (rules : CommitRules F) (s s' : CommitState F) (outcome : BatchCommitOutcome)
    (record : NodeRecord F) (hparent : s.tree.get parent = some record)
    (h : commitBatch parent children rules s = .ok outcome s') :
    NewGoalsCommitted parent s s' children outcome ↔
      NewGoalsSpared s rules record.payload.score.get children := by
  obtain ⟨record', s₁, tree, hparent', hsteps, -⟩ := commitBatch_ok h
  obtain rfl : record' = record := Option.some.inj (hparent'.symm.trans hparent)
  have hassigned := (commitBatch_grows h).2
  have hgoalNode := commitBatch_goalNode h
  constructor
  · intro hcommitted i child hnew
    obtain ⟨commit, id, hcommit, hid, -, -, hreported⟩ := hcommitted i child hnew
    obtain ⟨commit', hcommit', hkept, hnode, -⟩ := hsteps.at hnew.get
    obtain rfl : commit' = commit := Option.some.inj (hcommit'.symm.trans hcommit)
    have hkeep := hnode hnew.unpruned (by rw [hid]; rfl)
    refine ⟨hkept.mp hkeep, fun hnone j hj d hd hgoal hearlier => ?_⟩
    -- the node of a kept goal before this one would be reported, and has a smaller number
    obtain ⟨e, he, hkept', -, hsome⟩ := hsteps.at hd
    obtain ⟨j', d', e', hj', hd', he', -, hkeep', hfirst⟩ :=
      firstGoal_of_kept hd he hgoal (hkept'.mpr hearlier) (hsome (hkept'.mpr hearlier))
    have hid' : e'.nodeId = some id := by rw [← hfirst, ← hgoalNode, hreported hnone]
    exact absurd (hassigned.nodeId_lt (Nat.lt_of_le_of_lt hj' hj) hnew.get he' hcommit hid' hid)
      (Nat.lt_irrefl id)
  · intro hspared i child hnew
    obtain ⟨hkeep, hearliest⟩ := hspared i child hnew
    obtain ⟨commit, hcommit, hkept, -, hsome⟩ := hsteps.at hnew.get
    have hdisp := hkept.mpr hkeep
    obtain ⟨id, hid⟩ := Option.isSome_iff_exists.mp (hsome hdisp)
    refine ⟨commit, id, hcommit, hid, ?_, (hassigned.at hnew.get hcommit hid).2, fun hnone => ?_⟩
    · exact (commitBatch_goal_status h id).mpr
        (.inr ⟨i, child, commit, hnew.get, hcommit, hnew.goal, hdisp, hid⟩)
    · obtain ⟨j, d, e, hj, hd, he, hgoal, hkeep', hfirst⟩ :=
        firstGoal_of_kept hnew.get hcommit hnew.goal hdisp (hsome hdisp)
      obtain ⟨e', he', hkept', -⟩ := hsteps.at hd
      obtain rfl : e' = e := Option.some.inj (he'.symm.trans he)
      rcases Nat.lt_or_eq_of_le hj with hlt | rfl
      · exact absurd (hkept'.mp hkeep') (hearliest hnone j hlt d hd hgoal)
      · obtain rfl : e' = commit := Option.some.inj (he.symm.trans hcommit)
        rw [hgoalNode, hfirst, hid]

/-- A goal that scores better than its parent, in the parent's cell. -/
def betterGoal : ScoredChild Int := ⟨.ofInt 1 20 0 103, false, false, true⟩

/-- A goal that scores worse than its parent, in the parent's cell. -/
def worseGoal : ScoredChild Int := ⟨.ofInt 1 1 0 103, false, false, true⟩

theorem newGoal_singleton {s : CommitState F} {child : ScoredChild F} (hgoal : child.goal = true)
    (hprune : child.prune = false) (hhash : s.seen.get child.payload.stateHash = none) :
    NewGoal s [child] 0 child :=
  ⟨rfl, hgoal, hprune, hhash, fun j hj => absurd hj (Nat.not_lt_zero j)⟩

/-- The better goal is committed and reported. -/
theorem new_goals_committed_better : ∃ (s' : CommitState Int) (outcome : BatchCommitOutcome),
    commitBatch 0 [betterGoal] ⟨.exhausted, 0, 64, 8⟩ (.fromRoot (.ofInt 0 10 0 100)) =
      .ok outcome s' ∧
    NewGoal (.fromRoot (.ofInt 0 10 0 100)) [betterGoal] 0 betterGoal ∧
    NewGoalsCommitted 0 (.fromRoot (.ofInt 0 10 0 100)) s' [betterGoal] outcome := by
  obtain ⟨outcome, s', h, -⟩ := exists_of_succeedsWith
    (r := commitBatch 0 [betterGoal] ⟨.exhausted, 0, 64, 8⟩ (.fromRoot (.ofInt 0 10 0 100)))
    (p := fun _ _ => true) (by decide +kernel)
  refine ⟨s', outcome, h, newGoal_singleton rfl rfl (by decide +kernel),
    (new_goals_committed_iff 0 _ _ _ s' outcome _ rfl h).mpr ?_⟩
  intro i child hnew
  obtain ⟨rfl, rfl⟩ : i = 0 ∧ betterGoal = child := by
    simpa [List.getElem?_singleton] using hnew.get
  exact ⟨⟨rfl, rfl, fun hworse => absurd hworse (by decide)⟩,
    fun _ j hj => absurd hj (Nat.not_lt_zero j)⟩

/-- **A new goal is thrown away**: it scores worse than its parent, in a known cell. -/
theorem new_goal_discarded : ∃ (s' : CommitState Int) (outcome : BatchCommitOutcome),
    commitBatch 0 [worseGoal] ⟨.exhausted, 0, 64, 8⟩ (.fromRoot (.ofInt 0 10 0 100)) =
      .ok outcome s' ∧
    NewGoal (.fromRoot (.ofInt 0 10 0 100)) [worseGoal] 0 worseGoal ∧
    outcome.goalNode = none ∧
    ¬ NewGoalsCommitted 0 (.fromRoot (.ofInt 0 10 0 100)) s' [worseGoal] outcome := by
  obtain ⟨outcome, s', h, hp⟩ := exists_of_succeedsWith
    (r := commitBatch 0 [worseGoal] ⟨.exhausted, 0, 64, 8⟩ (.fromRoot (.ofInt 0 10 0 100)))
    (p := fun outcome _ => outcome.goalNode = none) (by decide +kernel)
  rw [decide_eq_true_eq] at hp
  have hnew : NewGoal (.fromRoot (.ofInt 0 10 0 100)) [worseGoal] 0 worseGoal :=
    newGoal_singleton rfl rfl (by decide +kernel)
  refine ⟨s', outcome, h, hnew, hp, fun hcommitted => ?_⟩
  obtain ⟨-, id, -, -, -, -, hreported⟩ := hcommitted 0 worseGoal hnew
  have hnone := hreported fun j hj => absurd hj (Nat.not_lt_zero j)
  rw [hp] at hnone
  cases hnone

end Orchestrator.Core
