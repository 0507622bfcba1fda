import Orchestrator.Core.CommitGoals
import Orchestrator.Lib.Observer
import Orchestrator.Server.Goals
import Orchestrator.Server.References
import Orchestrator.Server.Requests

/-! # Server — The goal list

The runner lists the goals it has committed: one for each batch, since a commit reports only
its first, and those a resume finds in the store. A batch with one goal is listed in full,
live or replayed; of a batch with several only the first is, until the next resume.

* `Lists`: how the list compares with the tree at each point of a process.
* `Local.lists`, `Next.lists`: one step.
* `goal_list_complete`: where no batch has a second goal the list is that of the tree.
-/

namespace Orchestrator.Server

open Core Services Lib

variable {F : Type} [Float64 F] {exp : Experiment F}

/-! ### The statement -/

/-- The goal list names the goal nodes of the tree, each once. -/
structure GoalList (r : Runner F) : Prop where
  nodup : r.goalNodes.Nodup
  mem_iff : ∀ id, id ∈ r.goalNodes ↔ r.commitState.tree.statusOf id = some .goal

/-- A scored state that is a goal, or that has the hash of a node the store has as a goal. -/
def marked (s : Store F) (result : ScoreResult F) : Bool :=
  result.goalHit || s.queryNodes.any fun row =>
    decide (row.status = .goal) && decide (row.attrs.stateHash = result.stateHash)

/-- At most one of the states scored together is marked. -/
def oneGoal (s : Store F) : (op : Op F) → Ans F op → Bool
  | .scoreBatch _, .ok (_, results) =>
    decide (results.Pairwise fun a b => ¬ (marked s a = true ∧ marked s b = true))
  | _, _ => true

/-- The environment, with at most one marked state in each scored batch. -/
def singleGoal (exp : Experiment F) : Answers (Op F) (Ans F) (World F) :=
  fun op w a w' => env exp op w a w' ∧ oneGoal w.store op a = true

theorem within_singleGoal (exp : Experiment F) :
    Within exp (singleGoal exp) ⟨(World.empty = ·), True⟩ :=
  ⟨fun _ _ _ _ h => h.1, fun _ h => h⟩

/-! ### The invariant -/

/-- An item that is a goal, or that has the hash of a listed one. -/
def Runner.Marks (r : Runner F) (it : Item F) : Prop :=
  it.result.goalHit = true ∨ ∃ id ∈ r.goalNodes, r.commitState.Names id it.result.stateHash

/-- The goals of the tree are those listed and the one still to be listed; of the items ahead
at most one is marked, and none if there is a goal already. -/
structure Covers (r : Runner F) (goal : Option NodeId) (ahead : List (Item F)) : Prop where
  goals : ∀ id, r.commitState.tree.statusOf id = some .goal ↔ id ∈ r.goalNodes ∨ goal = some id
  single : ahead.Pairwise fun a b => ¬ (r.Marks a ∧ r.Marks b)
  after : goal.isSome → ∀ it ∈ ahead, ¬ r.Marks it

/-- How the list compares with the tree at a point. Before a resume has read the rows it is
empty; after an error it may lack a goal of the commit that was cut off. -/
def Lists (r : Runner F) : Point F → Prop
  | .ended | .torn _ => True
  | .start | .fresh | .bootstrapped _ | .rootReady _ _ | .found _ _ | .resuming _
  | .collecting _ _ _ _ | .loaded _ _ => r.goalNodes = []
  | .at c | .began c | .archived c _ | .truncating c _ _ => c ≠ .failed → Covers r none []
  | .answered _ d results | .scored _ d results | .owned _ d results | .replayScored d results =>
    Covers r none (items (scorable d.jobs) results)
  | .replaying _ rest _ goal => Covers r goal rest
  | .acting _ _ rest _ goal action => Covers r (action.goalAfter goal) rest
  | .storing _ _ _ _ goal | .parentDue _ _ _ goal | .updated _ _ _ goal | .settling _ _ goal =>
    Covers r goal []
  | _ => Covers r none []

/-- A node whose row is that of a goal. -/
def GoalRow (s : Store F) (id : NodeId) : Prop :=
  ∃ row, s.rows[id]? = some row ∧ row.status = .goal

/-- Every listed node has the row of a goal, and is listed once. -/
structure Listed (s : Store F) (goals : List NodeId) : Prop where
  nodup : goals.Nodup
  rows : ∀ id ∈ goals, GoalRow s id

/-- The checkpoint lists goals. -/
def CheckpointGoals (s : Store F) : Prop :=
  ∀ cp g, s.checkpoint = some (cp, g) → ∀ id ∈ cp.goalNodes, GoalRow s id

variable {s : Store F}

variable {s' : Store F}

theorem GoalRow.later {id : NodeId} (h : GoalRow s id) (he : s.Evolves s') : GoalRow s' id := by
  obtain ⟨row, hrow, hstatus⟩ := h
  obtain ⟨row', hrow', hlater⟩ := he id row hrow
  rcases hlater.status with hsame | ⟨hfrontier, -⟩
  · exact ⟨row', hrow', hsame.trans hstatus⟩
  · rw [hstatus] at hfrontier
    cases hfrontier

theorem Listed.later {goals : List NodeId} (h : Listed s goals) (he : s.Evolves s') :
    Listed s' goals :=
  ⟨h.nodup, fun id hid => (h.rows id hid).later he⟩

/-- Between commits the rows of goals are the goals of the tree. -/
theorem Synced.goalRow_iff {t : Tree F} (h : Synced s t) (id : NodeId) :
    GoalRow s id ↔ t.statusOf id = some .goal := by
  constructor
  · rintro ⟨row, hrow, hstatus⟩
    rw [(h.status id row hrow).resolve_right fun hskip => hskip.1, hstatus]
  · intro hstatus
    obtain ⟨record, hr, -⟩ := Option.map_eq_some_iff.mp hstatus
    have himage := h.holds.image id
    rw [Tree.getElem?_images, hr] at himage
    obtain ⟨row, hrow, -⟩ := Option.map_eq_some_iff.mp himage
    refine ⟨row, hrow, ?_⟩
    have hrowStatus := (h.status id row hrow).resolve_right fun hskip => hskip.1
    exact Option.some.inj (hrowStatus.symm.trans hstatus)

section

variable {s s' : Store F} {r r' : Runner F} {p p' : Point F} {goal : Option NodeId}
  {ahead : List (Item F)}

/-! ### Steps that leave the tree and the list -/

theorem Covers.of_core (h : Covers r goal ahead)
    (htree : r'.commitState.tree = r.commitState.tree) (hgoals : r'.goalNodes = r.goalNodes) :
    Covers r' goal ahead := by
  have hmarks : ∀ it, r'.Marks it → r.Marks it := by
    rintro it (hit | ⟨id, hid, image, himage, hhash⟩)
    · exact .inl hit
    · exact .inr ⟨id, hgoals ▸ hid, image, htree ▸ himage, hhash⟩
  refine ⟨fun id => ?_, h.single.imp fun hnot hboth => hnot ⟨hmarks _ hboth.1, hmarks _ hboth.2⟩,
    fun hsome it hit hmark => h.after hsome it hit (hmarks it hmark)⟩
  rw [htree, hgoals]
  exact h.goals id

theorem Lists.onError (r : Runner F) (p : Point F) : Lists r p.onError := by
  cases p with
  | «at» c | completed c _ | began c | archived c _ | truncating c _ _ =>
    cases c <;> simp [Lists, Point.onError, Rest.onError]
  | _ => simp [Lists, Point.onError]

theorem Lists.of_core (h : Lists r p) (htree : r'.commitState.tree = r.commitState.tree)
    (hgoals : r'.goalNodes = r.goalNodes) : Lists r' p := by
  unfold Lists at h ⊢
  split at h
  case h_1 | h_2 => trivial
  case h_3 | h_4 | h_5 | h_6 | h_7 | h_8 | h_9 | h_10 => exact hgoals.trans h
  case h_11 | h_12 | h_13 | h_14 => exact fun hne => (h hne).of_core htree hgoals
  all_goals exact Covers.of_core h htree hgoals

/-! ### Commits -/

variable {cs : CommitState F} {parent : NodeId} {score : F} {it : Item F} {action : ReplayAction}
  {cp : Checkpoint F} {a : Adoption F} {op : Op F}

variable {touched : NodeId → Prop} {rules : CommitRules F} {cs' : CommitState F} {id : NodeId}
  {rest : List (Item F)} {a' : Adoption F}

/-- What is marked stays so while the tree grows. -/
theorem Covers.marks_iff (h : Covers r goal ahead) (hg : r.commitState.tree.Grows cs.tree touched)
    (it : Item F) : ({ r with commitState := cs } : Runner F).Marks it ↔ r.Marks it := by
  refine or_congr_right (exists_congr fun id => and_congr_right fun hid => ?_)
  obtain ⟨record, hr, -⟩ := Option.map_eq_some_iff.mp ((h.goals id).mpr (.inl hid))
  obtain ⟨later, hlater⟩ := hg.images
  have himage : cs.tree.images[id]? = r.commitState.tree.images[id]? := by
    rw [← hlater, List.getElem?_append_left]
    rw [Tree.length_images]
    exact Tree.lt_len_of_get hr
  exact exists_congr fun image => and_congr_left fun _ => by rw [himage]

/-- The tree has grown, by this goal if any. -/
theorem Covers.grown {goal' : Option NodeId} {ahead' : List (Item F)} (h : Covers r goal ahead)
    (hg : r.commitState.tree.Grows cs.tree touched)
    (hgoals : ∀ id, cs.tree.statusOf id = some .goal ↔ id ∈ r.goalNodes ∨ goal' = some id)
    (hsub : ahead' <:+ ahead) (hafter : goal'.isSome → ∀ it ∈ ahead', ¬ r.Marks it) :
    Covers { r with commitState := cs } goal' ahead' := by
  refine ⟨hgoals, ?_, fun hsome it hit hmark => ?_⟩
  · refine (h.single.sublist hsub.sublist).imp fun hnot hboth => hnot ?_
    exact ⟨(h.marks_iff hg _).mp hboth.1, (h.marks_iff hg _).mp hboth.2⟩
  · exact hafter hsome it hit ((h.marks_iff hg it).mp hmark)

theorem map_goal_scoredChildren (mirror : CellMirror) (siblings : List StateHash)
    (its : List (Item F)) :
    (scoredChildren mirror siblings its).map (·.goal) = its.map (·.result.goalHit) := by
  induction its generalizing siblings with
  | nil => rfl
  | cons it rest ih => simp [scoredChildren, scoredChild, ih]

theorem Covers.commit {its : List (Item F)} {mirror : CellMirror} {outcome : BatchCommitOutcome}
    (h : Covers r none its)
    (hc : commitBatch parent (scoredChildren mirror [] its) exp.rules r.commitState =
      .ok outcome cs) : Covers { r with commitState := cs } outcome.goalNode [] := by
  have hits : its.Pairwise fun a b => ¬ (a.result.goalHit = true ∧ b.result.goalHit = true) :=
    h.single.imp fun hnot hboth => hnot ⟨.inl hboth.1, .inl hboth.2⟩
  have hflags : ((scoredChildren mirror [] its).map (·.goal)).Pairwise
      fun a b => ¬ (a = true ∧ b = true) := by
    rw [map_goal_scoredChildren]
    exact List.pairwise_map.mpr hits
  refine h.grown (commitBatch_grows hc).1 (fun id => ?_) List.nil_suffix
    fun _ _ hit => absurd hit List.not_mem_nil
  rw [commitBatch_goal_iff hc (List.pairwise_map.mp hflags), h.goals]
  simp

/-- The goal nodes after one replayed child. -/
theorem ReplayStep.goal_status (h : ReplayStep parent score rules it cs action cs') (id : NodeId) :
    cs'.tree.statusOf id = some .goal ↔
      cs.tree.statusOf id = some .goal ∨ action.created = some (id, .goal) := by
  obtain ⟨hgrows, ⟨hnone, himages⟩ | ⟨status, depth, hcreated, himages, hstatus⟩⟩ := h.grows
  · have hlen : cs'.tree.len = cs.tree.len := by simpa using congrArg List.length himages
    rw [hgrows.goal hlen, hnone]
    simp
  · have hlen : cs'.tree.len = cs.tree.len + 1 := by simpa using congrArg List.length himages
    rw [hcreated]
    rcases Nat.lt_trichotomy id cs.tree.len with hlt | rfl | hgt
    · rcases hgrows.status id hlt with hsame | ⟨hno, -⟩
      · simp [hsame, (Nat.ne_of_lt hlt).symm]
      · exact hno.elim
    · simp [hstatus, Tree.statusOf_len]
    · have hnone : ∀ {t : Tree F}, t.len ≤ id → t.statusOf id = none := by
        intro t ht
        rw [Tree.statusOf, Tree.get_eq_none ht]
        rfl
      rw [hnone (Nat.le_of_lt hgt), hnone (hlen ▸ hgt)]
      simp [Nat.ne_of_lt hgt]

/-- A child is committed as a goal when the scorer says so. -/
theorem ReplayStep.goalHit (h : ReplayStep parent score rules it cs action cs')
    (ha : action = .kept id .goal) : it.result.goalHit = true := by
  cases h with
  | kept =>
    simp only [ReplayAction.kept.injEq] at ha
    by_contra hnot
    rw [if_neg hnot] at ha
    cases ha.2
  | _ => cases ha

theorem ReplayAction.goalAfter_of_not (h : ∀ id, action ≠ .kept id .goal) (goal : Option NodeId) :
    action.goalAfter goal = goal ∧ ∀ id, action.created = some (id, .goal) → False := by
  cases action with
  | kept id status =>
    have hstatus : status ≠ .goal := fun hs => h id (hs ▸ rfl)
    simp [goalAfter, created, hstatus]
  | _ => simp [goalAfter, created]

/-- A replayed goal is the first marked item of its batch. -/
theorem Covers.replayChild (h : Covers r goal (it :: rest))
    (hc : Server.replayChild parent score exp.rules it r.commitState = .ok action cs) :
    Covers { r with commitState := cs } (action.goalAfter goal) rest := by
  have hstep := replayChild_ok hc
  by_cases hnew : ∃ id, action = .kept id .goal
  · obtain ⟨id, rfl⟩ := hnew
    have hhit : r.Marks it := .inl (hstep.goalHit rfl)
    obtain rfl : goal = none := by
      by_contra hsome
      exact h.after (Option.isSome_iff_ne_none.mpr hsome) it List.mem_cons_self hhit
    refine h.grown hstep.grows.1 (fun i => ?_) (List.suffix_cons it rest) fun _ it' hit' hmark => ?_
    · rw [hstep.goal_status, h.goals]
      simp [ReplayAction.created, ReplayAction.goalAfter]
    · exact (List.pairwise_cons.mp h.single).1 it' hit' ⟨hhit, hmark⟩
  · obtain ⟨hsame, hnone⟩ := ReplayAction.goalAfter_of_not (not_exists.mp hnew) goal
    rw [hsame]
    refine h.grown hstep.grows.1 (fun i => ?_) (List.suffix_cons it rest) fun hsome it' hit' =>
      h.after hsome it' (List.mem_cons_of_mem it hit')
    rw [hstep.goal_status, h.goals, or_iff_left (hnone i)]

/-- An adopted goal is listed already. -/
theorem Covers.adoptChild {record : NodeRecord F} (h : Covers r goal (it :: rest))
    (ha : adoptable r parent it = some (id, record)) :
    Covers r (if record.goal && goal.isNone then some id else goal) rest := by
  have hsingle := List.pairwise_cons.mp h.single
  split
  · rename_i hcond
    simp only [Bool.and_eq_true, Option.isNone_iff_eq_none] at hcond
    obtain ⟨hgoal, rfl⟩ := hcond
    obtain ⟨hr, hhash⟩ := adoptable_record ha
    have hstatus : r.commitState.tree.statusOf id = some .goal := by
      rw [Tree.statusOf, hr, ← (r.commitState.tree.wf.goal_iff id record hr).mp hgoal]
      rfl
    have hid : id ∈ r.goalNodes := by simpa using (h.goals id).mp hstatus
    have hmarks : r.Marks it := by
      refine .inr ⟨id, hid, record.image, ?_, hhash⟩
      rw [Tree.getElem?_images, hr]
      rfl
    refine ⟨fun i => ?_, hsingle.2, fun _ it' hit' hmark => hsingle.1 it' hit' ⟨hmarks, hmark⟩⟩
    rw [h.goals]
    constructor
    · rintro (hi | hi)
      · exact .inl hi
      · cases hi
    · rintro (hi | hi)
      · exact .inl hi
      · cases hi
        exact .inl hid
  · exact ⟨h.goals, hsingle.2, fun hsome it' hit' =>
      h.after hsome it' (List.mem_cons_of_mem it hit')⟩

theorem Covers.replayParent {allDuplicate : Bool} {evicted : Option FrontierEvictReason}
    (h : Covers r goal [])
    (hc : Server.replayParent parent allDuplicate exp.rules r.commitState = .ok evicted cs) :
    Covers { r with commitState := cs } goal [] := by
  obtain ⟨himages, hgrows⟩ := replayParent_grows hc
  have hlen : cs.tree.len = r.commitState.tree.len := by simpa using congrArg List.length himages
  exact h.grown hgrows (fun id => (hgrows.goal hlen id).trans (h.goals id)) List.nil_suffix
    fun _ _ hit => absurd hit List.not_mem_nil

theorem goalNodes_addGoal (node : NodeId) (r : Runner F) :
    (addGoal (some node) r).goalNodes = mergeGoal r.goalNodes node := by
  unfold addGoal mergeGoal
  dsimp only
  split
  · rfl
  · rfl

theorem mem_addGoal (goal : Option NodeId) (r : Runner F) (id : NodeId) :
    id ∈ (addGoal goal r).goalNodes ↔ id ∈ r.goalNodes ∨ goal = some id := by
  cases goal with
  | none => simp [addGoal]
  | some node => rw [goalNodes_addGoal, mem_mergeGoal, Option.some.injEq]

theorem nodup_addGoal (h : r.goalNodes.Nodup) (goal : Option NodeId) :
    (addGoal goal r).goalNodes.Nodup := by
  cases goal with
  | none => exact h
  | some node =>
    rw [goalNodes_addGoal]
    exact nodup_mergeGoal h node

theorem Covers.settle (h : Covers r goal []) :
    Covers { addGoal goal r with current := none } none [] := by
  refine ⟨fun id => ?_, .nil, nofun⟩
  change (addGoal goal r).commitState.tree.statusOf id = some .goal ↔
    id ∈ (addGoal goal r).goalNodes ∨ none = some id
  rw [addGoal_commitState, h.goals, mem_addGoal]
  simp

/-- One step without a call. -/
theorem Local.lists (hl : Local exp p r p' r') (h : Lists r p) : Lists r' p' := by
  cases hl with
  | touch hsame => exact h.of_core (congrArg CommitState.tree hsame.commitState) hsame.goalNodes
  | fail => exact Lists.onError r p
  | adoptGeneration | collect | loaded => exact h
  | @truncated c covered =>
    cases c with
    | failed => exact fun hne => absurd rfl hne
    | booted => exact Covers.of_core (h (by simp)) rfl rfl
    | _ => exact fun _ => Covers.of_core (h (by simp)) rfl rfl
  | commit hc => exact Covers.commit h hc
  | commitFailed | replayChildFailed | replayParentFailed => trivial
  | adoptChild ha => exact Covers.adoptChild h ha
  | replayChild hc => exact Covers.replayChild h hc
  | replayParent hc => exact Covers.replayParent h hc
  | settle => exact Covers.settle h
  | pop | enterLoop | pausing | ending => exact fun _ => Covers.of_core (h (by simp)) rfl rfl
  | fill => exact Covers.of_core (h (by simp)) rfl rfl
  | filled | unselected => exact fun _ => h
  | nothingToScore | replayNothingToScore =>
    simp only [Lists, items, List.zipWith_nil_right]
    exact h
  | @acted d it rest states goal action r hc hv =>
    have hsame : action.goalAfter goal = goal :=
      (ReplayAction.goalAfter_of_not (fun id hid => by rw [hid] at hc; cases hc) goal).1
    simp only [Lists, hsame] at h
    exact h
  | _ => exact Covers.of_core h rfl rfl

/-! ### Resume -/

/-- The goals a row adds. -/
theorem adoptStatus_goals (cp : Checkpoint F) (row : Row F) (a : Adoption F) :
    (adoptStatus cp row a).goalNodes =
      if row.status = .goal then mergeGoal a.goalNodes row.nodeId else a.goalNodes := by
  unfold adoptStatus adoptWeights
  cases row.status with
  | frontier =>
    dsimp only
    split
    · rfl
    · rfl
  | _ => rfl

theorem adoptSeen_goals {row : Row F} (h : adoptSeen cp row a = some a') :
    a'.goalNodes = a.goalNodes := by
  unfold adoptSeen at h
  split at h
  · obtain ⟨mirror, -, rfl⟩ := Option.map_eq_some_iff.mp h
    rfl
  · cases h
    rfl

theorem adoptRows_goals {rows : List (Row F)} (h : adoptRows cp rows a = some a') :
    (∀ id, id ∈ a'.goalNodes ↔
      id ∈ a.goalNodes ∨ ∃ row ∈ rows, row.status = .goal ∧ row.nodeId = id) ∧
    (a.goalNodes.Nodup → a'.goalNodes.Nodup) := by
  induction rows generalizing a with
  | nil =>
    cases h
    simp
  | cons row rest ih =>
    simp only [adoptRows] at h
    split at h
    · cases h
    · rename_i a₁ hseen
      obtain ⟨hmem, hnodup⟩ := ih h
      have hgoals : (adoptRuntime row (adoptStatus cp row a₁)).goalNodes =
          if row.status = .goal then mergeGoal a.goalNodes row.nodeId else a.goalNodes := by
        rw [← adoptSeen_goals hseen]
        exact adoptStatus_goals cp row a₁
      refine ⟨fun id => ?_, fun hstart => hnodup ?_⟩
      · rw [hmem, hgoals]
        by_cases hstatus : row.status = .goal
        · simp [hstatus, mem_mergeGoal, or_assoc]
        · simp [hstatus]
      · rw [hgoals]
        split
        · exact nodup_mergeGoal hstart _
        · exact hstart

/-- The list a resume makes: the goals of the store. -/
theorem goalNodes_adoption {tree : Tree F} (hs : Synced s a.tree)
    (hcp : ∀ id ∈ cp.goalNodes, GoalRow s id) (hempty : r.goalNodes = [])
    (ha : adoptRows cp s.queryNodes (adoptionStart cp tree r) = some a) :
    (installAdoption cp a r).goalNodes.Nodup ∧
      ∀ id, id ∈ (installAdoption cp a r).goalNodes ↔ GoalRow s id := by
  obtain ⟨hmem, hnodup⟩ := adoptRows_goals ha
  have hstart : (adoptionStart cp tree r).goalNodes = [] := hempty
  constructor
  · refine ((List.perm_insertionSort _ _).nodup_iff).mpr (nodup_foldl_mergeGoal ?_)
    exact ((List.perm_insertionSort _ _).nodup_iff).mpr (hnodup (hstart ▸ List.nodup_nil))
  · intro id
    rw [mem_goalNodes_installAdoption, hmem, hstart]
    constructor
    · rintro ((hid | ⟨row, hrow, hstatus, rfl⟩) | hid)
      · cases hid
      · obtain ⟨i, hi⟩ := List.mem_iff_getElem?.mp hrow
        rw [hs.holds.getElem?_queryNodes] at hi
        rw [hs.holds.nodeId i row hi]
        exact ⟨row, hi, hstatus⟩
      · exact hcp id hid
    · rintro ⟨row, hrow, hstatus⟩
      refine .inl (.inr ⟨row, ?_, hstatus, hs.holds.nodeId id row hrow⟩)
      exact List.mem_of_getElem? ((hs.holds.getElem?_queryNodes id).trans hrow)

/-! ### Calls -/

/-- What the runner has marked is marked in the store. -/
theorem marked_of_marks (hs : Synced s r.commitState.tree) (hl : Listed s r.goalNodes)
    (h : r.Marks it) : marked s it.result = true := by
  unfold marked
  rcases h with hit | ⟨id, hid, image, himage, hhash⟩
  · rw [hit]
    rfl
  · obtain ⟨row, hrow, hstatus⟩ := hl.rows id hid
    have hsame := hs.holds.image id
    rw [hrow, himage] at hsame
    have hattrs : row.attrs.stateHash = it.result.stateHash :=
      (congrArg NodeImage.stateHash (Option.some.inj hsame)).trans hhash
    rw [Bool.or_eq_true, List.any_eq_true]
    refine .inr ⟨row, List.mem_of_getElem? ((hs.holds.getElem?_queryNodes id).trans hrow), ?_⟩
    simp [hstatus, hattrs]

/-- The scored items of a batch, where at most one of the answers is marked. -/
theorem Covers.scored {jobs : List (JobResult × Capture)} {results : List (ScoreResult F)}
    (h : Covers r none []) (hs : Synced s r.commitState.tree) (hl : Listed s r.goalNodes)
    (hone : results.Pairwise fun a b => ¬ (marked s a = true ∧ marked s b = true)) :
    Covers r none (items jobs results) := by
  refine ⟨h.goals, ?_, nofun⟩
  have hresults := hone.sublist (map_result_items jobs results).sublist
  exact (List.pairwise_map.mp hresults).imp fun hnot hboth =>
    hnot ⟨marked_of_marks hs hl hboth.1, marked_of_marks hs hl hboth.2⟩

variable {w w' : World F}

/-- One call. -/
theorem Next.lists {a : Ans F op} (hn : Next exp p r op a p' r') (he : env exp op w a w')
    (hone : oneGoal w.store op a = true) (hreach : Reaches exp p r w)
    (hcp : CheckpointGoals w.store) (hl : Listed w.store r.goalNodes) (h : Lists r p) :
    Lists r' p' := by
  have hassert := hreach.refines.2
  cases hn with
  | quiet => exact h
  | failed => exact Lists.onError r p
  | noCheckpoint | foundCheckpoint | bootstrap | stale | collected | missed | rootScored => exact h
  | @rootCreated root result r bringup =>
    have hempty : r.goalNodes = [] := h
    refine ⟨fun id => ?_, .nil, nofun⟩
    rw [hempty, hassert.2.2]
    have hroot : (CommitState.fromRoot (rootPayload root result)).tree.statusOf id ≠
        some .goal := by
      intro hgoal
      obtain ⟨record, hget, hstatus⟩ := Option.map_eq_some_iff.mp hgoal
      obtain rfl : id = 0 := Nat.lt_one_iff.mp (Tree.lt_len_of_get hget)
      cases hget
      cases hstatus
    simp [hroot]
  | @adopt cp intents r rows tree a ht hadopt =>
    obtain ⟨-, rfl, rfl⟩ := env_queryNodes_ok he
    obtain ⟨⟨cp', g⟩, hckpt, rfl⟩ := Option.map_eq_some_iff.mp (hreach.current rfl)
    have hs := hreach.refines.1.adopt ht hadopt
    refine ⟨fun id => ?_, .nil, nofun⟩
    rw [(goalNodes_adoption hs (hcp _ g hckpt) h hadopt).2, hs.goalRow_iff]
    simp [installAdoption, CommitState.fromParts]
  | score => exact Covers.scored h hassert hl (of_decide_eq_true hone)
  | scoreReplay => exact Covers.scored h hassert hl (of_decide_eq_true hone)
  | @routeReplayed d it rest states goal action r existing hact =>
    have hsame : action.goalAfter goal = goal :=
      (ReplayAction.goalAfter_of_not (fun id hid => by rw [hid] at hact; cases hact) goal).1
    simp only [Lists, hsame] at h
    exact h
  | rootReplayed | started | committed => exact fun _ => h
  | aborted => exact fun hne => absurd rfl hne
  | began | archived | archivedAgain | put | truncated =>
    exact fun hne => Covers.of_core (h hne) rfl rfl
  | @completed c r k jobs b hc hb =>
    have hne : c ≠ .failed := by
      rintro rfl
      cases hc
    exact Covers.of_core (h hne) rfl rfl
  | buildReplay => exact Covers.of_core (h (by simp)) rfl rfl
  | _ => exact Covers.of_core h rfl rfl

theorem Local.keeps_listed (hl : Local exp p r p' r') (ha : Assert exp r s p) (h : Lists r p)
    (hlisted : Listed s r.goalNodes) : Listed s r'.goalNodes := by
  cases hl with
  | touch hsame => exact hsame.goalNodes ▸ hlisted
  | @settle c d goal r =>
    have ha : Synced s r.commitState.tree := ha
    have h : Covers r goal [] := h
    refine ⟨nodup_addGoal hlisted.nodup goal, fun id hid => ?_⟩
    exact (ha.goalRow_iff id).mpr ((h.goals id).mpr ((mem_addGoal goal r id).mp hid))
  | _ => exact hlisted

theorem Next.keeps_listed {a : Ans F op} (hn : Next exp p r op a p' r') (he : env exp op w a w')
    (hreach : Reaches exp p r w) (hcp : CheckpointGoals w.store) (h : Lists r p)
    (hlisted : Listed w.store r.goalNodes) : Listed w'.store r'.goalNodes := by
  have hlater := hlisted.later (hn.evolves he hreach.refines.2)
  cases hn with
  | @adopt cp intents r rows tree a ht hadopt =>
    obtain ⟨-, rfl, rfl⟩ := env_queryNodes_ok he
    obtain ⟨⟨cp', g⟩, hckpt, rfl⟩ := Option.map_eq_some_iff.mp (hreach.current rfl)
    obtain ⟨hnodup, hmem⟩ :=
      goalNodes_adoption (hreach.refines.1.adopt ht hadopt) (hcp _ g hckpt) h hadopt
    exact ⟨hnodup, fun id hid => (hmem id).mp hid⟩
  | _ => exact hlater

theorem Next.checkpointGoals {a : Ans F op} (hn : Next exp p r op a p' r') (he : env exp op w a w')
    (ha : Assert exp r w.store p) (hlisted : Listed w.store r.goalNodes)
    (h : CheckpointGoals w.store) : CheckpointGoals w'.store := by
  by_cases hop : op.writesCheckpoint = false
  · intro cp g hcp id hid
    rw [env_checkpoint he hop] at hcp
    exact (h cp g hcp id hid).later (hn.evolves he ha)
  · rcases hn.issues with hi | ⟨-, hnot⟩
    · refine env_induct (P := fun x => CheckpointGoals x.store) he h (fun w₁ happ => ?_)
        fun _ _ h => h
      cases hi with
      | put hv =>
        cases happ with
        | putCheckpoint hput =>
          obtain ⟨-, -, rfl⟩ := Store.putCheckpoint_ok hput
          intro cp g hcp id hid
          cases hcp
          rw [buildCheckpoint, Option.map_eq_some_iff] at hv
          obtain ⟨frontier, -, rfl⟩ := hv
          exact (hlisted.rows id hid).later (.of_rows rfl)
      | _ => exact absurd rfl hop
    · exact absurd hnot hop

end

/-! ### Whole runs -/

/-- The list at every point of a run without second goals. -/
theorem Reach.goalList {p : Point F} {r : Runner F} {w : World F}
    (h : Reach exp (singleGoal exp) ⟨(World.empty = ·), True⟩ p r w) :
    CheckpointGoals w.store ∧ Listed w.store r.goalNodes ∧ Lists r p := by
  have hinitial : ∀ s : Store F, Listed s (Runner.initial exp).goalNodes ∧
      Lists (Runner.initial exp) .start :=
    fun s => ⟨⟨List.nodup_nil, fun id hid => by cases hid⟩, rfl⟩
  induction h with
  | init hw =>
    subst hw
    exact ⟨fun cp g hcp => (by cases hcp), hinitial _⟩
  | restart _ _ ih => exact ⟨ih.1, hinitial _⟩
  | loc h hl ih =>
    obtain ⟨hcp, hlisted, hlists⟩ := ih
    have hreach := h.widen (within_singleGoal exp)
    exact ⟨hcp, hl.keeps_listed hreach.refines.2 hlists hlisted, hl.lists hlists⟩
  | call h hn ha ih =>
    obtain ⟨hcp, hlisted, hlists⟩ := ih
    have hreach := h.widen (within_singleGoal exp)
    exact ⟨hn.checkpointGoals ha.1 hreach.refines.2 hlisted hcp,
      hn.keeps_listed ha.1 hreach hcp hlists hlisted, hn.lists ha.1 ha.2 hreach hcp hlisted hlists⟩

/-- **The goal list is complete where no batch has a second goal.** In every run, with any kills
and resumes, in which of the states scored together at most one is a goal or has the hash of a
node that is one: between batches the list is that of the goal nodes of the tree. -/
theorem goal_list_complete (exp : Experiment F) {s : Solo (Op F) (Ans F) (World F)}
    (h : Solo.Steps (singleGoal exp) (boot exp) ⟨.empty, none⟩ s) :
    ∀ e ∈ s.world.log, ∀ r, e.event.boundary = some r → GoalList r := by
  obtain ⟨p, r, hreach⟩ : Known exp (singleGoal exp) ⟨(World.empty = ·), True⟩ s.world :=
    reach_of_steps rfl trivial h
  intro e he r₀ hb
  have hn : e.event.noted = true := by
    cases hev : e.event <;> simp_all [Event.boundary, Event.noted, Event.runner]
  obtain ⟨i, hi⟩ := List.mem_iff_getElem?.mp he
  obtain ⟨p₀, r', w₀, p₁, r₁, h₀, hnext, -⟩ := hreach.origin_noted (within_singleGoal exp) hi hn
  obtain ⟨-, hlisted, hlists⟩ := h₀.goalList
  generalize hev : e.event = ev at hnext hb
  have hlist : ∀ {r : Runner F}, Listed w₀.store r.goalNodes → Covers r none [] → GoalList r :=
    fun hlisted hcovers => ⟨hlisted.nodup, fun id => by simpa using (hcovers.goals id).symm⟩
  cases hnext with
  | quiet hq => cases hq
  | failed hi => cases hi
  | started | select | committed =>
    cases hb
    exact hlist hlisted hlists
  | scored | aborted | began => cases hb

/-- The environment's answer, or an outage in place of a scored batch with a second goal. -/
def spare (exp : Experiment F) (op : Op F) (c : Choice) (w : World F) : Ans F op × World F :=
  if oneGoal w.store op (respond exp op c w).1 then respond exp op c w
  else respond exp op (.fault (.new .unavailable "scorer unavailable") false) w

theorem singleGoal_spare (exp : Experiment F) (op : Op F) (c : Choice) (w : World F) :
    singleGoal exp op w (spare exp op c w).1 (spare exp op c w).2 := by
  unfold spare
  split
  · next hone => exact ⟨⟨c, rfl⟩, hone⟩
  · refine ⟨⟨_, rfl⟩, ?_⟩
    cases op <;> rfl

/-- The world after processes were started one after the other and answered by `spare`. -/
def evaluateSpare (exp : Experiment F) (scripts : List (List Choice)) : World F :=
  Solo.script (spare exp) (boot exp) (scripts.map fun script => (script.length, script)) .empty

theorem steps_evaluateSpare (exp : Experiment F) (scripts : List (List Choice)) :
    Solo.Steps (singleGoal exp) (boot exp) ⟨.empty, none⟩ ⟨evaluateSpare exp scripts, none⟩ := by
  refine (Solo.steps_script (spare exp) _ _).mono fun op w a w' h => ?_
  obtain ⟨c, hc⟩ := h
  have hspare := singleGoal_spare exp op c w
  rwa [hc] at hspare

/-- A goal listed at a batch boundary. -/
def Event.listsGoal (e : Event F) : Bool :=
  e.boundary.any fun r => !r.goalNodes.isEmpty

theorem goal_list_complete_killedBeforeGoalCheckpoint :
    ∃ s, Solo.Steps (singleGoal striking) (boot striking) ⟨.empty, none⟩ s ∧
      (s.world.log.any fun e => e.event.listsGoal) = true ∧
      ∀ e ∈ s.world.log, ∀ r, e.event.boundary = some r → GoalList r := by
  have hlists : ((evaluateSpare striking killedBeforeGoalCheckpoint).log.any
      fun e => e.event.listsGoal) = true := by
    decide +kernel
  have hsteps := steps_evaluateSpare striking killedBeforeGoalCheckpoint
  generalize evaluateSpare striking killedBeforeGoalCheckpoint = w at hlists hsteps
  exact ⟨_, hsteps, hlists, goal_list_complete striking hsteps⟩

/-- Two bursts an expansion, each of which arrives at a goal of its own. -/
def twinGoals : Experiment Int :=
  { sample with
    windowN := 10
    epsilonS := 1
    everySeconds := 30
    kPerExpansion := 2
    propose := fun request =>
      ⟨[⟨2 * request.seed, [], 7, 0⟩, ⟨2 * request.seed + 1, [], 7, 1⟩], 7, request.seed⟩
    execute := fun batch => batch.bursts.map fun burst =>
      sampleJob burst.burstId [10 + burst.slot, 10 + burst.slot, 10, 1, 0] }

/-- A goal of the tree that is not listed at a batch boundary. -/
def Event.missesGoal (e : Event F) : Bool :=
  e.boundary.any fun r => (List.range r.commitState.tree.len).any fun id =>
    decide (r.commitState.tree.statusOf id = some .goal) && !r.goalNodes.contains id

theorem exists_not_goalList {log : List (Entry F)}
    (h : (log.any fun e => e.event.missesGoal) = true) :
    ∃ e ∈ log, ∃ r, e.event.boundary = some r ∧ ¬ GoalList r := by
  obtain ⟨e, he, hmisses⟩ := List.any_eq_true.mp h
  obtain ⟨r, hr, hany⟩ := (Option.any_eq_true _ _).mp hmisses
  obtain ⟨id, -, hid⟩ := List.any_eq_true.mp hany
  obtain ⟨hgoal, hnot⟩ := Bool.and_eq_true_iff.mp hid
  refine ⟨e, he, r, hr, fun hlist => ?_⟩
  have hmem := (hlist.mem_iff id).mpr (of_decide_eq_true hgoal)
  simp [hmem] at hnot

theorem second_goal_unlisted :
    twinGoals.Accepted ∧
      ∃ s, Solo.Steps (env twinGoals) (boot twinGoals) ⟨.empty, none⟩ s ∧
        ∃ e ∈ s.world.log, ∃ r, e.event.boundary = some r ∧ ¬ GoalList r := by
  have hmisses : ((evaluate twinGoals [List.replicate 60 .answer]).log.any
      fun e => e.event.missesGoal) = true := by
    decide +kernel
  have hsteps := steps_evaluate twinGoals [List.replicate 60 .answer]
  generalize evaluate twinGoals [List.replicate 60 .answer] = w at hmisses hsteps
  refine ⟨?_, _, hsteps, exists_not_goalList hmisses⟩
  constructor <;> decide

end Orchestrator.Server
