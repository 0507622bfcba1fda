import Orchestrator.Core.CommitSound

/-! # Core — Failures of a commit

A commit under a node of the tree that is not a goal fails only on a 32-bit counter that is
full: a visit count, a depth or a child count, which are errors, and a cell count or an
all-duplicate streak, which are panics. What the tree, the seen map and the frontier need for
that is the soundness every commit keeps.

* `commitChild_error`: one child.
* `commitBatch_error`: a batch; `commit_of_selected`: one in flight.
-/

namespace Orchestrator.Core

open Lib CommitM

variable {F : Type} [Float64 F]

/-- A 32-bit counter that cannot be incremented. -/
def Full (n : Nat) : Prop := 2 ^ 32 ≤ n + 1

theorem checkedAdd32_eq_none {n : Nat} : checkedAdd32 n 1 = none ↔ Full n := by
  unfold checkedAdd32 Full
  split
  · rename_i hlt
    exact ⟨nofun, fun hfull => absurd hlt (Nat.not_lt.mpr hfull)⟩
  · rename_i hge
    exact ⟨fun _ => Nat.not_lt.mp hge, fun _ => rfl⟩

/-- The failure of a commit on a full counter of the state it stopped in. -/
inductive Overflows (s : CommitState F) : Abort CommitError → Prop where
  | depth {id : NodeId} {record : NodeRecord F} (hr : s.tree.get id = some record)
      (hfull : Full record.depth) : Overflows s (.error (.tree (.depthOverflow id)))
  | children {id : NodeId} {record : NodeRecord F} (hr : s.tree.get id = some record)
      (hfull : Full record.children) : Overflows s (.error (.tree (.childCountOverflow id)))
  | visits {id : NodeId} {record : NodeRecord F} (hr : s.tree.get id = some record)
      (hfull : Full record.visits) : Overflows s (.error (.tree (.visitOverflow id)))
  | cell {cell : CellKey} (hfull : Full (s.cellMirror.count cell)) : Overflows s .panic
  | streak {id : NodeId} {streak : Nat} (hs : s.allDuplicateStreaks[id]? = some streak)
      (hfull : Full streak) : Overflows s .panic

section

variable {s s' : CommitState F} {e : Abort CommitError} {parent : NodeId} {record : NodeRecord F}
  {child : ScoredChild F} {rules : CommitRules F} {old : List (NodeImage F)}

/-! ### The steps of a commit -/

theorem onTree_error {α : Type} {f : Tree F → Except TreeError (α × Tree F)}
    (h : onTree f s = .error e s') :
    s' = s ∧ ∃ error, f s.tree = .error error ∧ e = .error (.tree error) := by
  unfold onTree at h
  split at h
  · rename_i error hf
    cases h
    exact ⟨rfl, error, hf, rfl⟩
  · cases h

theorem mark_error {f : Tree F → Except TreeError (Tree F)} (h : mark f s = .error e s') :
    ∃ error, f s.tree = .error error := by
  obtain ⟨-, error, hf, -⟩ := onTree_error h
  cases hft : f s.tree with
  | error error' => exact ⟨error', rfl⟩
  | ok t => simp [hft, Except.map] at hf

theorem insertChild_error {payload : NodePayload F}
    (h : CommitM.insertChild parent payload s = .error e s')
    (hr : s.tree.get parent = some record) : Overflows s' e := by
  obtain ⟨rfl, error, hf, rfl⟩ := onTree_error h
  unfold Tree.insertChild at hf
  split at hf
  · rename_i hnone
    rw [hnone] at hr
    cases hr
  · rename_i record' hr'
    split at hf
    · rename_i hd
      cases hf
      exact .depth hr' (checkedAdd32_eq_none.mp (Option.isNone_iff_eq_none.mp hd))
    · split at hf
      · rename_i hc
        cases hf
        exact .children hr' (checkedAdd32_eq_none.mp (Option.isNone_iff_eq_none.mp hc))
      · cases hf

variable {id : NodeId}

theorem incrementVisits_error (h : CommitM.incrementVisits id s = .error e s')
    (hr : s.tree.get id = some record) : Overflows s' e := by
  obtain ⟨rfl, error, hf, rfl⟩ := onTree_error h
  unfold Tree.incrementVisits at hf
  split at hf
  · rename_i hnone
    rw [hnone] at hr
    cases hr
  · rename_i record' hr'
    split at hf
    · rename_i hv
      cases hf
      exact .visits hr' (checkedAdd32_eq_none.mp hv)
    · cases hf

theorem bumpCell_error {cell : CellKey} (h : bumpCell cell s = .error e s') : Overflows s' e := by
  unfold bumpCell at h
  split at h
  · rename_i hm
    cases h
    simp only [CellMirror.bump, CellMirror.bumpBy, Nat.one_ne_zero, if_false,
      Option.map_eq_none_iff] at hm
    exact .cell (checkedAdd32_eq_none.mp hm)
  · cases h

/-- A new node can be inserted in a frontier that speaks of the nodes before it. -/
theorem onFrontier_insert_ne_error (hid : id ∉ s.frontier.entries) :
    onFrontier (·.insert id) s ≠ .error e s' := by
  intro h
  have hc : s.frontier.contains id = false := by
    rw [← Bool.not_eq_true, Frontier.contains_iff]
    exact hid
  simp only [onFrontier, Frontier.insert, hc] at h
  cases h

theorem onFrontier_remove_ne_error (hid : s.frontier.contains id = true) :
    onFrontier (·.remove id) s ≠ .error e s' := by
  intro h
  unfold onFrontier at h
  split at h
  · rename_i error hf
    simp only [Frontier.remove] at hf
    split at hf
    · rename_i hnone
      simp [Frontier.contains, hnone] at hid
    · cases hf
  · cases h

/-! ### The functions of a commit -/

theorem commitPruned_error (h : commitPruned parent child s = .error e s')
    (hr : s.tree.get parent = some record) : Overflows s' e := by
  rcases bind_error h with h | ⟨id, s₁, h₁, h⟩
  · exact insertChild_error h hr
  obtain ⟨record', hroom, rfl, rfl⟩ := insertChild_ok h₁
  rcases bind_error h with h | ⟨_, s₂, h₂, h⟩
  · cases h
  cases h₂
  rcases bind_error h with h | ⟨_, s₃, h₃, h⟩
  · -- the node is new, so it is not a goal
    obtain ⟨error, hf⟩ := mark_error h
    simp [Tree.markPruned, Tree.get_push, NodeRecord.new] at hf
  obtain ⟨tree, -, rfl⟩ := mark_ok h₃
  rcases bind_error h with h | ⟨_, s₄, h₄, h⟩
  · cases h
  cases h₄
  rcases bind_error h with h | ⟨_, s₅, h₅, h⟩
  · exact bumpCell_error h
  · cases h

theorem commitDuplicate_error (h : commitDuplicate parent child s = .error e s')
    (hs : s.Sound old) : Overflows s' e := by
  rcases bind_error h with h | ⟨_, s₁, h₁, h⟩
  · exact bumpCell_error h
  obtain ⟨m, -, rfl⟩ := bumpCell_ok h₁
  rcases bind_error h with h | ⟨_, s₂, h₂, h⟩
  · cases h
  cases h₂
  rcases bind_error h with h | ⟨_, s₃, h₃, h⟩
  · cases hroute : s.seen.get child.payload.stateHash with
    | none =>
      simp only [hroute, visitRoute] at h
      cases h
    | some existing =>
      obtain ⟨record, hr, -⟩ := (hs.seen _ existing hroute).record
      simp only [hroute, visitRoute] at h
      cases hne : decide (existing ≠ parent) with
      | false =>
        simp only [hne, runIf_false] at h
        cases h
      | true =>
        simp only [hne, runIf_true] at h
        rcases bind_error h with h | ⟨_, s₄, h₄, h⟩
        · exact incrementVisits_error h hr
        · cases h
  · cases h

theorem commitKept_error (h : commitKept parent child s = .error e s') (hs : s.Sound old)
    (hr : s.tree.get parent = some record) : Overflows s' e := by
  rcases bind_error h with h | ⟨id, s₁, h₁, h⟩
  · exact insertChild_error h hr
  obtain ⟨record', hroom, rfl, rfl⟩ := insertChild_ok h₁
  rcases bind_error h with h | ⟨_, s₂, h₂, h⟩
  · cases h
  cases h₂
  rcases bind_error h with h | ⟨_, s₃, h₃, h⟩
  · cases h
  cases h₃
  rcases bind_error h with h | ⟨_, s₄, h₄, h⟩
  · exact bumpCell_error h
  obtain ⟨m, -, rfl⟩ := bumpCell_ok h₄
  rcases bind_error h with h | ⟨_, s₅, h₅, h⟩
  · exact absurd h (onFrontier_insert_ne_error fun hmem => Nat.lt_irrefl _ (hs.frontier _ hmem))
  obtain ⟨frontier, -, rfl⟩ := onFrontier_ok h₅
  rcases bind_error h with h | ⟨_, s₆, h₆, h⟩
  · -- the node is new, so it is not pruned
    cases hg : child.goal with
    | false =>
      simp only [hg, runIf_false] at h
      cases h
    | true =>
      simp only [hg, runIf_true] at h
      obtain ⟨error, hf⟩ := mark_error h
      simp [Tree.markGoal, Tree.get_push, NodeRecord.new] at hf
  · cases h

variable {parentScore : F} {children : List (ScoredChild F)} {allDuplicate : Bool}

theorem commitChild_error (h : commitChild parent parentScore child rules s = .error e s')
    (hs : s.Sound old) (hr : s.tree.get parent = some record) : Overflows s' e := by
  cases hp : child.prune with
  | true =>
    cases ha : rules.pruneAction with
    | drop =>
      simp only [commitChild, hp, ha] at h
      cases h
    | exhausted =>
      simp only [commitChild, hp, ha] at h
      exact commitPruned_error h hr
  | false =>
    cases hd : child.duplicate with
    | true =>
      simp only [commitChild, hp, hd] at h
      exact commitDuplicate_error h hs
    | false =>
      simp only [commitChild, hp, hd] at h
      rcases bind_error h with h | ⟨_, s₁, h₁, h⟩
      · cases h
      cases h₁
      cases hreg : isRegression s parentScore child.payload rules with
      | true =>
        simp only [hreg] at h
        cases h
      | false =>
        simp only [hreg] at h
        exact commitKept_error h hs hr

/-- A node stays in a tree that grows. -/
theorem Tree.Grows.get {t t' : Tree F} {touched : NodeId → Prop} (h : t.Grows t' touched)
    (hr : t.get id = some record) :
    ∃ record', t'.get id = some record' ∧ record'.image = record.image := by
  have himage : t'.images[id]? = some record.image := by
    obtain ⟨later, hlater⟩ := h.images
    have himage : t.images[id]? = some record.image := by rw [getElem?_images, hr]; rfl
    rw [← hlater, List.getElem?_append_left (List.getElem?_eq_some_iff.mp himage).1, himage]
  rw [getElem?_images] at himage
  exact Option.map_eq_some_iff.mp himage

theorem commitChildren_error {goalNode : Option NodeId}
    (h : commitChildren parent parentScore rules children goalNode s = .error e s')
    (hs : s.Sound old) (hr : s.tree.get parent = some record) : Overflows s' e := by
  induction children generalizing s goalNode record with
  | nil => cases h
  | cons child rest ih =>
    rcases bind_error h with h | ⟨commit, s₁, h₁, h⟩
    · exact commitChild_error h hs hr
    have hs₁ := ((inserts_sound parent child.payload).commitChild parentScore rules).ok hs h₁
    obtain ⟨record₁, hr₁, -⟩ := (commitChild_ok h₁).grows.1.get hr
    rcases bind_error h with h | ⟨_, s₂, h₂, h⟩
    · exact ih h hs₁ hr₁
    · cases h

theorem evictParent_error (h : evictParent parent s = .error e s')
    (hr : s.tree.get parent = some record) (hgoal : record.status ≠ .goal) : Overflows s' e := by
  rcases bind_error h with h | ⟨_, s₁, h₁, h⟩
  · obtain ⟨error, hf⟩ := mark_error h
    have hflag : record.goal = false := by
      rw [← Bool.not_eq_true, s.tree.wf.goal_iff parent record hr]
      exact hgoal
    simp [Tree.markExhausted, hr, hgoal, hflag] at hf
  obtain ⟨tree, -, rfl⟩ := mark_ok h₁
  rcases bind_error h with h | ⟨_, s₂, h₂, h⟩
  · cases h
  cases h₂
  cases hc : s.frontier.contains parent with
  | false =>
    simp only [hc, runIf_false] at h
    cases h
  | true =>
    simp only [hc, runIf_true] at h
    exact absurd h (onFrontier_remove_ne_error hc)

theorem nextStreak_error
    (h : nextStreak (s.allDuplicateStreaks[parent]?.getD 0) allDuplicate s = .error e s') :
    Overflows s' e := by
  cases allDuplicate with
  | false => cases h
  | true =>
    cases hn : checkedAdd32 (s.allDuplicateStreaks[parent]?.getD 0) 1 with
    | some n =>
      simp only [nextStreak, hn] at h
      cases h
    | none =>
      simp only [nextStreak, hn] at h
      cases h
      cases hs : s.allDuplicateStreaks[parent]? with
      | none => simp [hs, checkedAdd32] at hn
      | some streak =>
        rw [hs] at hn
        exact .streak hs (checkedAdd32_eq_none.mp hn)

theorem updateParentExhaustion_error {visits : Nat}
    (h : updateParentExhaustion parent visits allDuplicate rules s = .error e s')
    (hr : s.tree.get parent = some record) (hgoal : record.status ≠ .goal) : Overflows s' e := by
  rcases bind_error h with h | ⟨_, s₁, h₁, h⟩
  · cases h
  cases h₁
  rcases bind_error h with h | ⟨_, s₂, h₂, h⟩
  · cases h
  cases h₂
  rcases bind_error h with h | ⟨streak, s₃, h₃, h⟩
  · exact nextStreak_error h
  obtain ⟨rfl, -⟩ := nextStreak_ok h₃
  rcases bind_error h with h | ⟨_, s₄, h₄, h⟩
  · cases h
  cases h₄
  rcases bind_error h with h | ⟨_, s₅, h₅, h⟩
  · cases hreason : (evictReason rules visits streak).isSome with
    | false =>
      simp only [hreason, runIf_false] at h
      cases h
    | true =>
      simp only [hreason, runIf_true] at h
      exact evictParent_error h hr hgoal
  · cases h

/-- **A commit fails only on a full counter**, under a node of a sound state that is not a
goal. -/
theorem commitBatch_error (hrules : validateRules rules = none) (hs : s.Sound old)
    (hr : s.tree.get parent = some record) (hgoal : record.status ≠ .goal)
    (h : commitBatch parent children rules s = .error e s') : Overflows s' e := by
  simp only [commitBatch, hrules] at h
  rcases bind_error h with h | ⟨_, s₀, h₀, h⟩
  · cases h
  cases h₀
  simp only [hr] at h
  rcases bind_error h with h | ⟨⟨commits, goal⟩, s₁, h₁, h⟩
  · exact commitChildren_error h hs hr
  have hgrows := (commitChildren_ok h₁).grows
  obtain ⟨record₁, hr₁, -⟩ := hgrows.get hr
  rcases bind_error h with h | ⟨visits, s₂, h₂, h⟩
  · exact incrementVisits_error h hr₁
  obtain ⟨tree, ht, rfl⟩ := onTree_ok h₂
  rcases bind_error h with h | ⟨_, s₃, h₃, h⟩
  · -- neither the children nor the visit touch the status of the parent
    have hstatus : tree.statusOf parent = some record.status := by
      rw [Tree.statusOf_incrementVisits ht]
      rcases hgrows.status parent (Tree.lt_len_of_get hr) with hsame | ⟨htouched, -⟩
      · rw [hsame, Tree.statusOf, hr]
        rfl
      · exact htouched.elim
    obtain ⟨record₂, hr₂, hsame⟩ := Option.map_eq_some_iff.mp hstatus
    exact updateParentExhaustion_error h hr₂ (hsame ▸ hgoal)
  · cases h

def Committing (s s' : CommitState F) : Prop :=
  ∃ parent children rules outcome, commitBatch parent children rules s = .ok outcome s'

/-- The batch is committed, or stops on a full counter. -/
def CommitsOrFull (parent : NodeId) (children : List (ScoredChild F)) (rules : CommitRules F)
    (s : CommitState F) : Prop :=
  match commitBatch parent children rules s with
  | .ok _ _ => True
  | .error e s' => Overflows s' e

theorem sound_of_committing {root : NodePayload F}
    (h : Relation.ReflTransGen Committing (.fromRoot root) s) : s.Sound [] := by
  induction h with
  | refl => exact CommitState.fromRoot_sound root
  | tail _ hc ih =>
    obtain ⟨_, _, _, _, hc⟩ := hc
    exact (commitBatch_sound _ _ _).ok ih hc

/-- **Batches in flight.** A batch under a node that was selected after any commits is committed
after any further ones, unless a counter is full. -/
theorem commit_of_selected {root : NodePayload F} {ids : List NodeId}
    (h : Relation.ReflTransGen Committing (.fromRoot root) s)
    (hids : s.frontier.deterministicCandidates s.tree = .ok ids) (hparent : parent ∈ ids)
    (hlater : Relation.ReflTransGen Committing s s') (hrules : validateRules rules = none)
    (children : List (ScoredChild F)) : CommitsOrFull parent children rules s' := by
  -- The node stays in the tree, and does not become a goal.
  obtain ⟨record, hr, hgoal⟩ :
      ∃ record, s'.tree.get parent = some record ∧ record.status ≠ .goal := by
    induction hlater with
    | refl =>
      obtain ⟨-, record, hr, hstatus⟩ := (Frontier.mem_deterministicCandidates hids _).mp hparent
      exact ⟨record, hr, by simp [hstatus]⟩
    | tail _ hc ih =>
      obtain ⟨record, hr, hgoal⟩ := ih
      obtain ⟨_, _, _, _, hc⟩ := hc
      have hgrows := (commitBatch_grows hc).1
      obtain ⟨record', hr', -⟩ := hgrows.get hr
      have hstatus := hgrows.status parent (Tree.lt_len_of_get hr)
      simp only [Tree.statusOf, hr, hr', Option.map_some, Option.some.injEq] at hstatus
      exact ⟨record', hr', by grind⟩
  unfold CommitsOrFull
  split
  · trivial
  · rename_i hc
    exact commitBatch_error hrules (sound_of_committing (h.trans hlater)) hr hgoal hc

end

/-- Two batches of node 1 are in flight: the first evicts it, the second is committed after that. -/
theorem commit_of_selected_evicted :
    ∃ s s' : CommitState Int, s.frontier.deterministicCandidates s.tree = .ok [0, 1] ∧
      (s'.tree.statusOf 1 = some .expanded ∧ s'.frontier.contains 1 = false) ∧
      CommitsOrFull 1 mixedChildren ⟨.exhausted, 0, 1, 8⟩ s' := by
  obtain ⟨_, s, h, hp⟩ := exists_of_succeedsWith
    (r := commitBatch 0 [⟨.ofInt 1 12 1 101, false, false, false⟩] ⟨.exhausted, 0, 2, 8⟩
      (.fromRoot (.ofInt 0 10 0 100)))
    (p := fun _ s => s.frontier.deterministicCandidates s.tree = .ok [0, 1] ∧
      succeedsWith (commitBatch 1 mixedChildren ⟨.exhausted, 0, 1, 8⟩ s)
        fun _ s' => s'.tree.statusOf 1 = some .expanded ∧ s'.frontier.contains 1 = false)
    (by decide +kernel)
  obtain ⟨hids, hp⟩ := decide_eq_true_eq.mp hp
  obtain ⟨_, s', h', hevicted⟩ := exists_of_succeedsWith hp
  refine ⟨s, s', hids, decide_eq_true_eq.mp hevicted, ?_⟩
  exact commit_of_selected (.single ⟨_, _, _, _, h⟩) hids (by decide) (.single ⟨_, _, _, _, h'⟩)
    (by decide) _

end Orchestrator.Core
