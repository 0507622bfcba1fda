import Orchestrator.Core.CommitSound
import Orchestrator.Server.Commit

/-! # Server — Siblings

The two loops of the live commit together: `commit_completed` marks every child whose hash an
earlier sibling has as a duplicate, and `commit_batch` then decides what becomes of each child.
A sibling whose hash was noted can be discarded itself, and then a later child with the same
hash is dropped as the duplicate of a state that no node has.

* `Passed`, `Passed.step`: the seen map and the cells known when a child's turn comes, read off
  the scores of the siblings before it.
* `duplicates_held_iff`: when every duplicate of a batch is the state of a node.
* `regression_hides_sibling`: a batch that loses a state.
-/

namespace Orchestrator.Core

variable {F : Type} [Float64 F]

variable {parent : NodeId} {parentScore : F} {rules : CommitRules F} {s s' : CommitState F}
  {hash : StateHash} {id : NodeId}

/-- The seen map keeps the node it has for a hash. -/
theorem ChildStep.get_seen {child : ScoredChild F} {commit : ChildCommit}
    (h : ChildStep parent parentScore child rules s commit s') (hid : s.seen.get hash = some id) :
    s'.seen.get hash = some id := by
  cases h with
  | pruneDrop | duplicate | regression => exact hid
  | prunedExhausted | keep =>
    simp only [SeenMap.get_insert]
    split
    · rename_i heq
      rw [← heq, hid]
      rfl
    · exact hid

theorem ChildSteps.get_seen {children : List (ScoredChild F)} {commits : List ChildCommit}
    (h : ChildSteps parent parentScore rules s children commits s')
    (hid : s.seen.get hash = some id) : s'.seen.get hash = some id := by
  induction h with
  | nil => exact hid
  | cons hstep _ ih => exact ih (hstep.get_seen hid)

end Orchestrator.Core

namespace Orchestrator.Server

open Lib Orchestrator.Core Services

variable {F : Type} [Float64 F] {parent : NodeId} {rules : CommitRules F}
  {s t t' : CommitState F} {before its : List (Item F)} {it : Item F} {commit : ChildCommit}
  {hash : StateHash} {cell : CellKey}

/-! ### What becomes of a sibling -/

/-- The prune rule drops the item without a trace. -/
def Item.dropped (rules : CommitRules F) (it : Item F) : Bool :=
  it.prune && decide (rules.pruneAction = .drop)

/-- A cell is known after the items `before`: it was known before the batch, or one of them is
in it. An item that is only a regression was in a known cell itself. -/
def CellKnown (rules : CommitRules F) (s : CommitState F) (before : List (Item F))
    (cell : CellKey) : Prop :=
  0 < s.cellMirror.count cell ∨
    ∃ j ∈ before, j.result.cellKey = cell ∧ j.dropped rules = false

/-- An item that comes after the items `before` is given a node: it is kept as pruned, or
neither the scorer nor an earlier sibling makes it a duplicate and its score is no regression
in a known cell. -/
def Commits (rules : CommitRules F) (parent : NodeId) (s : CommitState F)
    (before : List (Item F)) (it : Item F) : Prop :=
  if it.prune then rules.pruneAction = .exhausted
  else it.result.duplicate = false ∧
    (∀ j ∈ before, j.result.stateHash ≠ it.result.stateHash) ∧
    ¬ (it.result.progressScore.get + rules.epsilonKeep < parentScore s parent ∧
      CellKnown rules s before it.result.cellKey)

theorem commits_of_prune (hp : it.prune = true) :
    Commits rules parent s before it ↔ rules.pruneAction = .exhausted := by
  rw [Commits, if_pos hp]

theorem commits_of_not_prune (hp : it.prune = false) :
    Commits rules parent s before it ↔ it.result.duplicate = false ∧
      (∀ j ∈ before, j.result.stateHash ≠ it.result.stateHash) ∧
      ¬ (it.result.progressScore.get + rules.epsilonKeep < parentScore s parent ∧
        CellKnown rules s before it.result.cellKey) := by
  rw [Commits, if_neg (Bool.eq_false_iff.mp hp)]

/-- One of the items `before` has this hash and is given a node. -/
def Held (rules : CommitRules F) (parent : NodeId) (s : CommitState F) (before : List (Item F))
    (hash : StateHash) : Prop :=
  ∃ first j rest, before = first ++ j :: rest ∧ j.result.stateHash = hash ∧
    Commits rules parent s first j

theorem cellKnown_concat : CellKnown rules s (before ++ [it]) cell ↔
    CellKnown rules s before cell ∨ it.result.cellKey = cell ∧ it.dropped rules = false := by
  simp only [CellKnown, List.mem_append, List.mem_singleton, or_and_right, exists_or,
    exists_eq_left, or_assoc]

theorem held_concat : Held rules parent s (before ++ [it]) hash ↔
    Held rules parent s before hash ∨
      it.result.stateHash = hash ∧ Commits rules parent s before it := by
  constructor
  · rintro ⟨first, j, rest, hsplit, hhash, hj⟩
    rcases List.eq_nil_or_concat rest with rfl | ⟨rest, last, rfl⟩
    · obtain ⟨rfl, hlast⟩ := List.append_inj' hsplit rfl
      cases hlast
      exact .inr ⟨hhash, hj⟩
    · rw [List.concat_eq_append, ← List.cons_append, ← List.append_assoc] at hsplit
      obtain ⟨rfl, -⟩ := List.append_inj' hsplit rfl
      exact .inl ⟨first, j, rest, rfl, hhash, hj⟩
  · rintro (⟨first, j, rest, rfl, hhash, hj⟩ | ⟨hhash, hit⟩)
    · exact ⟨first, j, rest ++ [it], by simp, hhash, hj⟩
    · exact ⟨before, it, [], rfl, hhash, hit⟩

/-! ### The pass over a batch -/

/-- The commit of a batch that began in `s` has come past the items `before`, to `t`. -/
structure Passed (rules : CommitRules F) (parent : NodeId) (s : CommitState F)
    (before : List (Item F)) (t : CommitState F) : Prop where
  seen : ∀ hash, t.seen.contains hash = true ↔
    s.seen.contains hash = true ∨ Held rules parent s before hash
  cell : ∀ cell, 0 < t.cellMirror.count cell ↔ CellKnown rules s before cell

theorem Passed.nil : Passed rules parent s [] s where
  seen hash := by simp [Held]
  cell cell := by simp [CellKnown]

theorem count_pos_bump {m m' : CellMirror} {cell' : CellKey} (h : m.bump cell = some m') :
    0 < m'.count cell' ↔ 0 < m.count cell' ∨ cell = cell' := by
  rw [CellMirror.count_bump h]
  by_cases hcell : cell' = cell
  · simp [hcell]
  · simp [hcell, Ne.symm hcell]

namespace Passed

variable {dup : Bool}

theorem isRegression_iff (h : Passed rules parent s before t) :
    isRegression t (parentScore s parent) (it.payload s.cellMirror) rules = true ↔
      it.result.progressScore.get + rules.epsilonKeep < parentScore s parent ∧
        CellKnown rules s before it.result.cellKey := by
  rw [isRegression, Bool.and_eq_true, decide_eq_true_iff, decide_eq_true_iff, ← h.cell]
  rfl

/-- The child is given a node exactly when its item commits. -/
theorem isSome_nodeId_iff (h : Passed rules parent s before t)
    (hdup : dup = true ↔ ∃ j ∈ before, j.result.stateHash = it.result.stateHash)
    (hstep : ChildStep parent (parentScore s parent) (scoredChild s.cellMirror dup it) rules t
      commit t') :
    commit.nodeId.isSome = true ↔ Commits rules parent s before it := by
  have hnew : (scoredChild s.cellMirror dup it).duplicate = false ↔
      it.result.duplicate = false ∧
        ∀ j ∈ before, j.result.stateHash ≠ it.result.stateHash := by
    rw [scoredChild, Bool.or_eq_false_iff, ← Bool.not_eq_true dup, hdup]
    simp only [not_exists, not_and, ne_eq]
  cases hstep with
  | pruneDrop hp ha =>
    rw [commits_of_prune hp, ha]
    simp
  | prunedExhausted hp ha =>
    rw [commits_of_prune hp]
    exact iff_of_true rfl ha
  | duplicate hp hd =>
    rw [commits_of_not_prune hp, ← and_assoc, ← hnew, hd]
    simp
  | regression hp hd hreg =>
    rw [commits_of_not_prune hp, ← h.isRegression_iff]
    exact iff_of_false (by simp) fun hc => hc.2.2 hreg
  | keep hp hd hreg =>
    rw [commits_of_not_prune hp, ← h.isRegression_iff, ← and_assoc]
    exact iff_of_true rfl ⟨hnew.mp hd, Bool.eq_false_iff.mp hreg⟩

/-- Every child but a dropped one leaves its cell known. -/
theorem count_pos_iff (h : Passed rules parent s before t)
    (hstep : ChildStep parent (parentScore s parent) (scoredChild s.cellMirror dup it) rules t
      commit t') :
    0 < t'.cellMirror.count cell ↔ CellKnown rules s before cell ∨
      it.result.cellKey = cell ∧ it.dropped rules = false := by
  rw [← h.cell]
  cases hstep with
  | pruneDrop hp ha =>
    have hdropped : it.dropped rules = true := by
      rw [Item.dropped, ha, show it.prune = true from hp]
      rfl
    simp [hdropped]
  | prunedExhausted hp ha hr hm =>
    have hdropped : it.dropped rules = false := by simp [Item.dropped, ha]
    simp only [hdropped, and_true]
    exact count_pos_bump hm
  | duplicate hp hd hm hv =>
    have hdropped : it.dropped rules = false := by
      rw [Item.dropped, show it.prune = false from hp, Bool.false_and]
    simp only [hdropped, and_true]
    exact count_pos_bump hm
  | regression hp hd hreg =>
    have hcell : 0 < t.cellMirror.count it.result.cellKey :=
      (h.cell _).mpr (h.isRegression_iff.mp hreg).2
    exact ⟨.inl, fun hc => hc.elim id fun heq => heq.1 ▸ hcell⟩
  | keep hp hd hreg hr hm hf =>
    have hdropped : it.dropped rules = false := by
      rw [Item.dropped, show it.prune = false from hp, Bool.false_and]
    simp only [hdropped, and_true]
    exact count_pos_bump hm

theorem step (h : Passed rules parent s before t)
    (hdup : dup = true ↔ ∃ j ∈ before, j.result.stateHash = it.result.stateHash)
    (hstep : ChildStep parent (parentScore s parent) (scoredChild s.cellMirror dup it) rules t
      commit t') :
    Passed rules parent s (before ++ [it]) t' where
  seen hash := by
    have hown : commit.nodeId.isSome = true ∧ hash = it.result.stateHash ↔
        it.result.stateHash = hash ∧ Commits rules parent s before it := by
      rw [h.isSome_nodeId_iff hdup hstep, and_comm, eq_comm]
    rw [hstep.contains_seen, h.seen, held_concat, or_assoc]
    exact or_congr_right (or_congr_right hown)
  cell cell := by rw [h.count_pos_iff hstep, cellKnown_concat]

/-- The turn of one child, and the seen map its commit ends with. -/
theorem turn {siblings : List StateHash} {commits : List ChildCommit} {i : Nat}
    (h : Passed rules parent s before t)
    (hsib : ∀ hash, hash ∈ siblings ↔ ∃ j ∈ before, j.result.stateHash = hash)
    (hsteps : ChildSteps parent (parentScore s parent) rules t
      (scoredChildren s.cellMirror siblings its) commits t')
    (hi : its[i]? = some it) :
    ∃ commit u u' dup, commits[i]? = some commit ∧ Passed rules parent s (before ++ its.take i) u ∧
      (dup = true ↔ ∃ j ∈ before ++ its.take i, j.result.stateHash = it.result.stateHash) ∧
      ChildStep parent (parentScore s parent) (scoredChild s.cellMirror dup it) rules u commit u' ∧
      ∀ hash id, u.seen.get hash = some id → t'.seen.get hash = some id := by
  induction its generalizing before siblings commits t i with
  | nil => cases hi
  | cons first rest ih =>
    have hdup : siblings.contains first.result.stateHash = true ↔
        ∃ j ∈ before, j.result.stateHash = first.result.stateHash := by
      rw [List.contains_iff_mem]
      exact hsib _
    cases hsteps with
    | @cons _ u _ _ commit _ commits hstep hrest =>
      cases i with
      | zero =>
        cases hi
        rw [List.take_zero, List.append_nil]
        exact ⟨commit, t, u, _, rfl, h, hdup, hstep, fun _ _ hid =>
          hrest.get_seen (hstep.get_seen hid)⟩
      | succ i =>
        have := ih (h.step hdup hstep) ?_ hrest hi
        · simpa only [List.append_assoc, List.singleton_append, List.take_succ_cons,
            List.getElem?_cons_succ] using this
        · intro hash
          rw [List.mem_cons, hsib]
          simp [or_and_right, exists_or, or_comm, eq_comm]

end Passed

/-! ### Duplicates and nodes -/

variable {dup : Bool}

/-- A child is discarded as a duplicate with the route the seen map has for it. -/
theorem duplicate_of_step
    (hstep : ChildStep parent (parentScore s parent) (scoredChild s.cellMirror dup it) rules t
      commit t') :
    commit.disposition = .discard .duplicate ↔
      it.prune = false ∧ (it.result.duplicate = true ∨ dup = true) := by
  have hflags : (scoredChild s.cellMirror dup it).duplicate = true ↔
      it.result.duplicate = true ∨ dup = true := Bool.or_eq_true_iff
  rw [← hflags]
  cases hstep with
  | pruneDrop hp | prunedExhausted hp =>
    exact iff_of_false (by simp) fun h => absurd (h.1.symm.trans hp) (by simp)
  | duplicate hp hd => exact iff_of_true rfl ⟨hp, hd⟩
  | regression hp hd | keep hp hd =>
    exact iff_of_false (by simp) fun h => absurd (h.2.symm.trans hd) (by simp)

theorem route_of_step
    (hstep : ChildStep parent (parentScore s parent) (scoredChild s.cellMirror dup it) rules t
      commit t') (hd : commit.disposition = .discard .duplicate) :
    commit.duplicateRoute = t.seen.get it.result.stateHash := by
  cases hstep with
  | duplicate => rfl
  | pruneDrop | prunedExhausted | regression | keep => cases hd

/-- **A duplicate is a state we hold, exactly when its twin is.** Whatever the commit state and
the batch: every child discarded as a duplicate is routed to a node with its hash if and only
if every child that is not pruned and repeats the hash of an earlier sibling has a hash the
seen map had before the batch, or one of those siblings is given a node. -/
theorem duplicates_held_iff {outcome : BatchCommitOutcome} {s' : CommitState F}
    (hs : s.Sound [])
    (hflag : ∀ it ∈ its, it.result.duplicate = s.seen.contains it.result.stateHash)
    (h : commitBatch parent (scoredChildren s.cellMirror [] its) rules s = .ok outcome s') :
    (∀ (i : Nat) (it : Item F) (commit : ChildCommit), its[i]? = some it →
      outcome.childCommits[i]? = some commit → commit.disposition = .discard .duplicate →
      ∃ id, commit.duplicateRoute = some id ∧ s'.Names id it.result.stateHash) ↔
    ∀ (i : Nat) (it : Item F), its[i]? = some it → it.prune = false →
      (∃ j ∈ its.take i, j.result.stateHash = it.result.stateHash) →
      s.seen.contains it.result.stateHash = true ∨
        Held rules parent s (its.take i) it.result.stateHash := by
  obtain ⟨record, s₁, tree, hrecord, hsteps, -, -, hex⟩ := commitBatch_ok h
  have hscore : record.payload.score.get = parentScore s parent := by
    rw [parentScore, hrecord]
  rw [hscore] at hsteps
  have hsound : s'.Sound [] := (commitBatch_sound parent _ rules).ok hs h
  have hturn := fun {i : Nat} {it : Item F} (hi : its[i]? = some it) =>
    Passed.nil.turn (by simp) hsteps hi
  simp only [List.nil_append] at hturn
  constructor
  · intro hall i it hi hprune htwin
    obtain ⟨commit, u, u', dup, hcommit, hpassed, hdup, hstep, -⟩ := hturn hi
    have hd := (duplicate_of_step hstep).mpr ⟨hprune, .inr (hdup.mpr htwin)⟩
    obtain ⟨id, hid, -⟩ := hall i it commit hi hcommit hd
    rw [route_of_step hstep hd] at hid
    exact (hpassed.seen _).mp ((SeenMap.contains_iff _ _).mpr ⟨id, hid⟩)
  · intro hheld i it commit hi hcommit hd
    obtain ⟨commit', u, u', dup, hcommit', hpassed, hdup, hstep, hkeeps⟩ := hturn hi
    obtain rfl : commit = commit' := Option.some.inj (hcommit.symm.trans hcommit')
    obtain ⟨hprune, hflags⟩ := (duplicate_of_step hstep).mp hd
    have hseen : u.seen.contains it.result.stateHash = true := by
      rw [hpassed.seen]
      rcases hflags with hscorer | hsibling
      · exact .inl (hflag it (List.mem_of_getElem? hi) ▸ hscorer)
      · exact hheld i it hi hprune (hdup.mp hsibling)
    obtain ⟨id, hid⟩ := (SeenMap.contains_iff _ _).mp hseen
    refine ⟨id, (route_of_step hstep hd).trans hid, hsound.seen _ _ ?_⟩
    rw [hex.seen]
    exact hkeeps _ _ hid

/-- Two captures of one state in cell 0, with the same score. -/
def twins (score : Int) : List (Item Int) :=
  let capture : Capture := ⟨1, none, 0, 0, 0, none⟩
  let result : ScoreResult Int :=
    { error := none, progressScore := .ofInt score, noveltyScore := .ofInt 0, stateHash := 7
      goalHit := false, duplicate := false, stage := 0, prune := false, decoded := []
      cellKey := 0 }
  [⟨⟨0, .ok, ⟨0, [], 0, 0⟩, some capture, []⟩, capture, result⟩,
    ⟨⟨1, .ok, ⟨1, [], 0, 1⟩, some capture, []⟩, capture, result⟩]

/-- A search at its root, which has score 10 and is in cell 0. -/
def rootOnly : CommitState Int := .fromRoot (.ofInt 0 10 0 100)

def keepRules : CommitRules Int := ⟨.exhausted, 0, 64, 8⟩

theorem twins_flagged (score : Int) : ∀ it ∈ twins score,
    it.result.duplicate = rootOnly.seen.contains it.result.stateHash := by
  have hseen : rootOnly.seen.contains 7 = false := by decide +kernel
  intro it hit
  simp only [twins, List.mem_cons, List.not_mem_nil, or_false] at hit
  rcases hit with rfl | rfl <;> exact hseen.symm

/-- The first twin scores worse than the root and is discarded as a regression. The second is
discarded as a duplicate, and no node has their hash. -/
theorem regression_hides_sibling :
    rootOnly.Sound [] ∧
    (∀ it ∈ twins 1, it.result.duplicate = rootOnly.seen.contains it.result.stateHash) ∧
    ∃ outcome s', commitBatch 0 (scoredChildren rootOnly.cellMirror [] (twins 1)) keepRules
        rootOnly = .ok outcome s' ∧
      outcome.childCommits =
        [⟨.discard .regression, none, none⟩, ⟨.discard .duplicate, none, none⟩] ∧
      ∀ id, ¬ s'.Names id 7 := by
  obtain ⟨outcome, s', h, hp⟩ := exists_of_succeedsWith
    (r := commitBatch 0 (scoredChildren rootOnly.cellMirror [] (twins 1)) keepRules rootOnly)
    (p := fun o s' => decide (o.childCommits =
        [⟨.discard .regression, none, none⟩, ⟨.discard .duplicate, none, none⟩]) &&
      s'.tree.images.all (·.stateHash != 7)) (by decide +kernel)
  rw [Bool.and_eq_true, decide_eq_true_iff, List.all_eq_true] at hp
  refine ⟨CommitState.fromRoot_sound _, twins_flagged 1, outcome, s', h, hp.1,
    fun id ⟨image, himage, hhash⟩ => ?_⟩
  exact absurd hhash (bne_iff_ne.mp (hp.2 image (List.mem_of_getElem? himage)))

/-- The first of two better twins is kept. -/
theorem twins_held : Held keepRules 0 rootOnly ((twins 12).take 1) 7 := by
  refine ⟨[], _, [], rfl, rfl, (commits_of_not_prune rfl).mpr ⟨rfl, by simp, fun hworse => ?_⟩⟩
  exact absurd hworse.1 (by decide +kernel)

/-- With a better score the second twin is routed to the first. -/
theorem duplicates_held_iff_keptTwin :
    ∃ outcome s', commitBatch 0 (scoredChildren rootOnly.cellMirror [] (twins 12)) keepRules
        rootOnly = .ok outcome s' ∧
      outcome.childCommits[1]? = some ⟨.discard .duplicate, none, some 1⟩ ∧ s'.Names 1 7 := by
  obtain ⟨outcome, s', h, hp⟩ := exists_of_succeedsWith
    (r := commitBatch 0 (scoredChildren rootOnly.cellMirror [] (twins 12)) keepRules rootOnly)
    (p := fun o _ => decide (o.childCommits[1]? =
      some (⟨.discard .duplicate, none, some 1⟩ : ChildCommit))) (by decide +kernel)
  rw [decide_eq_true_iff] at hp
  have hheld : ∀ (i : Nat) (it : Item Int), (twins 12)[i]? = some it → it.prune = false →
      (∃ j ∈ (twins 12).take i, j.result.stateHash = it.result.stateHash) →
      rootOnly.seen.contains it.result.stateHash = true ∨
        Held keepRules 0 rootOnly ((twins 12).take i) it.result.stateHash := by
    intro i it hi _ htwin
    match i with
    | 0 => simp at htwin
    | 1 =>
      cases hi
      exact .inr twins_held
    | i + 2 => cases hi
  obtain ⟨id, hid, hnames⟩ := (duplicates_held_iff (CommitState.fromRoot_sound _)
    (twins_flagged 12) h).mpr hheld 1 _ _ rfl hp rfl
  cases hid
  exact ⟨outcome, s', h, hp, hnames⟩

end Orchestrator.Server
