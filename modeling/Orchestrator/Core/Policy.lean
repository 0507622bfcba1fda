import Orchestrator.Core.Frontier
import Orchestrator.Core.Mirror
import Orchestrator.Lib.StateError

/-! # Core — Policy

The selection policies: how candidates are scored, and how softmax, UCB and the staged policy
take one of them. The value UCB ranks by is a parameter, with the formula of the code as one
instance. No law of the float operations is assumed.

A draw of the random generator is a number of a stream, and a selection leaves the rest of it
(`Drawing`). What it comes to is its `Drawing.outcome`.
-/

namespace Orchestrator.Core

open Lib

/-- The float operations of the policies. -/
class PolicyFloat (F : Type) extends Float64 F, Mul F, Div F where
  ofNat : Nat → F
  le : F → F → Bool
  /-- `==`, which is not equality on zeros and on NaN -/
  same : F → F → Bool
  log : F → F
  sqrt : F → F
  exp : F → F
  abs : F → F
  min : F → F → F
  max : F → F → F
  /-- `floor` followed by a cast to `usize` -/
  floor : F → Nat
  infinity : F
  negInfinity : F
  /-- `ARGMAX_TEMPERATURE` -/
  argmaxTemperature : F

/-- Integers stand in for the floats where a selection is evaluated. -/
instance : PolicyFloat Int where
  ofNat := fun n => n
  le := fun a b => a ≤ b
  same := fun a b => a = b
  log := id
  sqrt := id
  exp := id
  abs := fun a => a.natAbs
  min := fun a b => if a ≤ b then a else b
  max := fun a b => if a ≤ b then b else a
  floor := Int.toNat
  infinity := 10 ^ 9
  negInfinity := -10 ^ 9
  argmaxTemperature := 0

namespace Policy

open PolicyFloat (ofNat le same log sqrt exp)

inductive PolicyKind where
  | softmax | ucb | staged
deriving DecidableEq, Repr

section

variable (F : Type) [Float64 F]

inductive PolicyError where
  | frontier (e : FrontierError)
  | emptyCandidateSet
  | invalidConfig (field : String)
  | invalidWeight (field : String) (value : F)
  | nonFiniteValue (field : String) (value : F)

structure BacktrackKnobs where
  kappa : F
  depthQuantile : F

/-- `SelectionConfig`, with the fields of `StagedConfig`. -/
structure SelectionConfig where
  policy : PolicyKind
  alpha : F
  beta : F
  gamma : F
  delta : F
  temperature : F
  ucbC : F
  inner : PolicyKind
  epsilonRegress : F
  maxVisitsPerNode : Nat
  exhaustAfterDupExpansions : Nat

structure PriorityTerms where
  normalizedScore : F
  novelty : F
  visitPenalty : F
  depthPenalty : F

structure Candidate where
  id : NodeId
  parent : Option NodeId
  depth : Nat
  visits : Nat
  children : Nat
  cell : CellKey
  stage : Nat
  rawScore : F
  priorityTerms : PriorityTerms F
  priority : F

/-- `PolicyContext`. -/
structure Context where
  tree : Tree F
  frontier : Frontier
  mirror : CellMirror
  selection : SelectionConfig F
  backtrack : Option (BacktrackKnobs F)

/-- The draws of a `DeterministicRng` and how many were made. -/
structure Rng where
  draw : Nat → F
  draws : Nat

/-- What UCB ranks by: a function of the priority, the visits, the expansions and the
exploration constant. -/
abbrev UcbValue := F → Nat → Nat → F → Except (PolicyError F) F

end

structure SelectionChoice where
  selected : NodeId
  candidateIndex : Nat
deriving DecidableEq, Repr

variable {F : Type} [PolicyFloat F]

/-- `next_unit_f64`. -/
def Rng.nextUnit (rng : Rng F) : F × Rng F := (rng.draw rng.draws, ⟨rng.draw, rng.draws + 1⟩)

def ensureFinite (field : String) (value : F) : Except (PolicyError F) Unit :=
  refuseIf (Float64.isFinite value = false) (.nonFiniteValue field value)

/-! ### Candidates -/

def ensureNonNegativeWeight (field : String) (value : F) : Except (PolicyError F) Unit :=
  refuseIf (Float64.isFinite value = false ∨ value < 0) (.invalidWeight field value)

/-- Outside of the unit interval, or not finite. -/
def outsideUnit (value : F) : Bool :=
  !Float64.isFinite value || !(le 0 value && le value (ofNat 1))

/-- `validate_selection_weights`. -/
def validateSelectionWeights (s : SelectionConfig F) : Except (PolicyError F) Unit := do
  ensureNonNegativeWeight "selection.alpha" s.alpha
  ensureNonNegativeWeight "selection.beta" s.beta
  ensureNonNegativeWeight "selection.gamma" s.gamma
  ensureNonNegativeWeight "selection.delta" s.delta
  ensureNonNegativeWeight "selection.ucb_c" s.ucbC
  refuseIf (Float64.isFinite s.temperature = false ∨ le s.temperature 0 = true)
    (.invalidWeight "selection.temperature" s.temperature)
  refuseIf (outsideUnit s.epsilonRegress = true)
    (.invalidWeight "selection.staged.epsilon_regress" s.epsilonRegress)
  refuseIf (s.maxVisitsPerNode = 0) (.invalidConfig "selection.max_visits_per_node")
  refuseIf (s.exhaustAfterDupExpansions = 0)
    (.invalidConfig "selection.exhaust_after_dup_expansions")
  refuseIf (s.policy = .staged ∧ s.inner = .staged) (.invalidConfig "selection.staged.inner")

/-- Every value is finite. -/
def allFinite (field : String) : List F → Except (PolicyError F) Unit
  | [] => .ok ()
  | value :: rest => do
    ensureFinite field value
    allFinite field rest

/-- Every value under a function, as long as the results are finite. -/
def mapFinite (field : String) (f : F → F) : List F → Except (PolicyError F) (List F)
  | [] => .ok []
  | value :: rest => do
    ensureFinite field (f value)
    let others ← mapFinite field f rest
    pure (f value :: others)

/-- `normalize_scores_with_scale`. -/
def normalizeScoresWithScale (scores : List F) (min max : F) : Except (PolicyError F) (List F) := do
  let scale := PolicyFloat.max (PolicyFloat.abs min) (PolicyFloat.abs max)
  ensureFinite "score.scale" scale
  if same scale 0 then pure (scores.map fun _ => 0)
  else do
    let scaledMin := min / scale
    let span := max / scale - scaledMin
    ensureFinite "score.span" span
    if same span 0 then pure (scores.map fun _ => 0)
    else mapFinite "score.normalized" (fun score => (score / scale - scaledMin) / span) scores

/-- `normalize_scores`. -/
def normalizeScores (scores : List F) : Except (PolicyError F) (List F) :=
  match scores with
  | [] => .ok []
  | _ => do
    allFinite "score" scores
    let min := scores.foldl PolicyFloat.min PolicyFloat.infinity
    let max := scores.foldl PolicyFloat.max PolicyFloat.negInfinity
    let span := max - min
    if same span 0 then pure (scores.map fun _ => 0)
    else if Float64.isFinite span = false then normalizeScoresWithScale scores min max
    else mapFinite "score.normalized" (fun score => (score - min) / span) scores

/-- `visit_penalty` and `depth_penalty`. -/
def penalty (field : String) (count : Nat) : Except (PolicyError F) F := do
  let penalty : F := log (ofNat 1 + ofNat count)
  ensureFinite field penalty
  pure penalty

/-- `weighted_priority`. -/
def weightedPriority (s : SelectionConfig F) (t : PriorityTerms F) : Except (PolicyError F) F := do
  validateSelectionWeights s
  ensureFinite "priority.normalized_score" t.normalizedScore
  ensureFinite "priority.novelty" t.novelty
  ensureFinite "priority.visit_penalty" t.visitPenalty
  ensureFinite "priority.depth_penalty" t.depthPenalty
  let priority := s.alpha * t.normalizedScore + s.beta * t.novelty - s.gamma * t.visitPenalty
    - s.delta * t.depthPenalty
  ensureFinite "priority.weighted" priority
  pure priority

/-- The bonus weight of L3 and the greatest depth that gets it. -/
def backtrackCutoff (depths : List Nat) (knobs : BacktrackKnobs F) : F × Nat :=
  let q := knobs.depthQuantile
  let quantile := if q < 0 then 0 else if (ofNat 1 : F) < q then ofNat 1 else q
  let rank := PolicyFloat.floor (ofNat (depths.length - 1) * quantile)
  (knobs.kappa, (depths.insertionSort (· ≤ ·))[rank]?.getD 0)

/-- The priority of a candidate with the bonus, if it gets one. -/
def withBacktrack (cutoff : Option (F × Nat)) (depth : Nat) (novelty priority : F) :
    Except (PolicyError F) F :=
  match cutoff with
  | some (kappa, cutoffDepth) =>
    if depth ≤ cutoffDepth then do
      ensureFinite "priority.backtrack" (priority + kappa * novelty)
      pure (priority + kappa * novelty)
    else .ok priority
  | none => .ok priority

/-- A candidate with its priority. -/
def candidate (ctx : Context F) (cutoff : Option (F × Nat)) (id : NodeId) (record : NodeRecord F)
    (normalizedScore : F) : Except (PolicyError F) (Candidate F) := do
  let novelty : F := ctx.mirror.novelty record.payload.cell
  ensureFinite "candidate.novelty" novelty
  let visitPenalty ← penalty "priority.visit_penalty" record.visits
  let depthPenalty ← penalty "priority.depth_penalty" record.depth
  let terms : PriorityTerms F := ⟨normalizedScore, novelty, visitPenalty, depthPenalty⟩
  let weighted ← weightedPriority ctx.selection terms
  let priority ← withBacktrack cutoff record.depth novelty weighted
  pure
    { id, parent := record.parent, depth := record.depth, visits := record.visits
      children := record.children, cell := record.payload.cell, stage := record.payload.stage
      rawScore := record.payload.score.get, priorityTerms := terms, priority }

/-- The candidates, each with its normalized score. -/
def candidates (ctx : Context F) (cutoff : Option (F × Nat)) :
    List ((NodeId × NodeRecord F) × F) → Except (PolicyError F) (List (Candidate F))
  | [] => .ok []
  | ((id, record), score) :: rest => do
    let first ← candidate ctx cutoff id record score
    let others ← candidates ctx cutoff rest
    pure (first :: others)

/-- `candidate_snapshots`. The frontier's candidates are nodes of the tree. -/
def candidateSnapshots (ctx : Context F) : Except (PolicyError F) (List (Candidate F)) := do
  validateSelectionWeights ctx.selection
  let ids ← (ctx.frontier.deterministicCandidates ctx.tree).mapError .frontier
  refuseIf (ids = []) .emptyCandidateSet
  let records := ids.filterMap fun id => (ctx.tree.get id).map (id, ·)
  let scores ← normalizeScores (records.map (·.2.payload.score.get))
  let cutoff := ctx.backtrack.map (backtrackCutoff (records.map (·.2.depth)))
  candidates ctx cutoff (records.zip scores)

/-! ### The stream -/

/-- A computation with a `DeterministicRng`. A draw made before an error is made. -/
abbrev Drawing (F : Type) [PolicyFloat F] := EStateM (PolicyError F) (Rng F)

namespace Drawing

variable {α β : Type}

/-- A computation that draws nothing. -/
def lift (x : Except (PolicyError F) α) : Drawing F α := fun rng =>
  match x with
  | .ok a => .ok a rng
  | .error e => .error e rng

/-- `next_unit_f64`. -/
def nextUnit : Drawing F F := fun rng => .ok rng.nextUnit.1 rng.nextUnit.2

/-- What a computation comes to, whatever it leaves of the stream. -/
def outcome (x : Drawing F α) (rng : Rng F) : Except (PolicyError F) α :=
  match x rng with
  | .ok a _ => .ok a
  | .error e _ => .error e

variable {a : α}

variable {rng : Rng F} {x : Except (PolicyError F) α}

theorem of_outcome {x : Drawing F α} (h : x.outcome rng = .ok a) : ∃ rng', x rng = .ok a rng' := by
  unfold outcome at h
  split at h
  · rename_i rng' hx
    cases h
    exact ⟨rng', hx⟩
  · cases h

theorem of_lift {rng' : Rng F} (h : lift x rng = .ok a rng') : x = .ok a := by
  cases x <;> cases h
  rfl

@[simp] theorem outcome_lift (x : Except (PolicyError F) α) (rng : Rng F) :
    (lift x).outcome rng = x := by
  cases x <;> rfl

theorem outcome_bind (h : x = .ok a) (f : α → Drawing F β) (rng : Rng F) :
    (lift x >>= f).outcome rng = (f a).outcome rng := by
  rw [h]
  rfl

end Drawing

/-! ### Softmax -/

/-- `argmax_choice`, from the best candidate so far on. -/
def argmaxFrom (best : Nat × Candidate F) (index : Nat) : List (Candidate F) → SelectionChoice
  | [] => ⟨best.2.id, best.1⟩
  | c :: rest =>
    argmaxFrom (if best.2.priority < c.priority then (index, c) else best) (index + 1) rest

/-- The weights and their running sum. -/
def softmaxWeights (maxPriority temperature : F) (total : F) :
    List (Candidate F) → Except (PolicyError F) (List F × F)
  | [] => .ok ([], total)
  | c :: rest => do
    let weight := exp ((c.priority - maxPriority) / temperature)
    ensureFinite "softmax.weight" weight
    ensureFinite "softmax.total_weight" (total + weight)
    let (weights, sum) ← softmaxWeights maxPriority temperature (total + weight) rest
    pure (weight :: weights, sum)

/-- The walk along the weights, up to the target or to the last candidate. -/
def softmaxWalk (target : F) (sum : F) (index : Nat) : List (Candidate F × F) → SelectionChoice
  | [] => ⟨0, 0⟩
  | (c, weight) :: rest =>
    if target < sum + weight ∨ rest = [] then ⟨c.id, index⟩
    else softmaxWalk target (sum + weight) (index + 1) rest

/-- `softmax::select_from_candidates`. -/
def softmaxSelect (cs : List (Candidate F)) (temperature : F) : Drawing F SelectionChoice := do
  Drawing.lift (refuseIf (Float64.isFinite temperature = false ∨ le temperature 0 = true)
    (.invalidWeight "selection.temperature" temperature))
  match cs with
  | [] => throw .emptyCandidateSet
  | first :: rest => do
    Drawing.lift (allFinite "candidate.priority" (cs.map (·.priority)))
    if le temperature PolicyFloat.argmaxTemperature then pure (argmaxFrom (0, first) 1 rest)
    else do
      let maxPriority := (cs.map (·.priority)).foldl PolicyFloat.max PolicyFloat.negInfinity
      let (weights, total) ← Drawing.lift (softmaxWeights maxPriority temperature 0 cs)
      Drawing.lift (refuseIf (le total 0 = true) (.nonFiniteValue "softmax.total_weight" total))
      let u ← Drawing.nextUnit
      pure (softmaxWalk (u * total) 0 0 (cs.zip weights))

/-! ### UCB -/

/-- `ucb_value`. -/
def ucbValue : UcbValue F := fun priority visits totalExpansions ucbC => do
  refuseIf (Float64.isFinite ucbC = false ∨ ucbC < 0) (.invalidWeight "selection.ucb_c" ucbC)
  ensureFinite "candidate.priority" priority
  let exploration := ucbC * sqrt (log (ofNat (Nat.max totalExpansions 2)) / ofNat (visits + 1))
  ensureFinite "ucb.exploration" exploration
  ensureFinite "ucb.value" (priority + exploration)
  pure (priority + exploration)

/-- `ucb::select_from_candidates`, from the best candidate so far on. -/
def ucbFrom (value : UcbValue F) (total : Nat) (ucbC : F) (best : Nat × Candidate F × F)
    (index : Nat) : List (Candidate F) → Except (PolicyError F) SelectionChoice
  | [] => .ok ⟨best.2.1.id, best.1⟩
  | c :: rest => do
    let v ← value c.priority c.visits total ucbC
    ucbFrom value total ucbC
      (if best.2.2 < v ∨ same v best.2.2 = true ∧ c.id < best.2.1.id then (index, c, v) else best)
      (index + 1) rest

/-- `ucb::select_from_candidates`. -/
def ucbSelect (value : UcbValue F) (cs : List (Candidate F)) (total : Nat) (ucbC : F) :
    Except (PolicyError F) SelectionChoice :=
  match cs with
  | [] => .error .emptyCandidateSet
  | first :: rest => do
    let v ← value first.priority first.visits total ucbC
    ucbFrom value total ucbC (0, first, v) 1 rest

/-! ### Staged -/

/-- `target_stage_from_tree`. -/
def targetStageFromTree (tree : Tree F) : Except (PolicyError F) Nat :=
  match tree.records.map (·.payload.stage) with
  | [] => .error .emptyCandidateSet
  | stage :: rest => .ok (rest.foldl Nat.max stage)

/-- `partition_candidates`: the candidates of the target stage and the others, with their
positions. -/
def partitionCandidates (cs : List (Candidate F)) (targetStage : Nat) :
    List (Candidate F × Nat) × List (Candidate F × Nat) :=
  cs.zipIdx.partition fun entry => entry.1.stage = targetStage

/-- `dispatch_inner`. -/
def dispatchInner (value : UcbValue F) (s : SelectionConfig F) (cs : List (Candidate F))
    (total : Nat) : Drawing F SelectionChoice :=
  match s.inner with
  | .softmax => softmaxSelect cs s.temperature
  | .ucb => Drawing.lift (ucbSelect value cs total s.ucbC)
  | .staged => throw (.invalidConfig "selection.staged.inner")

/-- The choice of the inner policy, by its position among all candidates. -/
def stagedPick (value : UcbValue F) (s : SelectionConfig F) (entries : List (Candidate F × Nat))
    (total : Nat) : Drawing F SelectionChoice := do
  let choice ← dispatchInner value s (entries.map (·.1)) total
  match entries[choice.candidateIndex]? with
  | some original => pure ⟨choice.selected, original.2⟩
  | none => throw .emptyCandidateSet

/-- `staged::select_from_candidates`. -/
def stagedSelect (value : UcbValue F) (s : SelectionConfig F) (cs : List (Candidate F))
    (targetStage total : Nat) : Drawing F SelectionChoice := do
  Drawing.lift (refuseIf (s.inner = .staged) (.invalidConfig "selection.staged.inner"))
  Drawing.lift (refuseIf (outsideUnit s.epsilonRegress = true)
    (.invalidWeight "selection.staged.epsilon_regress" s.epsilonRegress))
  let (leading, regress) := partitionCandidates cs targetStage
  let u ← Drawing.nextUnit
  match decide (u < s.epsilonRegress), regress.isEmpty, leading.isEmpty with
  | true, false, _ => stagedPick value s regress total
  | true, true, false => stagedPick value s leading total
  | false, _, false => stagedPick value s leading total
  | false, false, true => stagedPick value s regress total
  | _, true, true => throw .emptyCandidateSet

/-! ### What a choice is -/

section

variable {value : UcbValue F} {cs : List (Candidate F)} {total : Nat} {ucbC : F}
  {choice : SelectionChoice}

theorem ucbFrom_ok {best : Nat × Candidate F × F} {index : Nat}
    (h : ucbFrom value total ucbC best index cs = .ok choice) :
    choice = ⟨best.2.1.id, best.1⟩ ∨
      ∃ i c, cs[i]? = some c ∧ choice = ⟨c.id, index + i⟩ := by
  induction cs generalizing best index with
  | nil =>
    cases h
    exact .inl rfl
  | cons c rest ih =>
    obtain ⟨v, -, hrest⟩ := bind_eq_ok.mp h
    rcases ih hrest with rfl | ⟨i, c', hc', rfl⟩
    · split
      · exact .inr ⟨0, c, rfl, rfl⟩
      · exact .inl rfl
    · exact .inr ⟨i + 1, c', hc', by rw [Nat.add_assoc, Nat.add_comm 1 i]⟩

/-- A choice names one of the candidates, at its position. -/
def SelectionChoice.Picks (choice : SelectionChoice) (cs : List (Candidate F)) : Prop :=
  ∃ c, cs[choice.candidateIndex]? = some c ∧ c.id = choice.selected

theorem ucbSelect_ok (h : ucbSelect value cs total ucbC = .ok choice) : choice.Picks cs := by
  cases cs with
  | nil => cases h
  | cons first rest =>
    obtain ⟨v, -, hrest⟩ := bind_eq_ok.mp h
    rcases ucbFrom_ok hrest with rfl | ⟨i, c, hc, rfl⟩
    · exact ⟨first, rfl, rfl⟩
    · exact ⟨c, by rw [Nat.add_comm]; exact hc, rfl⟩

theorem argmaxFrom_eq (best : Nat × Candidate F) (index : Nat) (cs : List (Candidate F)) :
    argmaxFrom best index cs = ⟨best.2.id, best.1⟩ ∨
      ∃ i c, cs[i]? = some c ∧ argmaxFrom best index cs = ⟨c.id, index + i⟩ := by
  induction cs generalizing best index with
  | nil => exact .inl rfl
  | cons c rest ih =>
    unfold argmaxFrom
    rcases ih (if best.2.priority < c.priority then (index, c) else best) (index + 1) with
      h | ⟨i, c', hc', h⟩
    · rw [h]
      split
      · exact .inr ⟨0, c, rfl, rfl⟩
      · exact .inl rfl
    · exact .inr ⟨i + 1, c', hc', by rw [h, Nat.add_assoc, Nat.add_comm 1 i]⟩

theorem softmaxWalk_eq (target sum : F) (index : Nat) {entries : List (Candidate F × F)}
    (hne : entries ≠ []) :
    ∃ i c, (entries.map (·.1))[i]? = some c ∧
      softmaxWalk target sum index entries = ⟨c.id, index + i⟩ := by
  induction entries generalizing sum index with
  | nil => exact absurd rfl hne
  | cons entry rest ih =>
    obtain ⟨c, weight⟩ := entry
    unfold softmaxWalk
    split
    · exact ⟨0, c, rfl, rfl⟩
    · rename_i hgo
      obtain ⟨i, c', hc', h⟩ := ih (sum + weight) (index + 1) fun hnil => hgo (.inr hnil)
      exact ⟨i + 1, c', hc', by rw [h, Nat.add_assoc, Nat.add_comm 1 i]⟩

variable {temperature : F} {ctx : Context F}

theorem softmaxWeights_length {maxPriority acc sum : F} {weights : List F}
    (h : softmaxWeights maxPriority temperature acc cs = .ok (weights, sum)) :
    weights.length = cs.length := by
  induction cs generalizing acc weights with
  | nil =>
    cases h
    rfl
  | cons c rest ih =>
    simp only [softmaxWeights, bind_eq_ok] at h
    obtain ⟨_, -, _, -, ⟨others, sum'⟩, hrest, h⟩ := h
    cases h
    simp [ih hrest]

variable {s : SelectionConfig F} {targetStage : Nat} {rng rng' : Rng F}

theorem softmaxSelect_ok (h : softmaxSelect cs temperature rng = .ok choice rng') :
    choice.Picks cs := by
  obtain ⟨_, _, -, h⟩ := bind_ok h
  cases cs with
  | nil => cases h
  | cons first rest =>
    obtain ⟨_, _, -, h⟩ := bind_ok h
    split at h
    · cases h
      rcases argmaxFrom_eq (0, first) 1 rest with h | ⟨i, c, hc, h⟩
      · rw [h]
        exact ⟨first, rfl, rfl⟩
      · rw [h]
        exact ⟨c, by rw [Nat.add_comm]; exact hc, rfl⟩
    · obtain ⟨⟨weights, total⟩, _, hweights, h⟩ := bind_ok h
      obtain ⟨_, _, -, h⟩ := bind_ok h
      obtain ⟨u, _, -, h⟩ := bind_ok h
      cases h
      have hlength := softmaxWeights_length (Drawing.of_lift hweights)
      have hne : (first :: rest).zip weights ≠ [] := by
        cases weights with
        | nil => cases hlength
        | cons w ws => simp
      obtain ⟨i, c, hc, h⟩ := softmaxWalk_eq (u * total) 0 0 hne
      rw [List.map_fst_zip hlength.ge] at hc
      rw [h]
      exact ⟨c, by rw [Nat.zero_add]; exact hc, rfl⟩

theorem dispatchInner_ok (h : dispatchInner value s cs total rng = .ok choice rng') :
    choice.Picks cs := by
  cases hi : s.inner <;> simp only [dispatchInner, hi] at h
  · exact softmaxSelect_ok h
  · exact ucbSelect_ok (Drawing.of_lift h)
  · cases h

/-- The position the staged policy reports is the one among all candidates. -/
theorem stagedPick_ok {entries : List (Candidate F × Nat)}
    (h : stagedPick value s entries total rng = .ok choice rng')
    (hentries : ∀ e ∈ entries, cs[e.2]? = some e.1) : choice.Picks cs := by
  obtain ⟨inner, _, hinner, h⟩ := bind_ok h
  obtain ⟨c, hc, hid⟩ := dispatchInner_ok hinner
  obtain ⟨e, he, rfl⟩ := List.getElem?_map.symm.trans hc |> Option.map_eq_some_iff.mp
  rw [he] at h
  cases h
  exact ⟨e.1, hentries e (List.mem_of_getElem? he), hid⟩

theorem stagedSelect_ok (h : stagedSelect value s cs targetStage total rng = .ok choice rng') :
    choice.Picks cs := by
  have hleading : ∀ e ∈ (partitionCandidates cs targetStage).1, cs[e.2]? = some e.1 := by
    intro e he
    rw [partitionCandidates, List.partition_eq_filter_filter] at he
    exact List.mem_zipIdx_iff_getElem?.mp (List.mem_of_mem_filter he)
  have hregress : ∀ e ∈ (partitionCandidates cs targetStage).2, cs[e.2]? = some e.1 := by
    intro e he
    rw [partitionCandidates, List.partition_eq_filter_filter] at he
    exact List.mem_zipIdx_iff_getElem?.mp (List.mem_of_mem_filter he)
  unfold stagedSelect at h
  generalize partitionCandidates cs targetStage = parts at h hleading hregress
  obtain ⟨leading, regress⟩ := parts
  obtain ⟨_, _, -, h⟩ := bind_ok h
  obtain ⟨_, _, -, h⟩ := bind_ok h
  obtain ⟨u, _, -, h⟩ := bind_ok h
  cases hu : decide (u < s.epsilonRegress) <;> cases hr : regress.isEmpty <;>
    cases hl : leading.isEmpty <;> simp only [hu, hr, hl] at h
  all_goals first
    | exact stagedPick_ok h hregress
    | exact stagedPick_ok h hleading
    | cases h

theorem candidates_mem {cutoff : Option (F × Nat)} {entries : List ((NodeId × NodeRecord F) × F)}
    (h : candidates ctx cutoff entries = .ok cs) : ∀ c ∈ cs, ∃ e ∈ entries, e.1.1 = c.id := by
  induction entries generalizing cs with
  | nil =>
    cases h
    simp
  | cons e rest ih =>
    obtain ⟨⟨id, record⟩, score⟩ := e
    simp only [candidates, bind_eq_ok] at h
    obtain ⟨first, hfirst, others, hothers, h⟩ := h
    cases h
    intro c hc
    rcases List.mem_cons.mp hc with rfl | hc
    · refine ⟨_, List.mem_cons_self, ?_⟩
      simp only [candidate, bind_eq_ok] at hfirst
      obtain ⟨_, -, _, -, _, -, _, -, _, -, hfirst⟩ := hfirst
      cases hfirst
      rfl
    · obtain ⟨e, he, hid⟩ := ih hothers c hc
      exact ⟨e, List.mem_cons_of_mem _ he, hid⟩

/-- The candidates are those of the frontier, under valid weights. -/
theorem candidateSnapshots_ok (h : candidateSnapshots ctx = .ok cs) :
    validateSelectionWeights ctx.selection = .ok () ∧
      ∃ ids, ctx.frontier.deterministicCandidates ctx.tree = .ok ids ∧ ids ≠ [] ∧
        ∀ c ∈ cs, c.id ∈ ids := by
  simp only [candidateSnapshots, bind_eq_ok, refuseIf_eq_ok] at h
  obtain ⟨_, hweights, ids, hids, _, hne, scores, -, hcs⟩ := h
  refine ⟨hweights, ids, ?_, hne, fun c hc => ?_⟩
  · cases hd : ctx.frontier.deterministicCandidates ctx.tree with
    | error e =>
      rw [hd] at hids
      cases hids
    | ok ids' =>
      rw [hd] at hids
      cases hids
      rfl
  · obtain ⟨⟨⟨id₀, record₀⟩, score⟩, he, rfl⟩ := candidates_mem hcs c hc
    obtain ⟨id, hid', hget⟩ := List.mem_filterMap.mp (List.of_mem_zip he).1
    cases hr : ctx.tree.get id with
    | none =>
      rw [hr] at hget
      cases hget
    | some record =>
      rw [hr] at hget
      cases hget
      exact hid'

theorem stagedPick_zipIdx (hinner : s.inner = .ucb) :
    stagedPick value s cs.zipIdx total = Drawing.lift (ucbSelect value cs total s.ucbC) := by
  simp only [stagedPick, dispatchInner, hinner, List.zipIdx_map_fst]
  cases h : ucbSelect value cs total s.ucbC with
  | error e => rfl
  | ok choice =>
    obtain ⟨c, hc, -⟩ := ucbSelect_ok h
    have horiginal : cs.zipIdx[choice.candidateIndex]? = some (c, choice.candidateIndex) := by
      simp [List.getElem?_zipIdx, hc]
    change (match cs.zipIdx[choice.candidateIndex]? with
      | some original => pure ⟨choice.selected, original.2⟩
      | none => throw .emptyCandidateSet : Drawing F SelectionChoice) = _
    rw [horiginal]
    rfl

/-- **All in the leading stage.** The staged policy then does what its inner policy does. -/
theorem stagedSelect_of_leading (hinner : s.inner = .ucb)
    (hregress : outsideUnit s.epsilonRegress = false) (hstage : ∀ c ∈ cs, c.stage = targetStage) :
    (stagedSelect value s cs targetStage total).outcome rng = ucbSelect value cs total s.ucbC := by
  have hpartition : partitionCandidates cs targetStage = (cs.zipIdx, []) := by
    unfold partitionCandidates
    rw [List.partition_eq_filter_filter, List.filter_eq_self.mpr, List.filter_eq_nil_iff.mpr]
    · intro entry hentry
      simp [hstage _ (List.fst_mem_of_mem_zipIdx hentry)]
    · intro entry hentry
      simp [hstage _ (List.fst_mem_of_mem_zipIdx hentry)]
  have hstaged : stagedSelect value s cs targetStage total rng =
      Drawing.lift (ucbSelect value cs total s.ucbC) rng.nextUnit.2 := by
    unfold stagedSelect
    rw [hinner, hregress, hpartition]
    change (match decide (rng.nextUnit.1 < s.epsilonRegress), true, cs.zipIdx.isEmpty with
      | true, false, _ => _
      | true, true, false => _
      | false, _, false => _
      | false, false, true => _
      | _, true, true => _ : Drawing F SelectionChoice) rng.nextUnit.2 = _
    cases cs with
    | nil => cases decide (rng.nextUnit.1 < s.epsilonRegress) <;> rfl
    | cons first rest =>
      rw [← stagedPick_zipIdx hinner]
      cases decide (rng.nextUnit.1 < s.epsilonRegress) <;> rfl
  unfold Drawing.outcome
  rw [hstaged]
  exact Drawing.outcome_lift _ rng.nextUnit.2

end

end Policy
end Orchestrator.Core
