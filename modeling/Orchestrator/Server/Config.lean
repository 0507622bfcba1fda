import Orchestrator.Core.Config
import Orchestrator.Lib.Codec

/-! # Server — Config

The conversions between the wire message and the core configuration, and the configuration
hash. A zero or empty wire field takes its documented default, except where the presence of
its submessage decides.

`effectiveConfig_toWire_eq_iff` says which core configurations survive the way through the
wire format: exactly those in which no field holds the value that stands for unset. Every
effective configuration is one of them, so the hash of its encoding identifies it; a
configuration that `validate_all` accepts need not be.
-/

namespace Orchestrator.Server.Config

open Lib
open Core (PruneAction OnGoal SchedMode)
open Core.Policy (PolicyKind)
open Core.Config
open ConfigFloat (isZero)

/-! ### The wire messages -/

namespace Wire

structure Budgets where
  maxNodes : Nat := 0
  maxWallClockS : Nat := 0
  maxGuestInstructions : Nat := 0
  maxExpansions : Nat := 0

section

variable (F : Type) [OfScientific F]

structure StagedConfig where
  inner : Int := 0
  epsilonRegress : F := 0.0

structure SelectionConfig where
  policy : Int := 0
  alpha : F := 0.0
  beta : F := 0.0
  gamma : F := 0.0
  delta : F := 0.0
  temperature : F := 0.0
  ucbC : F := 0.0
  staged : Option (StagedConfig F) := none
  maxVisitsPerNode : Nat := 0
  exhaustAfterDupExpansions : Nat := 0

structure BurstConfig where
  kPerExpansion : Nat := 0
  baseBurstLenFrames : Nat := 0
  maxBurstLenFrames : Nat := 0
  maxGuestInstructionsPerJob : Nat := 0

structure LadderConfig where
  burstLenFactor : F := 0.0
  tempFactor : F := 0.0
  macroWeightHot : F := 0.0
  backtrackKappa : F := 0.0
  backtrackDepthQuantile : F := 0.0
  radiusFactor : F := 0.0
  maxLevel : Nat := 0

structure PlateauConfig where
  windowN : Nat := 0
  epsilonS : F := 0.0
  ladder : Option (LadderConfig F) := none

structure SchedulingConfig where
  mode : Int := 0
  maxInflightBatches : Nat := 0
  jobTimeoutS : Nat := 0
  retryMax : Nat := 0
  retryBackoffMs : Nat := 0
  hypervisorEndpoints : List String := []
  allowClassMismatch : Bool := false

structure CheckpointConfig where
  everyCommits : Nat := 0
  everySeconds : Nat := 0

/-- A message as it arrives: an unset scalar reads as zero or empty, an unset submessage is
absent, and an enumeration is the number that was sent. -/
structure ExperimentConfig where
  version : Nat := 0
  seed : Nat := 0
  workloadImageRef : String := ""
  featureMapRef : String := ""
  scoringProgramRef : String := ""
  synthConfigRef : String := ""
  macroPackRefs : List String := []
  budgets : Option Budgets := none
  selection : Option (SelectionConfig F) := none
  burst : Option BurstConfig := none
  plateau : Option (PlateauConfig F) := none
  scheduling : Option SchedulingConfig := none
  checkpoint : Option CheckpointConfig := none
  pruneAction : Int := 0
  onGoal : Int := 0
  decodedFeatures : List String := []

end

/-- The generated enumerations. -/
structure Proto where
  policyKind : Enumeration PolicyKind Int
  schedMode : Enumeration SchedMode Int
  pruneAction : Enumeration PruneAction Int
  onGoal : Enumeration OnGoal Int

end Wire

variable {F : Type} [ConfigFloat F]

/-! ### Materialising a message -/

def orDefaultU32 (value default : Nat) : Nat :=
  if value = 0 then default else value

def orDefaultF64 (value default : F) : F :=
  if isZero value then default else value

/-- A value keeps itself exactly when it is not the one that stands for unset. -/
theorem orDefaultU32_eq_self {value default : Nat} (hd : default ≠ 0) :
    orDefaultU32 value default = value ↔ value ≠ 0 := by
  unfold orDefaultU32
  split <;> omega

theorem orDefaultF64_eq_self {value default : F} (hd : isZero default = false) :
    orDefaultF64 value default = value ↔ isZero value = false := by
  unfold orDefaultF64
  cases hv : isZero value with
  | true =>
    simp only [if_true, Bool.true_eq_false, iff_false]
    rintro rfl
    simp [hd] at hv
  | false => simp

theorem orDefaultU32_ne_zero {value default : Nat} (hd : default ≠ 0) :
    orDefaultU32 value default ≠ 0 := by
  unfold orDefaultU32
  split <;> assumption

theorem orDefaultF64_isZero {value default : F} (hd : isZero default = false) :
    isZero (orDefaultF64 value default) = false := by
  unfold orDefaultF64
  split
  · exact hd
  · simp_all

variable (proto : Wire.Proto)

/-- An unknown number reads as softmax. -/
def policyKind (value : Int) : PolicyKind :=
  match proto.policyKind.tryFrom value with
  | some .ucb => .ucb
  | some .staged => .staged
  | _ => .softmax

@[simp] theorem policyKind_number (k : PolicyKind) :
    policyKind proto (proto.policyKind.number k) = k := by
  rw [policyKind, Enumeration.tryFrom_number]
  cases k <;> rfl

/-- The presence of the submessage says that the budgets were configured, so an explicit zero
is honoured on every axis. -/
def effectiveBudgets (budgets : Option Wire.Budgets) : Budgets where
  maxNodes := match budgets with
    | none => Budgets.default.maxNodes
    | some b => b.maxNodes
  maxWallClockS := match budgets with
    | none => Budgets.default.maxWallClockS
    | some b => b.maxWallClockS
  maxGuestInstructions := (budgets.getD {}).maxGuestInstructions
  maxExpansions := (budgets.getD {}).maxExpansions

def effectiveSelection (config : Option (Wire.SelectionConfig F)) : SelectionConfig F :=
  let selection := config.getD {}
  let staged := selection.staged.getD {}
  let defaults : SelectionConfig F := SelectionConfig.default
  { policy := policyKind proto selection.policy
    alpha := orDefaultF64 selection.alpha defaults.alpha
    beta := orDefaultF64 selection.beta defaults.beta
    gamma := orDefaultF64 selection.gamma defaults.gamma
    delta := orDefaultF64 selection.delta defaults.delta
    temperature := orDefaultF64 selection.temperature defaults.temperature
    ucbC := orDefaultF64 selection.ucbC defaults.ucbC
    staged :=
      { inner := policyKind proto staged.inner
        epsilonRegress := orDefaultF64 staged.epsilonRegress defaults.staged.epsilonRegress }
    maxVisitsPerNode := orDefaultU32 selection.maxVisitsPerNode defaults.maxVisitsPerNode
    exhaustAfterDupExpansions :=
      orDefaultU32 selection.exhaustAfterDupExpansions defaults.exhaustAfterDupExpansions }

def effectiveBurst (config : Option Wire.BurstConfig) : BurstConfig :=
  let burst := config.getD {}
  let defaults := BurstConfig.default
  { kPerExpansion := orDefaultU32 burst.kPerExpansion defaults.kPerExpansion
    baseBurstLenFrames := orDefaultU32 burst.baseBurstLenFrames defaults.baseBurstLenFrames
    maxBurstLenFrames := orDefaultU32 burst.maxBurstLenFrames defaults.maxBurstLenFrames
    maxGuestInstructionsPerJob := burst.maxGuestInstructionsPerJob }

def effectiveLadder (config : Option (Wire.LadderConfig F)) : LadderConfig F :=
  let ladder := config.getD {}
  let defaults : LadderConfig F := PlateauConfig.default.ladder
  { burstLenFactor := orDefaultF64 ladder.burstLenFactor defaults.burstLenFactor
    tempFactor := orDefaultF64 ladder.tempFactor defaults.tempFactor
    macroWeightHot := orDefaultF64 ladder.macroWeightHot defaults.macroWeightHot
    backtrackKappa := orDefaultF64 ladder.backtrackKappa defaults.backtrackKappa
    backtrackDepthQuantile :=
      orDefaultF64 ladder.backtrackDepthQuantile defaults.backtrackDepthQuantile
    radiusFactor := orDefaultF64 ladder.radiusFactor defaults.radiusFactor
    maxLevel := match config with
      | none => defaults.maxLevel
      | some l => l.maxLevel }

def effectivePlateau (config : Option (Wire.PlateauConfig F)) : PlateauConfig F :=
  let plateau := config.getD {}
  let defaults : PlateauConfig F := PlateauConfig.default
  { windowN := orDefaultU32 plateau.windowN defaults.windowN
    epsilonS := orDefaultF64 plateau.epsilonS defaults.epsilonS
    ladder := effectiveLadder plateau.ladder }

/-- Deterministic mode coerces the number of batches in flight to one. -/
def effectiveScheduling (config : Option Wire.SchedulingConfig) : SchedulingConfig :=
  let scheduling := config.getD {}
  let defaults := SchedulingConfig.default
  let mode : SchedMode := match proto.schedMode.tryFrom scheduling.mode with
    | some .deterministic => .deterministic
    | _ => .fast
  { mode := mode
    maxInflightBatches :=
      if mode = .deterministic then 1
      else orDefaultU32 scheduling.maxInflightBatches defaults.maxInflightBatches
    jobTimeoutS := orDefaultU32 scheduling.jobTimeoutS defaults.jobTimeoutS
    retryMax := orDefaultU32 scheduling.retryMax defaults.retryMax
    retryBackoffMs := orDefaultU32 scheduling.retryBackoffMs defaults.retryBackoffMs
    hypervisorEndpoints := scheduling.hypervisorEndpoints
    allowClassMismatch := scheduling.allowClassMismatch }

def effectiveCheckpoint (config : Option Wire.CheckpointConfig) : CheckpointConfig :=
  let checkpoint := config.getD {}
  let defaults := CheckpointConfig.default
  { everyCommits := orDefaultU32 checkpoint.everyCommits defaults.everyCommits
    everySeconds := orDefaultU32 checkpoint.everySeconds defaults.everySeconds }

/-- `effective_config` -/
def effectiveConfig (config : Wire.ExperimentConfig F) : ExperimentConfig F where
  version := config.version
  seed := config.seed
  workloadImageRef := config.workloadImageRef
  featureMapRef := config.featureMapRef
  scoringProgramRef := config.scoringProgramRef
  synthConfigRef := config.synthConfigRef
  macroPackRefs := config.macroPackRefs
  budgets := effectiveBudgets config.budgets
  selection := effectiveSelection proto config.selection
  burst := effectiveBurst config.burst
  plateau := effectivePlateau config.plateau
  scheduling := effectiveScheduling proto config.scheduling
  checkpoint := effectiveCheckpoint config.checkpoint
  pruneAction := match proto.pruneAction.tryFrom config.pruneAction with
    | some .drop => .drop
    | _ => .exhausted
  onGoal := match proto.onGoal.tryFrom config.onGoal with
    | some .continue => .continue
    | _ => .stop
  decodedFeatures := config.decodedFeatures

/-! ### Encoding a configuration -/

def selectionToWire (c : SelectionConfig F) : Wire.SelectionConfig F where
  policy := proto.policyKind.number c.policy
  alpha := c.alpha
  beta := c.beta
  gamma := c.gamma
  delta := c.delta
  temperature := c.temperature
  ucbC := c.ucbC
  staged := some
    { inner := proto.policyKind.number c.staged.inner
      epsilonRegress := c.staged.epsilonRegress }
  maxVisitsPerNode := c.maxVisitsPerNode
  exhaustAfterDupExpansions := c.exhaustAfterDupExpansions

def plateauToWire (c : PlateauConfig F) : Wire.PlateauConfig F where
  windowN := c.windowN
  epsilonS := c.epsilonS
  ladder := some
    { burstLenFactor := c.ladder.burstLenFactor
      tempFactor := c.ladder.tempFactor
      macroWeightHot := c.ladder.macroWeightHot
      backtrackKappa := c.ladder.backtrackKappa
      backtrackDepthQuantile := c.ladder.backtrackDepthQuantile
      radiusFactor := c.ladder.radiusFactor
      maxLevel := c.ladder.maxLevel }

def schedulingToWire (c : SchedulingConfig) : Wire.SchedulingConfig where
  mode := proto.schedMode.number c.mode
  maxInflightBatches := c.maxInflightBatches
  jobTimeoutS := c.jobTimeoutS
  retryMax := c.retryMax
  retryBackoffMs := c.retryBackoffMs
  hypervisorEndpoints := c.hypervisorEndpoints
  allowClassMismatch := c.allowClassMismatch

/-- `to_wire` -/
def toWire (c : ExperimentConfig F) : Wire.ExperimentConfig F where
  version := c.version
  seed := c.seed
  workloadImageRef := c.workloadImageRef
  featureMapRef := c.featureMapRef
  scoringProgramRef := c.scoringProgramRef
  synthConfigRef := c.synthConfigRef
  macroPackRefs := c.macroPackRefs
  budgets := some
    { maxNodes := c.budgets.maxNodes
      maxWallClockS := c.budgets.maxWallClockS
      maxGuestInstructions := c.budgets.maxGuestInstructions
      maxExpansions := c.budgets.maxExpansions }
  selection := some (selectionToWire proto c.selection)
  burst := some
    { kPerExpansion := c.burst.kPerExpansion
      baseBurstLenFrames := c.burst.baseBurstLenFrames
      maxBurstLenFrames := c.burst.maxBurstLenFrames
      maxGuestInstructionsPerJob := c.burst.maxGuestInstructionsPerJob }
  plateau := some (plateauToWire c.plateau)
  scheduling := some (schedulingToWire proto c.scheduling)
  checkpoint := some
    { everyCommits := c.checkpoint.everyCommits
      everySeconds := c.checkpoint.everySeconds }
  pruneAction := proto.pruneAction.number c.pruneAction
  onGoal := proto.onGoal.number c.onGoal
  decodedFeatures := c.decodedFeatures

/-! ### What survives the wire -/

variable {proto : Wire.Proto}

/-- No field of a selection holds the value that stands for unset. -/
structure SelectionSet (c : SelectionConfig F) : Prop where
  alpha : isZero c.alpha = false
  beta : isZero c.beta = false
  gamma : isZero c.gamma = false
  delta : isZero c.delta = false
  temperature : isZero c.temperature = false
  ucbC : isZero c.ucbC = false
  epsilonRegress : isZero c.staged.epsilonRegress = false
  maxVisits : c.maxVisitsPerNode ≠ 0
  exhaustAfter : c.exhaustAfterDupExpansions ≠ 0

structure BurstSet (c : BurstConfig) : Prop where
  kPerExpansion : c.kPerExpansion ≠ 0
  baseBurstLen : c.baseBurstLenFrames ≠ 0
  maxBurstLen : c.maxBurstLenFrames ≠ 0

structure PlateauSet (c : PlateauConfig F) : Prop where
  windowN : c.windowN ≠ 0
  epsilonS : isZero c.epsilonS = false
  burstLenFactor : isZero c.ladder.burstLenFactor = false
  tempFactor : isZero c.ladder.tempFactor = false
  macroWeightHot : isZero c.ladder.macroWeightHot = false
  backtrackKappa : isZero c.ladder.backtrackKappa = false
  depthQuantile : isZero c.ladder.backtrackDepthQuantile = false
  radiusFactor : isZero c.ladder.radiusFactor = false

/-- In deterministic mode the number of batches in flight is one, whatever was sent. -/
structure SchedulingSet (c : SchedulingConfig) : Prop where
  inflight : c.mode = .deterministic → c.maxInflightBatches = 1
  inflightSet : c.maxInflightBatches ≠ 0
  jobTimeout : c.jobTimeoutS ≠ 0
  retryMax : c.retryMax ≠ 0
  retryBackoff : c.retryBackoffMs ≠ 0

structure CheckpointSet (c : CheckpointConfig) : Prop where
  everyCommits : c.everyCommits ≠ 0
  everySeconds : c.everySeconds ≠ 0

/-- The wire format can express the configuration. -/
structure Expressible (c : ExperimentConfig F) : Prop where
  selection : SelectionSet c.selection
  burst : BurstSet c.burst
  plateau : PlateauSet c.plateau
  scheduling : SchedulingSet c.scheduling
  checkpoint : CheckpointSet c.checkpoint

/-- A default is never the value that stands for unset. -/
theorem selectionSet_default : SelectionSet (SelectionConfig.default (F := F)) := by
  constructor
  case maxVisits => simp [SelectionConfig.default]
  case exhaustAfter => simp [SelectionConfig.default]
  all_goals
    exact ConfigFloat.isZero_literal _
      (by simp [SelectionConfig.default, StagedConfig.default])

theorem plateauSet_default : PlateauSet (PlateauConfig.default (F := F)) := by
  constructor
  case windowN => simp [PlateauConfig.default]
  all_goals
    exact ConfigFloat.isZero_literal _
      (by simp [PlateauConfig.default, LadderConfig.default])

theorem effectiveSelection_toWire (c : SelectionConfig F) :
    effectiveSelection proto (some (selectionToWire proto c)) = c ↔ SelectionSet c := by
  have hd : SelectionSet (SelectionConfig.default (F := F)) := selectionSet_default
  rcases c with ⟨policy, alpha, beta, gamma, delta, temperature, ucbC, ⟨inner, eps⟩, visits, dup⟩
  simp only [effectiveSelection, selectionToWire, Option.getD_some, policyKind_number,
    SelectionConfig.mk.injEq, StagedConfig.mk.injEq, true_and,
    orDefaultF64_eq_self hd.alpha, orDefaultF64_eq_self hd.beta, orDefaultF64_eq_self hd.gamma,
    orDefaultF64_eq_self hd.delta, orDefaultF64_eq_self hd.temperature,
    orDefaultF64_eq_self hd.ucbC, orDefaultF64_eq_self hd.epsilonRegress,
    orDefaultU32_eq_self hd.maxVisits, orDefaultU32_eq_self hd.exhaustAfter]
  exact ⟨fun ⟨ha, hb, hg, hδ, ht, hu, he, hv, hx⟩ => ⟨ha, hb, hg, hδ, ht, hu, he, hv, hx⟩,
    fun ⟨ha, hb, hg, hδ, ht, hu, he, hv, hx⟩ => ⟨ha, hb, hg, hδ, ht, hu, he, hv, hx⟩⟩

theorem effectiveBurst_toWire (c : BurstConfig) :
    effectiveBurst (some ⟨c.kPerExpansion, c.baseBurstLenFrames, c.maxBurstLenFrames,
      c.maxGuestInstructionsPerJob⟩) = c ↔ BurstSet c := by
  rcases c with ⟨k, base, most, guest⟩
  have hk : BurstConfig.default.kPerExpansion ≠ 0 := by decide
  have hbase : BurstConfig.default.baseBurstLenFrames ≠ 0 := by decide
  have hmost : BurstConfig.default.maxBurstLenFrames ≠ 0 := by decide
  simp only [effectiveBurst, Option.getD_some, BurstConfig.mk.injEq, and_true,
    orDefaultU32_eq_self hk, orDefaultU32_eq_self hbase, orDefaultU32_eq_self hmost]
  exact ⟨fun ⟨h₁, h₂, h₃⟩ => ⟨h₁, h₂, h₃⟩, fun ⟨h₁, h₂, h₃⟩ => ⟨h₁, h₂, h₃⟩⟩

theorem effectivePlateau_toWire (c : PlateauConfig F) :
    effectivePlateau (some (plateauToWire c)) = c ↔ PlateauSet c := by
  have hd : PlateauSet (PlateauConfig.default (F := F)) := plateauSet_default
  rcases c with ⟨window, eps, ⟨burst, temp, hot, kappa, quantile, radius, level⟩⟩
  simp only [effectivePlateau, effectiveLadder, plateauToWire, Option.getD_some,
    PlateauConfig.mk.injEq, LadderConfig.mk.injEq, and_true,
    orDefaultU32_eq_self hd.windowN, orDefaultF64_eq_self hd.epsilonS,
    orDefaultF64_eq_self hd.burstLenFactor, orDefaultF64_eq_self hd.tempFactor,
    orDefaultF64_eq_self hd.macroWeightHot, orDefaultF64_eq_self hd.backtrackKappa,
    orDefaultF64_eq_self hd.depthQuantile, orDefaultF64_eq_self hd.radiusFactor]
  exact ⟨fun ⟨hw, he, hb, ht, hh, hk, hq, hr⟩ => ⟨hw, he, hb, ht, hh, hk, hq, hr⟩,
    fun ⟨hw, he, hb, ht, hh, hk, hq, hr⟩ => ⟨hw, he, hb, ht, hh, hk, hq, hr⟩⟩

theorem effectiveScheduling_toWire (c : SchedulingConfig) :
    effectiveScheduling proto (some (schedulingToWire proto c)) = c ↔ SchedulingSet c := by
  rcases c with ⟨mode, inflight, timeout, retry, backoff, endpoints, allow⟩
  have hinflight : SchedulingConfig.default.maxInflightBatches ≠ 0 := by decide
  have htimeout : SchedulingConfig.default.jobTimeoutS ≠ 0 := by decide
  have hretry : SchedulingConfig.default.retryMax ≠ 0 := by decide
  have hbackoff : SchedulingConfig.default.retryBackoffMs ≠ 0 := by decide
  cases mode with
  | fast =>
    simp only [effectiveScheduling, schedulingToWire, Option.getD_some,
      Enumeration.tryFrom_number, SchedulingConfig.mk.injEq, reduceCtorEq, if_false, true_and,
      and_true, orDefaultU32_eq_self hinflight, orDefaultU32_eq_self htimeout,
      orDefaultU32_eq_self hretry, orDefaultU32_eq_self hbackoff]
    exact ⟨fun ⟨h₁, h₂, h₃, h₄⟩ => ⟨nofun, h₁, h₂, h₃, h₄⟩,
      fun ⟨_, h₁, h₂, h₃, h₄⟩ => ⟨h₁, h₂, h₃, h₄⟩⟩
  | deterministic =>
    simp only [effectiveScheduling, schedulingToWire, Option.getD_some,
      Enumeration.tryFrom_number, SchedulingConfig.mk.injEq, if_true, true_and, and_true,
      orDefaultU32_eq_self htimeout, orDefaultU32_eq_self hretry,
      orDefaultU32_eq_self hbackoff]
    exact ⟨fun ⟨h₁, h₂, h₃, h₄⟩ => ⟨fun _ => h₁.symm, h₁ ▸ Nat.one_ne_zero, h₂, h₃, h₄⟩,
      fun ⟨h₁, _, h₂, h₃, h₄⟩ => ⟨(h₁ rfl).symm, h₂, h₃, h₄⟩⟩

theorem effectiveCheckpoint_toWire (c : CheckpointConfig) :
    effectiveCheckpoint (some ⟨c.everyCommits, c.everySeconds⟩) = c ↔ CheckpointSet c := by
  rcases c with ⟨commits, seconds⟩
  have hcommits : CheckpointConfig.default.everyCommits ≠ 0 := by decide
  have hseconds : CheckpointConfig.default.everySeconds ≠ 0 := by decide
  simp only [effectiveCheckpoint, Option.getD_some, CheckpointConfig.mk.injEq,
    orDefaultU32_eq_self hcommits, orDefaultU32_eq_self hseconds]
  exact ⟨fun ⟨h₁, h₂⟩ => ⟨h₁, h₂⟩, fun ⟨h₁, h₂⟩ => ⟨h₁, h₂⟩⟩

/-- A configuration comes back from the wire as it was exactly when the wire can express it. -/
theorem effectiveConfig_toWire_eq_iff (c : ExperimentConfig F) :
    effectiveConfig proto (toWire proto c) = c ↔ Expressible c := by
  have hprune : ∀ a, (match proto.pruneAction.tryFrom (proto.pruneAction.number a) with
      | some .drop => PruneAction.drop
      | _ => .exhausted) = a := by
    intro a
    rw [Enumeration.tryFrom_number]
    cases a <;> rfl
  have hgoal : ∀ g, (match proto.onGoal.tryFrom (proto.onGoal.number g) with
      | some .continue => OnGoal.continue
      | _ => .stop) = g := by
    intro g
    rw [Enumeration.tryFrom_number]
    cases g <;> rfl
  rcases c with ⟨version, seed, image, map, program, synth, packs, budgets, selection, burst,
    plateau, scheduling, checkpoint, prune, goal, decoded⟩
  simp only [effectiveConfig, toWire, ExperimentConfig.mk.injEq, effectiveBudgets,
    Option.getD_some, true_and, and_true, effectiveSelection_toWire, effectiveBurst_toWire,
    effectivePlateau_toWire, effectiveScheduling_toWire, effectiveCheckpoint_toWire]
  constructor
  · rintro ⟨hs, hb, hp, hsch, hc, -, -⟩
    exact ⟨hs, hb, hp, hsch, hc⟩
  · rintro ⟨hs, hb, hp, hsch, hc⟩
    exact ⟨hs, hb, hp, hsch, hc, hprune prune, hgoal goal⟩

/-! ### The hash of an effective configuration -/

/-- Materialising leaves no field unset. -/
theorem expressible_effectiveConfig (w : Wire.ExperimentConfig F) :
    Expressible (effectiveConfig proto w) := by
  have hd : SelectionSet (SelectionConfig.default (F := F)) := selectionSet_default
  have hp : PlateauSet (PlateauConfig.default (F := F)) := plateauSet_default
  refine ⟨?_, ?_, ?_, ?_, ?_⟩
  · exact ⟨orDefaultF64_isZero hd.alpha, orDefaultF64_isZero hd.beta,
      orDefaultF64_isZero hd.gamma, orDefaultF64_isZero hd.delta,
      orDefaultF64_isZero hd.temperature, orDefaultF64_isZero hd.ucbC,
      orDefaultF64_isZero hd.epsilonRegress, orDefaultU32_ne_zero hd.maxVisits,
      orDefaultU32_ne_zero hd.exhaustAfter⟩
  · exact ⟨orDefaultU32_ne_zero (by decide), orDefaultU32_ne_zero (by decide),
      orDefaultU32_ne_zero (by decide)⟩
  · exact ⟨orDefaultU32_ne_zero hp.windowN, orDefaultF64_isZero hp.epsilonS,
      orDefaultF64_isZero hp.burstLenFactor, orDefaultF64_isZero hp.tempFactor,
      orDefaultF64_isZero hp.macroWeightHot, orDefaultF64_isZero hp.backtrackKappa,
      orDefaultF64_isZero hp.depthQuantile, orDefaultF64_isZero hp.radiusFactor⟩
  · refine ⟨fun hmode => if_pos hmode, ?_, orDefaultU32_ne_zero (by decide),
      orDefaultU32_ne_zero (by decide), orDefaultU32_ne_zero (by decide)⟩
    -- One in deterministic mode, the number sent or its default otherwise.
    change (ite _ _ _ : Nat) ≠ 0
    split
    · exact Nat.one_ne_zero
    · exact orDefaultU32_ne_zero (by decide)
  · exact ⟨orDefaultU32_ne_zero (by decide), orDefaultU32_ne_zero (by decide)⟩

theorem effectiveConfig_fixpoint (w : Wire.ExperimentConfig F) :
    effectiveConfig proto (toWire proto (effectiveConfig proto w)) = effectiveConfig proto w :=
  (effectiveConfig_toWire_eq_iff _).mpr (expressible_effectiveConfig w)

/-- `config_hash`, over an encoding of the wire message and a digest of the bytes. -/
def configHash {B D : Type} (proto : Wire.Proto) (encode : Wire.ExperimentConfig F → B)
    (blake3 : B → D) (c : ExperimentConfig F) : D :=
  blake3 (encode (toWire proto c))

/-- The unknown enumeration values, which materialising would hide. -/
def validateSparseWireConfig (proto : Wire.Proto) (config : Wire.ExperimentConfig F) :
    List ConfigError :=
  [rejectIf (config.selection.any fun s => (proto.policyKind.tryFrom s.policy).isNone)
     (.unknownEnumValue "selection.policy"),
   rejectIf (config.selection.any fun s => s.staged.any fun g =>
     (proto.policyKind.tryFrom g.inner).isNone)
     (.unknownEnumValue "selection.staged.inner"),
   rejectIf (config.scheduling.any fun s => (proto.schedMode.tryFrom s.mode).isNone)
     (.unknownEnumValue "scheduling.mode"),
   rejectIf (proto.pruneAction.tryFrom config.pruneAction).isNone
     (.unknownEnumValue "prune_action"),
   rejectIf (proto.onGoal.tryFrom config.onGoal).isNone (.unknownEnumValue "on_goal")].reduceOption

/-- `validated_effective_config` -/
def validatedEffectiveConfig (proto : Wire.Proto) (config : Wire.ExperimentConfig F) :
    Except (List ConfigError) (ExperimentConfig F) :=
  let effective := effectiveConfig proto config
  let errors := validateSparseWireConfig proto config ++ effective.validateAll
  if errors = [] then .ok effective else .error errors

theorem validatedEffectiveConfig_eq_ok {w : Wire.ExperimentConfig F} {c : ExperimentConfig F} :
    validatedEffectiveConfig proto w = .ok c ↔
      validateSparseWireConfig proto w = [] ∧ c.validateAll = [] ∧ c = effectiveConfig proto w := by
  unfold validatedEffectiveConfig
  by_cases h : validateSparseWireConfig proto w ++ (effectiveConfig proto w).validateAll = []
  · rw [if_pos h]
    rw [List.append_eq_nil_iff] at h
    simp only [Except.ok.injEq]
    constructor
    · rintro rfl
      exact ⟨h.1, h.2, rfl⟩
    · exact fun hc => hc.2.2.symm
  · rw [if_neg h]
    simp only [reduceCtorEq, false_iff]
    rintro ⟨hsparse, hall, rfl⟩
    exact h (by rw [hsparse, hall, List.append_nil])

/-- An encoded configuration names no unknown enumeration value. -/
@[simp] theorem validateSparseWireConfig_toWire (c : ExperimentConfig F) :
    validateSparseWireConfig proto (toWire proto c) = [] := by
  simp [validateSparseWireConfig, toWire, selectionToWire, schedulingToWire, rejectIf,
    List.reduceOption]

/-- `CHECKPOINT_VERSION` -/
def checkpointVersion : Nat := 1

/-- What `decode_checkpoint` verifies of a decoded checkpoint. -/
structure CheckpointHeader (D : Type) where
  version : Nat
  experimentId : String
  configHash : D

inductive CheckpointError where
  | mismatch (message : String)
deriving DecidableEq, Repr

/-- The checks of `decode_checkpoint` on the header. -/
def verifyHeader {D : Type} [DecidableEq D] (checkpoint : CheckpointHeader D)
    (expectedExperimentId : String) (expectedConfigHash : D) : Except CheckpointError Unit :=
  if checkpoint.version ≠ checkpointVersion then
    .error (.mismatch ("checkpoint version " ++ toString checkpoint.version ++
      " != supported " ++ toString checkpointVersion))
  else if checkpoint.experimentId ≠ expectedExperimentId then
    .error (.mismatch ("checkpoint experiment '" ++ checkpoint.experimentId ++
      "' != requested '" ++ expectedExperimentId ++ "'"))
  else if checkpoint.configHash ≠ expectedConfigHash then
    .error (.mismatch "checkpoint config_hash does not match the supplied config")
  else .ok ()

/-- The header of the checkpoints that a runner started from a configuration writes. -/
def runnerHeader {B D : Type} (proto : Wire.Proto) (encode : Wire.ExperimentConfig F → B)
    (blake3 : B → D) (experimentId : String) (c : ExperimentConfig F) : CheckpointHeader D :=
  ⟨checkpointVersion, experimentId, configHash proto encode blake3 c⟩

/-- **The configuration hash identifies the effective configuration**: materialising is a
fixpoint of the way through the wire, two messages hash alike exactly when they mean the same,
unless the digest takes their two encodings for one, and a start from a runner's own encoded
configuration passes the check of its checkpoint. -/
theorem configHash_identifies {B D : Type} [DecidableEq D] (proto : Wire.Proto)
    (encode : Wire.ExperimentConfig F → B) (blake3 : B → D)
    (hencode : Function.Injective encode) :
    (∀ w : Wire.ExperimentConfig F,
      effectiveConfig proto (toWire proto (effectiveConfig proto w)) = effectiveConfig proto w) ∧
    (∀ w₁ w₂ : Wire.ExperimentConfig F,
      Set.InjOn blake3 {encode (toWire proto (effectiveConfig proto w₁)),
        encode (toWire proto (effectiveConfig proto w₂))} →
      (configHash proto encode blake3 (effectiveConfig proto w₁) =
          configHash proto encode blake3 (effectiveConfig proto w₂) ↔
        effectiveConfig proto w₁ = effectiveConfig proto w₂)) ∧
    (∀ (w : Wire.ExperimentConfig F) (experimentId : String) (c : ExperimentConfig F),
      validatedEffectiveConfig proto w = .ok c →
      ∃ c', validatedEffectiveConfig proto (toWire proto c) = .ok c' ∧
        verifyHeader (runnerHeader proto encode blake3 experimentId c) experimentId
          (configHash proto encode blake3 c') = .ok ()) := by
  refine ⟨effectiveConfig_fixpoint, fun w₁ w₂ hblake3 => ⟨fun h => ?_, fun h => by rw [h]⟩, ?_⟩
  · have hwire : toWire proto (effectiveConfig proto w₁) =
        toWire proto (effectiveConfig proto w₂) :=
      hencode (hblake3 (.inl rfl) (.inr rfl) h)
    rw [← effectiveConfig_fixpoint w₁, hwire, effectiveConfig_fixpoint]
  · intro w experimentId c hc
    obtain ⟨-, hall, rfl⟩ := validatedEffectiveConfig_eq_ok.mp hc
    refine ⟨effectiveConfig proto w, validatedEffectiveConfig_eq_ok.mpr ⟨?_, hall, ?_⟩, ?_⟩
    · exact validateSparseWireConfig_toWire _
    · exact (effectiveConfig_fixpoint w).symm
    · simp [verifyHeader, runnerHeader]

/-- Every enumeration numbered in the order of its declaration. -/
def declarationOrder : Wire.Proto where
  policyKind :=
    { values := [.softmax, .ucb, .staged], mem_values := by rintro ⟨⟩ <;> decide
      number := fun | .softmax => 0 | .ucb => 1 | .staged => 2
      injective := by rintro ⟨⟩ ⟨⟩ h <;> first | rfl | exact absurd h (by decide) }
  schedMode :=
    { values := [.fast, .deterministic], mem_values := by rintro ⟨⟩ <;> decide
      number := fun | .fast => 0 | .deterministic => 1
      injective := by rintro ⟨⟩ ⟨⟩ h <;> first | rfl | exact absurd h (by decide) }
  pruneAction :=
    { values := [.exhausted, .drop], mem_values := by rintro ⟨⟩ <;> decide
      number := fun | .exhausted => 0 | .drop => 1
      injective := by rintro ⟨⟩ ⟨⟩ h <;> first | rfl | exact absurd h (by decide) }
  onGoal :=
    { values := [.stop, .continue], mem_values := by rintro ⟨⟩ <;> decide
      number := fun | .stop => 0 | .continue => 1
      injective := by rintro ⟨⟩ ⟨⟩ h <;> first | rfl | exact absurd h (by decide) }

/-- A message that sets nothing but the references and asks for deterministic scheduling. -/
def sparseMessage (seed : Nat) : Wire.ExperimentConfig Rat :=
  { version := 1, seed, workloadImageRef := "w", featureMapRef := "f",
    scoringProgramRef := "s", synthConfigRef := "y",
    scheduling := some { mode := 1, maxInflightBatches := 4 } }

/-- A digest that keeps only the seed tells two seeds apart, and the restart of a run is
accepted. -/
theorem configHash_identifies_sparseMessage :
    configHash declarationOrder id (·.seed) (effectiveConfig declarationOrder (sparseMessage 42)) ≠
      configHash declarationOrder id (·.seed)
        (effectiveConfig declarationOrder (sparseMessage 43)) ∧
    ∃ c c', validatedEffectiveConfig declarationOrder (sparseMessage 42) = .ok c ∧
      validatedEffectiveConfig declarationOrder (toWire declarationOrder c) = .ok c' ∧
      verifyHeader (runnerHeader declarationOrder id (·.seed) "e" c) "e"
        (configHash declarationOrder id (·.seed) c') = .ok () := by
  have hidentifies := configHash_identifies (F := Rat) declarationOrder id
    (·.seed) Function.injective_id
  constructor
  · have hdigest : Set.InjOn (fun w : Wire.ExperimentConfig Rat => w.seed)
        {id (toWire declarationOrder (effectiveConfig declarationOrder (sparseMessage 42))),
          id (toWire declarationOrder (effectiveConfig declarationOrder (sparseMessage 43)))} := by
      rintro _ (rfl | rfl) _ (rfl | rfl) h
      · rfl
      · exact absurd h (by decide)
      · exact absurd h (by decide)
      · rfl
    rw [Ne, hidentifies.2.1 _ _ hdigest]
    exact fun h => absurd (congrArg ExperimentConfig.seed h) (by decide)
  · obtain ⟨c, hc⟩ := exists_of_isOk
      (x := validatedEffectiveConfig declarationOrder (sparseMessage 42)) (by decide +kernel)
    obtain ⟨c', hc', hheader⟩ := hidentifies.2.2 _ "e" c hc
    exact ⟨c, c', hc, hc', hheader⟩

/-! ### Validated settings -/

/-- **Which validated settings survive**: among the accepted configurations whose five
disclosed knobs are set, those come back unchanged in which six further settings are non-zero,
although the validator accepts a zero in each of them. -/
theorem validated_survives_iff (proto : Wire.Proto) (c : ExperimentConfig F)
    (hvalid : c.validateAll = [])
    (hbeta : isZero c.selection.beta = false) (hgamma : isZero c.selection.gamma = false)
    (hdelta : isZero c.selection.delta = false)
    (hkappa : isZero c.plateau.ladder.backtrackKappa = false)
    (hhot : isZero c.plateau.ladder.macroWeightHot = false) :
    effectiveConfig proto (toWire proto c) = c ↔
      isZero c.selection.alpha = false ∧ isZero c.selection.ucbC = false ∧
      isZero c.selection.staged.epsilonRegress = false ∧
      isZero c.plateau.ladder.backtrackDepthQuantile = false ∧
      c.scheduling.retryMax ≠ 0 ∧ c.scheduling.retryBackoffMs ≠ 0 := by
  have hr := ExperimentConfig.ranges_of_validateAll hvalid
  rw [effectiveConfig_toWire_eq_iff]
  constructor
  · intro h
    exact ⟨h.selection.alpha, h.selection.ucbC, h.selection.epsilonRegress,
      h.plateau.depthQuantile, h.scheduling.retryMax, h.scheduling.retryBackoff⟩
  · rintro ⟨halpha, hucb, heps, hquantile, hretry, hbackoff⟩
    exact
      { selection := ⟨halpha, hbeta, hgamma, hdelta, hr.temperature, hucb, heps, hr.maxVisits,
          hr.exhaustAfter⟩
        burst := ⟨hr.kPerExpansion, hr.baseBurstLen, hr.maxBurstLen⟩
        plateau := ⟨hr.windowN, hr.epsilonS, hr.burstLenFactor, hr.tempFactor, hhot, hkappa,
          hquantile, hr.radiusFactor⟩
        scheduling := ⟨hr.inflight, hr.inflightFast, hr.jobTimeout, hretry, hbackoff⟩
        checkpoint := ⟨hr.everyCommits, hr.everySeconds⟩ }

/-- The documented defaults for a workload, with the number of retries given. -/
def retrying (retryMax : Nat) : ExperimentConfig Rat :=
  let c : ExperimentConfig Rat := ExperimentConfig.new 42 "w" "f" "s" "y"
  { c with scheduling := { c.scheduling with retryMax := retryMax } }

/-- **A retry limit of zero is accepted and replaced**: the configuration passes validation
with every disclosed knob set, and comes back from the wire with three retries. -/
theorem retryMax_zero_replaced :
    (retrying 0).validateAll = [] ∧
    isZero (retrying 0).selection.beta = false ∧ isZero (retrying 0).selection.gamma = false ∧
    isZero (retrying 0).selection.delta = false ∧
    isZero (retrying 0).plateau.ladder.backtrackKappa = false ∧
    isZero (retrying 0).plateau.ladder.macroWeightHot = false ∧
    (effectiveConfig declarationOrder (toWire declarationOrder
      (retrying 0))).scheduling.retryMax = 3 ∧
    effectiveConfig declarationOrder (toWire declarationOrder (retrying 0)) ≠ retrying 0 := by
  refine ⟨by decide +kernel, by decide +kernel, by decide +kernel, by decide +kernel,
    by decide +kernel, by decide +kernel, rfl, fun h => ?_⟩
  have hretry := congrArg (fun c => c.scheduling.retryMax) h
  exact absurd hretry (by decide)

theorem validated_survives_iff_retrying :
    effectiveConfig declarationOrder (toWire declarationOrder (retrying 5)) = retrying 5 :=
  (validated_survives_iff declarationOrder (retrying 5) (by decide +kernel) (by decide +kernel)
    (by decide +kernel) (by decide +kernel) (by decide +kernel) (by decide +kernel)).mpr
    (by decide +kernel)

end Orchestrator.Server.Config
