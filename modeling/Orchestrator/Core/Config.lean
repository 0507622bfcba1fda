import Orchestrator.Core.Policy
import Mathlib.Data.List.ReduceOption
import Mathlib.Tactic.NormNum

/-! # Core — Config

The experiment configuration with its documented defaults, and `validate_all`, which lists
every violation of it. A float is a value with a zero test, a finiteness test and the two
comparisons the validator makes; the laws assumed of them are that no default literal is zero
and that a number above zero is not.
-/

namespace Orchestrator.Core.Config

open Core (PruneAction OnGoal SchedMode)
open Core.Policy (PolicyKind)

/-- The floats of a configuration. -/
class ConfigFloat (F : Type) extends OfScientific F where
  /-- `== 0.0` -/
  isZero : F → Bool
  isFinite : F → Bool
  lt : F → F → Bool
  le : F → F → Bool
  isZero_literal : ∀ x ∈ ([0.001, 0.05, 0.1, 0.3, 0.5, 1.0, 1.4, 1.5, 1.75, 2.0] : List F),
    isZero x = false
  isZero_of_pos : ∀ x, lt 0.0 x = true → isZero x = false
  isZero_of_one_le : ∀ x, lt x 1.0 = false → isZero x = false

/-- Rationals stand in for the floats where a configuration is evaluated. -/
instance : ConfigFloat Rat where
  isZero := fun x => x = 0
  isFinite := fun _ => true
  lt := fun x y => x < y
  le := fun x y => x ≤ y
  isZero_literal := by
    intro x hx
    simp only [List.mem_cons, List.not_mem_nil, or_false] at hx
    rcases hx with rfl | rfl | rfl | rfl | rfl | rfl | rfl | rfl | rfl | rfl <;> decide +kernel
  isZero_of_pos := by
    intro x hx
    have hpos : (0.0 : Rat) < x := by simpa using hx
    norm_num at hpos
    simpa using hpos.ne'
  isZero_of_one_le := by
    intro x hx
    have hone : ¬ x < (1.0 : Rat) := by simpa using hx
    norm_num at hone
    have : x ≠ 0 := by rintro rfl; norm_num at hone
    simpa using this

/-- `EXPERIMENT_CONFIG_VERSION` -/
def experimentConfigVersion : Nat := 1

structure Budgets where
  maxNodes : Nat
  maxWallClockS : Nat
  maxGuestInstructions : Nat
  maxExpansions : Nat

def Budgets.default : Budgets where
  maxNodes := 1000000
  maxWallClockS := 86400
  maxGuestInstructions := 0
  maxExpansions := 0

section

variable (F : Type)

structure StagedConfig where
  inner : PolicyKind
  epsilonRegress : F

structure SelectionConfig where
  policy : PolicyKind
  alpha : F
  beta : F
  gamma : F
  delta : F
  temperature : F
  ucbC : F
  staged : StagedConfig F
  maxVisitsPerNode : Nat
  exhaustAfterDupExpansions : Nat

structure BurstConfig where
  kPerExpansion : Nat
  baseBurstLenFrames : Nat
  maxBurstLenFrames : Nat
  maxGuestInstructionsPerJob : Nat

structure LadderConfig where
  burstLenFactor : F
  tempFactor : F
  macroWeightHot : F
  backtrackKappa : F
  backtrackDepthQuantile : F
  radiusFactor : F
  maxLevel : Nat

structure PlateauConfig where
  windowN : Nat
  epsilonS : F
  ladder : LadderConfig F

structure SchedulingConfig where
  mode : SchedMode
  maxInflightBatches : Nat
  jobTimeoutS : Nat
  retryMax : Nat
  retryBackoffMs : Nat
  hypervisorEndpoints : List String
  allowClassMismatch : Bool

structure CheckpointConfig where
  everyCommits : Nat
  everySeconds : Nat

structure ExperimentConfig where
  version : Nat
  seed : Nat
  workloadImageRef : String
  featureMapRef : String
  scoringProgramRef : String
  synthConfigRef : String
  macroPackRefs : List String
  budgets : Budgets
  selection : SelectionConfig F
  burst : BurstConfig
  plateau : PlateauConfig F
  scheduling : SchedulingConfig
  checkpoint : CheckpointConfig
  pruneAction : PruneAction
  onGoal : OnGoal
  decodedFeatures : List String

end

/-! ### Defaults -/

section

variable {F : Type} [ConfigFloat F]

def StagedConfig.default : StagedConfig F where
  inner := .softmax
  epsilonRegress := 0.05

def SelectionConfig.default : SelectionConfig F where
  policy := .softmax
  alpha := 1.0
  beta := 0.5
  gamma := 0.3
  delta := 0.1
  temperature := 1.0
  ucbC := 1.4
  staged := StagedConfig.default
  maxVisitsPerNode := 64
  exhaustAfterDupExpansions := 8

def BurstConfig.default : BurstConfig where
  kPerExpansion := 16
  baseBurstLenFrames := 120
  maxBurstLenFrames := 600
  maxGuestInstructionsPerJob := 0

def LadderConfig.default : LadderConfig F where
  burstLenFactor := 1.5
  tempFactor := 1.75
  macroWeightHot := 0.5
  backtrackKappa := 1.0
  backtrackDepthQuantile := 0.5
  radiusFactor := 2.0
  maxLevel := 4

def PlateauConfig.default : PlateauConfig F where
  windowN := 200
  epsilonS := 0.001
  ladder := LadderConfig.default

def SchedulingConfig.default : SchedulingConfig where
  mode := .fast
  maxInflightBatches := 2
  jobTimeoutS := 120
  retryMax := 3
  retryBackoffMs := 250
  hypervisorEndpoints := []
  allowClassMismatch := false

def CheckpointConfig.default : CheckpointConfig where
  everyCommits := 64
  everySeconds := 30

/-- `ExperimentConfig::new` -/
def ExperimentConfig.new (seed : Nat)
    (workloadImageRef featureMapRef scoringProgramRef synthConfigRef : String) :
    ExperimentConfig F where
  version := experimentConfigVersion
  seed := seed
  workloadImageRef := workloadImageRef
  featureMapRef := featureMapRef
  scoringProgramRef := scoringProgramRef
  synthConfigRef := synthConfigRef
  macroPackRefs := []
  budgets := Budgets.default
  selection := SelectionConfig.default
  burst := BurstConfig.default
  plateau := PlateauConfig.default
  scheduling := SchedulingConfig.default
  checkpoint := CheckpointConfig.default
  pruneAction := .exhausted
  onGoal := .stop
  decodedFeatures := []

/-! ### Validation -/

inductive ConfigError where
  | invalidVersion (version : Nat)
  | missingRequiredField (field : String)
  | outOfRange (field : String)
  | unknownEnumValue (field : String)
  | invalidStagedInnerPolicy
  | decodedFeatureNotInFeatureMap (name : String)
deriving DecidableEq, Repr

open ConfigFloat (isZero isFinite lt le)

def finitePositive (value : F) : Bool := isFinite value && lt 0.0 value

def finiteNonNegative (value : F) : Bool := isFinite value && le 0.0 value

def finiteUnitInterval (value : F) : Bool := isFinite value && (le 0.0 value && le value 1.0)

theorem isZero_of_finitePositive {value : F} (h : finitePositive value = true) :
    isZero value = false :=
  ConfigFloat.isZero_of_pos value (Bool.and_eq_true_iff.mp h).2

/-- One check: the error it pushes when the configuration is at fault. -/
def rejectIf (bad : Bool) (error : ConfigError) : Option ConfigError :=
  if bad then some error else none

@[simp] theorem rejectIf_eq_none {bad : Bool} {error : ConfigError} :
    rejectIf bad error = none ↔ bad = false := by
  cases bad <;> simp [rejectIf]

/-- The checks of `validate_all` in the order they are made. -/
def ExperimentConfig.checks (c : ExperimentConfig F) : List (Option ConfigError) :=
  [rejectIf (c.version ≠ experimentConfigVersion) (.invalidVersion c.version),
   rejectIf (c.seed = 0) (.missingRequiredField "seed"),
   rejectIf (c.workloadImageRef.isEmpty) (.missingRequiredField "workload_image_ref"),
   rejectIf (c.featureMapRef.isEmpty) (.missingRequiredField "feature_map_ref"),
   rejectIf (c.scoringProgramRef.isEmpty) (.missingRequiredField "scoring_program_ref"),
   rejectIf (c.synthConfigRef.isEmpty) (.missingRequiredField "synth_config_ref"),
   rejectIf (¬ (1 ≤ c.burst.kPerExpansion ∧ c.burst.kPerExpansion ≤ 256))
     (.outOfRange "burst.k_per_expansion"),
   rejectIf (c.burst.maxBurstLenFrames < c.burst.baseBurstLenFrames)
     (.outOfRange "burst.base_burst_len_frames"),
   rejectIf (!finitePositive c.selection.temperature) (.outOfRange "selection.temperature"),
   rejectIf (!finiteNonNegative c.selection.alpha) (.outOfRange "selection.alpha"),
   rejectIf (!finiteNonNegative c.selection.beta) (.outOfRange "selection.beta"),
   rejectIf (!finiteNonNegative c.selection.gamma) (.outOfRange "selection.gamma"),
   rejectIf (!finiteNonNegative c.selection.delta) (.outOfRange "selection.delta"),
   rejectIf (!finiteNonNegative c.selection.ucbC) (.outOfRange "selection.ucb_c"),
   rejectIf (!finiteUnitInterval c.selection.staged.epsilonRegress)
     (.outOfRange "selection.staged.epsilon_regress"),
   rejectIf (c.selection.maxVisitsPerNode = 0) (.outOfRange "selection.max_visits_per_node"),
   rejectIf (c.selection.exhaustAfterDupExpansions = 0)
     (.outOfRange "selection.exhaust_after_dup_expansions"),
   rejectIf (c.selection.policy = .staged ∧ c.selection.staged.inner = .staged)
     (.invalidStagedInnerPolicy),
   rejectIf (c.burst.baseBurstLenFrames = 0) (.outOfRange "burst.base_burst_len_frames"),
   rejectIf (c.burst.maxBurstLenFrames = 0) (.outOfRange "burst.max_burst_len_frames"),
   rejectIf (c.plateau.windowN < 10) (.outOfRange "plateau.window_n"),
   rejectIf (!finitePositive c.plateau.epsilonS) (.outOfRange "plateau.epsilon_s"),
   rejectIf (4 < c.plateau.ladder.maxLevel) (.outOfRange "plateau.ladder.max_level"),
   rejectIf (c.scheduling.mode = .deterministic ∧ c.scheduling.maxInflightBatches ≠ 1)
     (.outOfRange "scheduling.max_inflight_batches"),
   rejectIf (c.scheduling.mode = .fast ∧ c.scheduling.maxInflightBatches = 0)
     (.outOfRange "scheduling.max_inflight_batches"),
   rejectIf (c.scheduling.jobTimeoutS = 0) (.outOfRange "scheduling.job_timeout_s"),
   rejectIf (c.checkpoint.everyCommits = 0) (.outOfRange "checkpoint.every_commits"),
   rejectIf (c.checkpoint.everySeconds = 0) (.outOfRange "checkpoint.every_seconds"),
   rejectIf (!isFinite c.plateau.ladder.burstLenFactor || lt c.plateau.ladder.burstLenFactor 1.0)
     (.outOfRange "plateau.ladder.burst_len_factor"),
   rejectIf (!isFinite c.plateau.ladder.tempFactor || lt c.plateau.ladder.tempFactor 1.0)
     (.outOfRange "plateau.ladder.temp_factor"),
   rejectIf (!isFinite c.plateau.ladder.radiusFactor || lt c.plateau.ladder.radiusFactor 1.0)
     (.outOfRange "plateau.ladder.radius_factor"),
   rejectIf (!finiteNonNegative c.plateau.ladder.macroWeightHot)
     (.outOfRange "plateau.ladder.macro_weight_hot"),
   rejectIf (!finiteNonNegative c.plateau.ladder.backtrackKappa)
     (.outOfRange "plateau.ladder.backtrack_kappa"),
   rejectIf (!finiteUnitInterval c.plateau.ladder.backtrackDepthQuantile)
     (.outOfRange "plateau.ladder.backtrack_depth_quantile")]

/-- `validate_all` -/
def ExperimentConfig.validateAll (c : ExperimentConfig F) : List ConfigError :=
  c.checks.reduceOption

theorem ExperimentConfig.validateAll_eq_nil {c : ExperimentConfig F} :
    c.validateAll = [] ↔ ∀ check ∈ c.checks, check = none := by
  simp [validateAll, List.reduceOption, List.filterMap_eq_nil_iff]

/-- What an accepted configuration says of the fields that the wire format reads as unset when
they are zero. -/
structure ExperimentConfig.Ranges (c : ExperimentConfig F) : Prop where
  temperature : isZero c.selection.temperature = false
  maxVisits : c.selection.maxVisitsPerNode ≠ 0
  exhaustAfter : c.selection.exhaustAfterDupExpansions ≠ 0
  kPerExpansion : c.burst.kPerExpansion ≠ 0
  baseBurstLen : c.burst.baseBurstLenFrames ≠ 0
  maxBurstLen : c.burst.maxBurstLenFrames ≠ 0
  windowN : c.plateau.windowN ≠ 0
  epsilonS : isZero c.plateau.epsilonS = false
  burstLenFactor : isZero c.plateau.ladder.burstLenFactor = false
  tempFactor : isZero c.plateau.ladder.tempFactor = false
  radiusFactor : isZero c.plateau.ladder.radiusFactor = false
  inflight : c.scheduling.mode = .deterministic → c.scheduling.maxInflightBatches = 1
  inflightFast : c.scheduling.maxInflightBatches ≠ 0
  jobTimeout : c.scheduling.jobTimeoutS ≠ 0
  everyCommits : c.checkpoint.everyCommits ≠ 0
  everySeconds : c.checkpoint.everySeconds ≠ 0

theorem ExperimentConfig.ranges_of_validateAll {c : ExperimentConfig F}
    (h : c.validateAll = []) : c.Ranges := by
  have hchecks := validateAll_eq_nil.mp h
  simp only [checks, List.forall_mem_cons, rejectIf_eq_none, decide_eq_false_iff_not,
    Bool.not_eq_false', Bool.or_eq_false_iff] at hchecks
  obtain ⟨-, -, -, -, -, -, hk, -, htemp, -, -, -, -, -, -, hvisits, hexhaust, -, hbase, hmax,
    hwindow, heps, -, hdet, hfast, htimeout, hcommits, hseconds, hburst, htempf, hradius, -⟩ :=
    hchecks
  refine ⟨isZero_of_finitePositive htemp, hvisits, hexhaust, by omega, hbase, hmax, by omega,
    isZero_of_finitePositive heps, ConfigFloat.isZero_of_one_le _ hburst.2,
    ConfigFloat.isZero_of_one_le _ htempf.2, ConfigFloat.isZero_of_one_le _ hradius.2,
    ?_, ?_, htimeout, hcommits, hseconds⟩
  · intro hmode
    by_contra hne
    exact hdet ⟨hmode, hne⟩
  · intro hzero
    cases hmode : c.scheduling.mode with
    | fast => exact hfast ⟨hmode, hzero⟩
    | deterministic => exact hdet ⟨hmode, by omega⟩

end

end Orchestrator.Core.Config
