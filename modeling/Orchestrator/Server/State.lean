import Orchestrator.Core.Commit
import Orchestrator.Services.Synth

/-! # Server — State

What an experiment is configured with, the private state of a runner, and the world the
runner's calls act on. A process keeps its runner in memory; the world (the store and the
scorer) outlives it. The world also carries a log of what happened, with the store and the
scorer as they were: the runner never reads it, statements about whole runs are about it.
-/

namespace Orchestrator.Server

open Core Services Lib

/-! ### Configuration -/

structure Budgets where
  maxNodes : Nat
  maxExpansions : Nat
  maxGuestInstructions : Nat
  maxWallClockS : Nat
deriving DecidableEq, Repr

/-- What the selection policy is shown, and the number that seeds its randomness. -/
structure PolicyContext (F : Type) [Float64 F] where
  tree : Tree F
  frontier : Frontier
  cellMirror : CellMirror
  level : EscalationLevel
  expansions : Nat
  batchSeq : Nat

/-- A compiled feature map: how often it was coarsened, its layout and its field names. -/
structure CompiledMap where
  passes : Nat
  layout : Nat
  fieldNames : List String
deriving DecidableEq, Repr

/-- The configuration and sources of an experiment, and those parts of its services that
are functions of the request: scoring a state, proposing bursts, executing a batch. -/
structure Experiment (F : Type) [Float64 F] where
  mode : SchedMode
  maxInflightBatches : Nat
  rules : CommitRules F
  onGoal : OnGoal
  budgets : Budgets
  everyCommits : Nat
  everySeconds : Nat
  kPerExpansion : Nat
  windowN : Nat
  epsilonS : F
  maxLevel : EscalationLevel
  decodedFeatures : List String
  /-- The burst length hint at an escalation level. -/
  lengthHint : EscalationLevel → Nat
  /-- The synthesizer overrides in effect from L3 on. -/
  hotOverrides : Bytes
  /-- `derive_synth_request_seed` at the experiment's seed. -/
  requestSeed : Nat → Nat
  /-- Which candidate the policy takes, by position, if it finds one. -/
  pick : PolicyContext F → Except ClientError (Option Nat)
  /-- The feature map coarsened so many times, compiled. -/
  compiledMap : Nat → Except ClientError CompiledMap
  featureMapHash : Nat
  scoringProgramHash : Nat
  /-- The hypervisor's bootstrap of the root. -/
  bootstrap : Capture
  scoreState : Bytes → Except ItemErrorKind (StateScore F)
  propose : ProposeRequest F → ProposeResponse
  execute : Batch → List JobOutcome

/-! ### The runner -/

structure NodeRuntime where
  snapshot : SnapshotRef
  determinismClass : Nat
deriving DecidableEq, Repr

/-- What the progress stream reads of a published status. -/
structure StatusSnapshot (F : Type) where
  state : ExperimentState
  escalationLevel : Nat
  expansionsSinceImprovement : Nat
  bestScore : Option F
  goalNodes : List NodeId
  failureReason : Option RuntimeReason

/-- What the channel holds before the runner sends. -/
def StatusSnapshot.initial : StatusSnapshot F where
  state := .pending
  escalationLevel := 0
  expansionsSinceImprovement := 0
  bestScore := none
  goalNodes := []
  failureReason := none

/-- The fields of `ExperimentRunner`, and the locals of `run` that live as long as it does:
the batches in the pipeline, the in-flight intents, and the intent a phase has taken from
the replay queue or from the in-flight ones and is working on. -/
structure Runner (F : Type) [Float64 F] where
  bringup : CompiledMap
  commitState : CommitState F
  runtimes : List (NodeId × NodeRuntime)
  nodeBursts : List ((NodeId × Nat) × NodeId)
  stall : StallDetector F
  ladder : EscalationLadder
  fingerprints : FingerprintRegistry
  fingerprint : Option Nat
  batchSeq : Nat
  expansions : Nat
  bestScore : Option F
  goalNodes : List NodeId
  bestNode : Option NodeId
  discardedDup : Nat
  discardedRegression : Nat
  guestInstructionsUsed : Nat
  scorerArchiveSeq : Nat
  ckptGeneration : Option Nat
  checkpointedBatchSeq : Nat
  walFloor : Nat
  commitsSinceCheckpoint : Nat
  status : ExperimentState
  failureReason : Option RuntimeReason
  replayQueue : List ExpansionIntent
  pipeline : List Batch
  inflight : List ExpansionIntent
  current : Option ExpansionIntent
  /-- What was sent on the status channel, the latest last. -/
  statusTx : List (StatusSnapshot F)

inductive CrashPoint where
  | afterWalWrite | afterDispatch | beforeCommitOwnerCheck | midBatchCommit | afterCreateNode
  | afterCommitBeforeCheckpoint | beforeCheckpointArchive | afterCheckpointArchive
  | beforeCasPut | afterCasPut | beforeWalDelete | afterWalDelete
deriving DecidableEq, Repr

inductive Control where
  | pause | resume | stop
deriving DecidableEq, Repr

/-! ### The world -/

/-- What the log records. -/
inductive Event (F : Type) [Float64 F] where
  /-- An RPC failed for good, or the service refused it. -/
  | rpcFailed (e : ClientError)
  /-- A process has started, fresh or resumed, and is about to run. -/
  | started (r : Runner F)
  | selecting (r : Runner F)
  /-- A request was built from the store for this intent. -/
  | proposed (intent : ExpansionIntent) (replay : Bool)
  | walWritten (seq : Nat)
  | submitted (seq : Nat)
  /-- The scorer answered for a fresh batch. -/
  | scored (r : Runner F) (results : List (ScoreResult F))
  /-- Every effect of a batch's commit has been applied. -/
  | committed (seq : Nat) (goal : Option NodeId) (r : Runner F)
  /-- A commit ended with an error. -/
  | aborted (seq : Nat) (r : Runner F)
  | checkpointBegan (r : Runner F)
  | checkpointed (batchSeq : Nat)
  | walDeleted (seq : Nat)

/-- An event with the store and the scorer at that moment. -/
structure Entry (F : Type) [Float64 F] where
  event : Event F
  store : Store F
  scorer : Scorer

structure World (F : Type) [Float64 F] where
  store : Store F
  scorer : Scorer
  log : List (Entry F)

variable {F : Type} [Float64 F]

namespace World

def empty : World F := ⟨.new, .new, []⟩

def record (e : Event F) (w : World F) : World F :=
  { w with log := w.log ++ [⟨e, w.store, w.scorer⟩] }

def setStore (w : World F) (store : Store F) : World F := { w with store := store }

def setScorer (w : World F) (scorer : Scorer) : World F := { w with scorer := scorer }

end World
end Orchestrator.Server
