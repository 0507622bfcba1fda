import Orchestrator.Core.Plateau
import Orchestrator.Core.Tree

/-! # Services — Types

The messages between the experiment runner and its services: errors, bursts, jobs and
their captures, scored states, expansion intents and the checkpoint. Fields that no
modelled function reads (experiment ids, timestamps, metrics, the observatory's event
payloads) are left out.
-/

namespace Orchestrator.Services

open Core

inductive ClientErrorKind where
  | invalidRequest | failedPrecondition | notFound | alreadyExists
  | resourceExhausted | unavailable | dataLoss | internal
deriving DecidableEq, Repr

/-- The catalogued prefixes a terminal `failure_reason` starts with, and the reasons of a
run that ends because its budget or its frontier is exhausted. -/
inductive RuntimeReason where
  | casOwnershipLost | archiveSeqMismatch | fingerprintMismatch | jobRetriesExhausted
  | classMismatch | runtimeError | frontierExhausted
  | maxNodes | maxExpansions | maxGuestInstructions | maxWallClock
deriving DecidableEq, Repr

/-- A client error. The catalogued prefix of its message is kept apart from the rest, so
that `starts_with` on the message is an equality of constructors. -/
structure ClientError where
  kind : ClientErrorKind
  reason : Option RuntimeReason
  detail : String
deriving DecidableEq, Repr

def ClientError.new (kind : ClientErrorKind) (detail : String) : ClientError :=
  ⟨kind, none, detail⟩

/-- `ClientErrorKind::as_str`. -/
def ClientErrorKind.asStr : ClientErrorKind → String
  | .invalidRequest => "invalid request"
  | .failedPrecondition => "failed precondition"
  | .notFound => "not found"
  | .alreadyExists => "already exists"
  | .resourceExhausted => "resource exhausted"
  | .unavailable => "unavailable"
  | .dataLoss => "data loss"
  | .internal => "internal"

/-- The text of a reason, up to what follows it in the message. -/
def RuntimeReason.text : RuntimeReason → String
  | .casOwnershipLost => "checkpoint-cas-ownership-lost"
  | .archiveSeqMismatch => "scorer-archive-seq-mismatch"
  | .fingerprintMismatch => "synth-fingerprint-mismatch"
  | .jobRetriesExhausted => "job-retries-exhausted"
  | .classMismatch => "determinism-class-mismatch"
  | .runtimeError => "runtime-error"
  | .frontierExhausted => "frontier-exhausted"
  | .maxNodes => "budget-exhausted: max_nodes"
  | .maxExpansions => "budget-exhausted: max_expansions"
  | .maxGuestInstructions => "budget-exhausted: max_guest_instructions"
  | .maxWallClock => "budget-exhausted: max_wall_clock_s"

/-- `message`. -/
def ClientError.message (e : ClientError) : String :=
  match e.reason with
  | none => e.detail
  | some reason => reason.text ++ ": " ++ e.detail

/-- `Display for ClientError`. -/
def ClientError.display (e : ClientError) : String :=
  if e.message.isEmpty then e.kind.asStr else e.kind.asStr ++ ": " ++ e.message

/-- `is_retryable`. -/
def ClientError.isRetryable (e : ClientError) : Bool :=
  match e.kind with
  | .unavailable | .internal | .dataLoss | .resourceExhausted => true
  | _ => false

abbrev Bytes := List Nat

/-- A burst with its provenance: `burst.burst_id`, the body, and the provenance's
fingerprint and slot. -/
structure Burst where
  burstId : Nat
  body : Bytes
  configFingerprint : Nat
  slot : Nat
deriving DecidableEq, Repr

/-- What the hypervisor captured at the end of a job or of the bootstrap. -/
structure Capture where
  snapshot : SnapshotRef
  featureBytes : Option Bytes
  frameCounter : Nat
  icount : Nat
  determinismClass : Nat
  inputLogId : Option Nat
deriving DecidableEq, Repr

inductive JobVerdict where
  | ok | guestHang | guestCrash
deriving DecidableEq, Repr

structure JobResult where
  jobIdx : Nat
  verdict : JobVerdict
  burst : Burst
  capture : Option Capture
  sdkEvents : List Nat
deriving DecidableEq, Repr

inductive JobOutcome where
  | completed (result : JobResult)
  | abandoned (jobIdx : Nat) (reason : String)
deriving DecidableEq, Repr

structure Batch where
  seq : Nat
  parent : NodeId
  parentSnapshot : SnapshotRef
  requiredClass : Nat
  bursts : List Burst
deriving DecidableEq, Repr

structure BatchResult where
  seq : Nat
  parent : NodeId
  jobs : List JobOutcome
deriving DecidableEq, Repr

structure IntentKnobs where
  k : Nat
  lengthHintFrames : Nat
  escalationLevel : Nat
  configOverridesYaml : Bytes
deriving DecidableEq, Repr

/-- The write-ahead record of one expansion. -/
structure ExpansionIntent where
  seq : Nat
  node : NodeId
  burstSeed : Nat
  knobs : IntentKnobs
  /-- The number in `b{seq}`. -/
  clientBatchId : Nat
deriving DecidableEq, Repr

inductive ItemErrorKind where
  | featureLenMismatch | decodeFailed | fbRefUnsupported | fbMetaMismatch
deriving DecidableEq, Repr

section

variable (F : Type) [Float64 F]

/-- One scored item of a `ScoreBatch` response. -/
structure ScoreResult where
  error : Option ItemErrorKind
  progressScore : Score F
  noveltyScore : Novelty F
  stateHash : StateHash
  goalHit : Bool
  duplicate : Bool
  stage : Nat
  prune : Bool
  decoded : List (Option F)
  cellKey : CellKey
deriving DecidableEq

structure CommittedState where
  stateHash : StateHash
  cellKey : CellKey
deriving DecidableEq, Repr

inductive ExperimentState where
  | pending | running | paused | stopped | goalReached | budgetExhausted | failed
deriving DecidableEq, Repr

structure FrontierEntry where
  node : NodeId
  visits : Nat
  exhausted : Bool
  consecutiveAllDup : Nat
deriving DecidableEq, Repr

structure PlateauCheckpoint where
  bestScore : Option F
  observations : Nat
  observationsSinceImprovement : Nat
  completedStallWindows : Nat
  level : Nat
deriving DecidableEq

end
end Orchestrator.Services
