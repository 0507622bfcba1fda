import Orchestrator.Lib.Trace
import Orchestrator.Services.Types

/-! # Sched — Driver

The worker driver: what a job, a batch and the bootstrap ask of the hypervisor and of the slot
view. A computation is a process whose calls are the RPCs and the operations on permits; the
answers are anything the other side may say. Under a deadline every await first asks whether
the deadline has cancelled the work there, which then stops without the answer; dropping a
permit and `try_acquire` await nothing.

The cell that shares a job's lease with the teardown after a cancellation is the private state
of the job. An unbounded retry on backpressure takes fuel and never returns without it. A
request to destroy carries the attempt it is, which the worker does not see. Metrics and the
capture specification are left out, and a determinism class and an SDK event are numbers.
-/

namespace Orchestrator.Sched

open Core Services Lib

abbrev Lease := Nat

structure PadSegment where
  buttons : Nat
  holdFrames : Nat
deriving DecidableEq, Repr

/-- `BurstBody`. -/
inductive BurstBody where
  | pad (segments : List PadSegment)
  | event
deriving DecidableEq, Repr

/-- A `PadSet` at an absolute frame. -/
structure ScheduledEvent where
  frame : Nat
  port : Nat
  buttons : Nat
deriving DecidableEq, Repr

inductive RunUntil where
  | frameBudget (frames : Nat)
  | nextSdkEvent
deriving DecidableEq, Repr

inductive StopReason where
  | unspecified | budgetReached | goalSatisfied | nextSdkEvent | hardCap | paused | guestHalted
  | faulted
deriving DecidableEq, Repr

/-- The name of a reason, as error texts have it. -/
def StopReason.name : StopReason → String
  | .unspecified => "Unspecified"
  | .budgetReached => "BudgetReached"
  | .goalSatisfied => "GoalSatisfied"
  | .nextSdkEvent => "NextSdkEvent"
  | .hardCap => "HardCap"
  | .paused => "Paused"
  | .guestHalted => "GuestHalted"
  | .faulted => "Faulted"

/-- The answer to `Run`: why it stopped, and the SDK event if there is one. -/
structure RunStop where
  reason : StopReason
  sdkEvent : Option Nat
deriving DecidableEq, Repr

structure Driver where
  experimentSeed : Nat
  hardIcountCap : Option Nat
  deriveJobEntropySeed : Nat → Nat → Nat → Nat
  deriveBootEntropySeed : Nat → Nat
  /-- The body that the bytes of a burst encode. -/
  body : Burst → BurstBody

structure JobSpec where
  batchSeq : Nat
  jobIdx : Nat
  parentSnapshot : SnapshotRef
  requiredClass : Option Nat
  burst : Burst

/-! ### Bursts and verdicts -/

/-- `u32::saturating_add`. -/
def saturatingAdd (a b : Nat) : Nat := min (a + b) (2 ^ 32 - 1)

/-- `burst_events`: each segment at the cumulative offset of those before it, and the frames
they hold together. -/
def burstEvents (segments : List PadSegment) (parentFrame : Nat) :
    Except ClientError (List ScheduledEvent × Nat) :=
  if segments.isEmpty then .error (.new .invalidRequest "pad burst has no segments")
  else
    let base := saturatingAdd parentFrame 1
    let (events, offset) := segments.foldl
      (fun (events, offset) segment =>
        (events ++ [⟨saturatingAdd base offset, 0, segment.buttons⟩],
          saturatingAdd offset segment.holdFrames)) (([] : List ScheduledEvent), 0)
    if offset = 0 then .error (.new .invalidRequest "pad burst holds zero frames")
    else .ok (events, offset)

/-- `pad_burst`. -/
def padBurst (d : Driver) (burst : Burst) : Except ClientError (List PadSegment) :=
  match d.body burst with
  | .pad segments => .ok segments
  | .event => .error (.new .invalidRequest "event bursts are not supported by the M3 driver")

/-- `verdict_from_stop_reason`. -/
def verdictFromStopReason : StopReason → Except ClientError JobVerdict
  | .budgetReached | .goalSatisfied | .nextSdkEvent => .ok .ok
  | .hardCap => .ok .guestHang
  | .guestHalted | .faulted => .ok .guestCrash
  | reason => .error (.new .internal ("unexpected worker stop reason " ++ reason.name))

/-- `is_backpressure`. -/
def isBackpressure (e : ClientError) : Bool := e.kind = .resourceExhausted

/-- `ForkRequest::new`. -/
def forkRequest (entropySeeds : List Nat) : Except ClientError (List Nat) :=
  if 2 ^ 32 ≤ entropySeeds.length then
    .error (.new .invalidRequest "fork entropy seed count exceeds u32")
  else if entropySeeds.length = 0 then .error (.new .invalidRequest "fork count must be nonzero")
  else .ok entropySeeds

/-! ### Calls -/

namespace Driver

inductive Op where
  | acquire (requiredClass : Option Nat)
  | tryAcquire
  | acquireClassCheck (required : Nat)
  | dropPermit
  | createVm (entropySeed : Nat)
  | restoreSnapshot (snapshot : SnapshotRef) (entropySeed : Option Nat)
  | fork (parent : Lease) (entropySeeds : List Nat)
  | injectInputs (lease : Lease) (events : List ScheduledEvent)
  | run (lease : Lease) (until? : RunUntil) (hardIcountCap : Option Nat)
  | takeSnapshot (lease : Lease) (sealInputLog : Bool)
  | destroyVm (lease : Lease) (attempts : Nat)
  | sleep
  /-- Whether the deadline cancels the work at this await. -/
  | elapsed

abbrev Ans : Op → Type
  | .acquire _ | .acquireClassCheck _ | .injectInputs _ _ | .destroyVm _ _ =>
    Except ClientError Unit
  | .tryAcquire | .elapsed => Bool
  | .dropPermit | .sleep => Unit
  | .createVm _ => Except ClientError Lease
  | .restoreSnapshot _ _ => Except ClientError (Lease × Nat)
  | .fork _ _ => Except ClientError (List Lease)
  | .run _ _ _ => Except ClientError RunStop
  | .takeSnapshot _ _ => Except ClientError Capture

abbrev Trace := List (Exchange Op Ans)

/-- What a job keeps to itself: whether a deadline runs, and the lease it has registered. -/
structure Cell where
  timed : Bool
  activeLease : Option Lease

/-- Why a computation does not return a value. -/
inductive Stop where
  | error (e : ClientError)
  /-- The deadline dropped it at an await. -/
  | cancelled

abbrev M := Proc Op Ans Cell Stop

/-- Whether a deadline cancels the work at an await. -/
def deadlinePassed : M Bool := do
  let cell ← Proc.get
  if cell.timed then Proc.call Op.elapsed else pure false

/-- Awaits an answer. -/
def await (op : Op) : M (Ans op) := do
  if ← deadlinePassed then Proc.fail .cancelled else Proc.call op

/-- `drop(permit)`. -/
def dropPermit : M Unit := Proc.call Op.dropPermit

/-- `?`. -/
def orReturn {α : Type} : Except ClientError α → M α
  | .ok a => pure a
  | .error e => Proc.fail (.error e)

/-- The result of a computation as a value. A cancelled one does not have a result. -/
def result {α : Type} (x : M α) : M (Except ClientError α) := do
  match ← Proc.attempt x with
  | .ok a => pure (.ok a)
  | .error (.error e) => pure (.error e)
  | .error .cancelled => Proc.fail .cancelled

/-- `destroy_with_retry`, with `left` attempts after this one. -/
def destroyAttempts (lease : Lease) (left : Nat) : M Unit := do
  match ← await (.destroyVm lease (8 - left)) with
  | .ok () => pure ()
  | .error e =>
    -- Already gone.
    if e.kind = .notFound then pure ()
    else
      match left with
      | 0 => Proc.fail (.error e)
      | left + 1 => do
        let () ← await .sleep
        destroyAttempts lease left

def destroyWithRetry (lease : Lease) : M Unit := destroyAttempts lease 8

/-- Allocates, waiting out backpressure. -/
def allocate {α : Type} (request : M (Except ClientError α)) : Nat → M α
  | 0 => Proc.halt
  | fuel + 1 => do
    match ← request with
    | .ok response => pure response
    | .error e =>
      if isBackpressure e then do
        let () ← await .sleep
        allocate request fuel
      else Proc.fail (.error e)

/-! ### A job -/

variable (d : Driver)

/-- `drive_leased_job_inner`. -/
def driveLeasedJobInner (spec : JobSpec) (lease : Lease) (parentFrame : Nat) : M JobResult := do
  let pad ← orReturn (padBurst d spec.burst)
  let (events, frameBudget) ← orReturn (burstEvents pad parentFrame)
  orReturn (← await (.injectInputs lease events))
  let run ← orReturn (← await (.run lease (.frameBudget frameBudget) d.hardIcountCap))
  let verdict ← orReturn (verdictFromStopReason run.reason)
  let sdkEvents := run.sdkEvent.toList
  if verdict = .guestCrash then
    destroyWithRetry lease
    pure { jobIdx := spec.jobIdx, verdict, burst := spec.burst, capture := none, sdkEvents }
  else
    let snapshot ← orReturn (← await (.takeSnapshot lease true))
    let _ ← result (destroyWithRetry lease)
    pure { jobIdx := spec.jobIdx, verdict, burst := spec.burst, capture := some snapshot,
           sdkEvents }

/-- `drive_leased_job`: a failed job is torn down. -/
def driveLeasedJob (spec : JobSpec) (lease : Lease) (parentFrame : Nat) : M JobResult := do
  match ← result (driveLeasedJobInner d spec lease parentFrame) with
  | .ok job => pure job
  | .error e => do
    let _ ← result (destroyWithRetry lease)
    Proc.fail (.error e)

/-- The part of `run_job_deadline` that the deadline covers. -/
def work (fuel : Nat) (spec : JobSpec) : M JobResult := do
  let entropy := d.deriveJobEntropySeed d.experimentSeed spec.batchSeq spec.jobIdx
  let (lease, frame) ← allocate (await (.restoreSnapshot spec.parentSnapshot (some entropy))) fuel
  Proc.modify fun cell => { cell with activeLease := some lease }
  let job ← result (driveLeasedJob d spec lease frame)
  Proc.modify fun cell => { cell with activeLease := none }
  orReturn job

/-- Tears down the lease that a cancellation left behind. -/
def destroyStranded : Option Lease → M Unit
  | some lease => do
    let _ ← result (destroyWithRetry lease)
    pure ()
  | none => pure ()

/-- What `run_job_deadline` makes of the work's end. -/
def timeout (deadline : Option Nat) : Except Stop JobResult → Except ClientError JobResult
  | .ok job => .ok job
  | .error (.error e) => .error e
  | .error .cancelled =>
    .error (.new .unavailable (s!"job timed out after {deadline.getD 0} ms"))

/-- `run_job_deadline`. -/
def runJobDeadline (fuel : Nat) (spec : JobSpec) (deadline : Option Nat) : M JobResult := do
  orReturn (← await (.acquire spec.requiredClass))
  Proc.modify fun cell => { cell with timed := deadline.isSome }
  let done ← Proc.attempt (work d fuel spec)
  let cell ← Proc.get
  Proc.modify fun _ => ⟨false, none⟩
  destroyStranded cell.activeLease
  dropPermit
  orReturn (timeout deadline done)

/-! ### A batch -/

structure BatchSpec where
  batchSeq : Nat
  parentSnapshot : SnapshotRef
  requiredClass : Option Nat
  bursts : List Burst

def BatchSpec.jobs (b : BatchSpec) : List JobSpec :=
  b.bursts.zipIdx.map fun (burst, jobIdx) =>
    { batchSeq := b.batchSeq, jobIdx, parentSnapshot := b.parentSnapshot,
      requiredClass := b.requiredClass, burst }

/-- The same error for every job. -/
def BatchSpec.refused (b : BatchSpec) (e : ClientError) :
    List (Nat × Except ClientError JobResult) :=
  (List.range b.bursts.length).map fun jobIdx => (jobIdx, .error e)

/-- Drops permits. -/
def dropPermits : Nat → M Unit
  | 0 => pure ()
  | n + 1 => do
    dropPermit
    dropPermits n

/-- Takes `more` permits besides the `taken` ones, or none at all. -/
def tryAcquireAll (taken : Nat) : Nat → M Bool
  | 0 => pure true
  | more + 1 => do
    if ← Proc.call .tryAcquire then tryAcquireAll (taken + 1) more
    else
      dropPermits taken
      pure false

/-- Destroys leases one after the other. -/
def destroyEach : List Lease → M Unit
  | [] => pure ()
  | lease :: rest => do
    let _ ← result (destroyWithRetry lease)
    destroyEach rest

/-- How the beginning of `try_run_forked` ends. -/
inductive Fork where
  | returned (results : Option (List (Nat × Except ClientError JobResult)))
  | forked (parent : Lease) (frame : Nat) (children : List Lease)

/-- The class gate of `try_run_forked`. -/
def classCheck : Option Nat → M (Except ClientError Unit)
  | some required => Proc.call (Op.acquireClassCheck required)
  | none => pure (.ok ())

/-- The entropy seeds of a batch. -/
def seeds (b : BatchSpec) : List Nat :=
  (List.range b.bursts.length).map fun jobIdx =>
    d.deriveJobEntropySeed d.experimentSeed b.batchSeq jobIdx

/-- `try_run_forked` from the restored parent to the children. -/
def forkChildren (b : BatchSpec) (parent : Lease) (frame : Nat) : M Fork := do
  let count := b.bursts.length
  match forkRequest (seeds d b) with
  | .error e => do
    let _ ← result (destroyWithRetry parent)
    dropPermits (count + 1)
    pure (.returned (some (b.refused e)))
  | .ok seeds => do
    match ← await (.fork parent seeds) with
    | .ok children =>
      if children.length = count then pure (.forked parent frame children)
      else do
        destroyEach children
        let _ ← result (destroyWithRetry parent)
        dropPermits (count + 1)
        pure (.returned (some (b.refused (.new .dataLoss "fork returned a wrong child count"))))
    | .error e => do
      let _ ← result (destroyWithRetry parent)
      dropPermits (count + 1)
      pure (.returned (if isBackpressure e then none else some (b.refused e)))

/-- `try_run_forked` from the permits to the children. -/
def restoreParent (b : BatchSpec) : M Fork := do
  match ← classCheck b.requiredClass with
  | .error e => do
    dropPermits (b.bursts.length + 1)
    pure (.returned (some (b.refused e)))
  | .ok () => do
    match ← await (.restoreSnapshot b.parentSnapshot none) with
    | .error _ => do
      -- Backpressure or not, the restore path takes over.
      dropPermits (b.bursts.length + 1)
      pure (.returned none)
    | .ok (parent, frame) => forkChildren d b parent frame

/-- `try_run_forked` up to the children. -/
def tryFork (b : BatchSpec) : M Fork := do
  if ← tryAcquireAll 0 (b.bursts.length + 1) then restoreParent d b else pure (.returned none)

/-- The task of a forked child, which owns its permit. -/
def childTask (spec : JobSpec) (lease : Lease) (parentFrame : Nat) :
    M (Nat × Except ClientError JobResult) := do
  let job ← result (driveLeasedJob d spec lease parentFrame)
  dropPermit
  pure (spec.jobIdx, job)

/-- The end of `try_run_forked`, after its children. -/
def joinParent (parent : Lease) : M Unit := do
  let _ ← result (destroyWithRetry parent)
  dropPermit

/-- The task of a job on the restore path. -/
def jobTask (fuel : Nat) (spec : JobSpec) : M (Nat × Except ClientError JobResult) := do
  let job ← result (runJobDeadline d fuel spec none)
  pure (spec.jobIdx, job)

/-- A computation starts without a deadline and without a lease. -/
def Cell.idle : Cell := ⟨false, none⟩

/-- A computation, run from the start, makes the calls of `t` and ends with `out`. -/
def Returns {α : Type} (x : M α) (t : Trace) (out : Except Stop α) : Prop :=
  ∃ cell, x.Yields Cell.idle t out cell

/-- `futures_join_all`: the tasks run side by side until all have returned. -/
def Joined {α : Type} (tasks : List (M α)) (t : Trace) (results : List α) : Prop :=
  ∃ runs : List (Trace × α),
    List.Forall₂ (fun task run => Returns task run.1 (.ok run.2)) tasks runs ∧
      Interleaving (runs.map Prod.fst) t ∧ results = runs.map Prod.snd

/-- `try_run_forked`. -/
inductive TryRunForked (b : BatchSpec) :
    Trace → Option (List (Nat × Except ClientError JobResult)) → Prop where
  | returned {t : Trace} {results : Option (List (Nat × Except ClientError JobResult))}
      (h : Returns (tryFork d b) t (.ok (.returned results))) : TryRunForked b t results
  | joined {t₁ t₂ t₃ : Trace} {parent : Lease} {frame : Nat} {children : List Lease}
      {results : List (Nat × Except ClientError JobResult)}
      (hfork : Returns (tryFork d b) t₁ (.ok (.forked parent frame children)))
      (hjoin : Joined ((b.jobs.zip children).map fun (spec, lease) => childTask d spec lease frame)
        t₂ results)
      (hparent : Returns (joinParent parent) t₃ (.ok ())) :
      TryRunForked b (t₁ ++ t₂ ++ t₃) (some results)

/-- `run_batch`: forked if the batch has two jobs and the fork path takes it, else every job
by itself. -/
inductive RunBatch (fuel : Nat) (b : BatchSpec) :
    Trace → List (Nat × Except ClientError JobResult) → Prop where
  | forked {t : Trace} {results : List (Nat × Except ClientError JobResult)}
      (hcount : 2 ≤ b.bursts.length) (h : TryRunForked d b t (some results)) :
      RunBatch fuel b t results
  | restored {t₁ t₂ : Trace} {results : List (Nat × Except ClientError JobResult)}
      (h : b.bursts.length < 2 ∧ t₁ = [] ∨ 2 ≤ b.bursts.length ∧ TryRunForked d b t₁ none)
      (hjoin : Joined (b.jobs.map (jobTask d fuel)) t₂ results) :
      RunBatch fuel b (t₁ ++ t₂) results

/-! ### The bootstrap -/

/-- `bootstrap_leased`. -/
def bootstrapLeased (icountCap : Option Nat) (lease : Lease) : M (Capture × Nat) := do
  let run ← orReturn (← await (.run lease .nextSdkEvent icountCap))
  if run.reason ≠ .nextSdkEvent then
    Proc.fail (.error (.new .failedPrecondition
      ("bootstrap did not reach the Ready event: " ++ run.reason.name)))
  else
    match run.sdkEvent with
    | none =>
      Proc.fail (.error (.new .dataLoss "worker reported NEXT_SDK_EVENT without an event"))
    | some readyEvent => do
      let snapshot ← orReturn (← await (.takeSnapshot lease false))
      destroyWithRetry lease
      pure (snapshot, readyEvent)

/-- `bootstrap`, with the permit. -/
def bootstrapAcquired (fuel : Nat) (icountCap : Option Nat) : M (Capture × Nat) := do
  let entropy := d.deriveBootEntropySeed d.experimentSeed
  let lease ← allocate (await (.createVm entropy)) fuel
  let root ← result (bootstrapLeased icountCap lease)
  destroyStranded (if root.isOk then none else some lease)
  orReturn root

/-- `bootstrap`. The permit goes with every return. -/
def bootstrap (fuel : Nat) (icountCap : Option Nat) : M (Capture × Nat) := do
  orReturn (← await (.acquire none))
  let root ← result (bootstrapAcquired d fuel icountCap)
  dropPermit
  orReturn root

end Driver
end Orchestrator.Sched
