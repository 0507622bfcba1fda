import Orchestrator.Server.Start

/-! # Server — Run

The life of a started runner: the replay phase over the write-ahead window, then the select
loop, with control messages applied between batches, and a final checkpoint whatever ended
the run.
-/

namespace Orchestrator.Server

open Core Services Lib

variable {F : Type} [Float64 F]

/-! ### Selection and dispatch -/

def policyContext (r : Runner F) : PolicyContext F :=
  { tree := r.commitState.tree
    frontier := r.commitState.frontier
    cellMirror := r.commitState.cellMirror
    level := r.ladder.level
    expansions := r.expansions
    batchSeq := r.batchSeq }

def selectionFailed : ClientError := .new .internal "selection failed"

/-- The selection of `build_intent`; `none` when there is no candidate. -/
def selectNode (exp : Experiment F) (r : Runner F) : Except ClientError (Option NodeId) :=
  match exp.pick (policyContext r) with
  | .error e => .error e
  | .ok none => .ok none
  | .ok (some k) =>
    match r.commitState.frontier.deterministicCandidates r.commitState.tree with
    | .error _ => .error selectionFailed
    | .ok ids => .ok ids[k % ids.length]?

/-- `build_intent` for a selected node. -/
def buildIntent (exp : Experiment F) (r : Runner F) (node : NodeId) : ExpansionIntent :=
  { seq := r.batchSeq
    node
    burstSeed := exp.requestSeed r.batchSeq
    knobs :=
      { k := exp.kPerExpansion
        lengthHintFrames := exp.lengthHint r.ladder.level
        escalationLevel := r.ladder.level.get
        configOverridesYaml :=
          if r.ladder.level.includes .l3 then exp.hotOverrides else [] }
    clientBatchId := r.batchSeq }

/-- The build spec of an intent, the same for a dispatch and for a replay. -/
def buildSpec (exp : Experiment F) (intent : ExpansionIntent) : BuildSpec :=
  { nodeId := intent.node
    k := intent.knobs.k
    lengthHint := intent.knobs.lengthHintFrames
    seed := exp.requestSeed intent.seq
    configOverridesYaml := intent.knobs.configOverridesYaml }

def fingerprintMismatch : ClientError :=
  ⟨.failedPrecondition, some .fingerprintMismatch, "fingerprint diverged"⟩

/-- Whether a request has no overrides; the checkpoint pins the fingerprint of these. -/
def baseProfile (request : ProposeRequest F) : Bool := request.configOverridesYaml.isEmpty

/-- The fingerprint checks of `guarded_propose`. -/
def pinFingerprint (request : ProposeRequest F) (response : ProposeResponse) :
    M F ProposeResponse := do
  let r ← Proc.get
  if baseProfile request && r.fingerprint.any (· ≠ response.configFingerprint) then
    Proc.fail fingerprintMismatch
  else
    match r.fingerprints.checkOrInsert request.configOverridesYaml response.configFingerprint with
    | none => Proc.fail fingerprintMismatch
    | some fingerprints => do
      Proc.modify fun r =>
        { r with
          fingerprints
          fingerprint :=
            if baseProfile request then some response.configFingerprint else r.fingerprint }
      pure response

/-- `guarded_propose`. -/
def guardedPropose (request : ProposeRequest F) : M F ProposeResponse := do
  let response ← rpc (ask (.propose request))
  match validateProposeResponse request response with
  | some e => Proc.fail e
  | none => pinFingerprint request response

/-- The submission of a batch to the pipeline. -/
def submitBatch (intent : ExpansionIntent) (bursts : List Burst) : M F Unit := do
  let r ← Proc.get
  match r.runtimes.lookup intent.node with
  | none => Proc.fail (.new .internal "no runtime for node")
  | some runtime => do
    let batch : Batch :=
      { seq := intent.seq, parent := intent.node, parentSnapshot := runtime.snapshot
        requiredClass := runtime.determinismClass, bursts }
    rpc (ask (.submit batch))
    Proc.modify fun r => { r with pipeline := r.pipeline ++ [batch] }

/-- The end of a dispatch: the number is used up and the intent is in flight. -/
def enterFlight (intent : ExpansionIntent) (r : Runner F) : Runner F :=
  { r with
    batchSeq := max r.batchSeq (intent.seq + 1)
    inflight := r.inflight.filter (·.seq ≠ intent.seq) ++ [intent] }

/-- `dispatch_intent`. -/
def dispatchIntent (exp : Experiment F) (intent : ExpansionIntent) : M F Unit := do
  let request ← rpc (ask (.buildPropose intent (buildSpec exp intent) false))
  let response ← guardedPropose request
  rpc (ask (.putWal intent))
  crashCheck .afterWalWrite
  submitBatch intent response.bursts
  crashCheck .afterDispatch
  Proc.modify (enterFlight intent)

/-- `dispatch_replay`. -/
def dispatchReplay (exp : Experiment F) (intent : ExpansionIntent) : M F Unit := do
  let request ← rpc (ask (.buildPropose intent (buildSpec exp intent) true))
  let response ← guardedPropose request
  crashCheck .afterWalWrite
  submitBatch intent response.bursts
  crashCheck .afterDispatch

/-! ### Completion -/

/-- `next_completed`: the batch the pipeline hands back, or `none` when it has ended. -/
def nextCompleted : M F (Option BatchResult) := do
  let r ← Proc.get
  match ← rpc (ask (.nextCompleted r.pipeline)) with
  | none => pure none
  | some (index, jobs) =>
    match r.pipeline[index]? with
    | none => Proc.halt
    | some batch => do
      Proc.modify fun r => { r with pipeline := r.pipeline.eraseIdx index }
      pure (some ⟨batch.seq, batch.parent, jobs⟩)

/-- `inflight.remove`. -/
def takeInflight (seq : Nat) : M F Unit := do
  let r ← Proc.get
  match r.inflight.find? (·.seq = seq) with
  | none => Proc.fail (.new .internal "completed unknown batch")
  | some intent =>
    Proc.modify fun r =>
      { r with inflight := r.inflight.filter (·.seq ≠ seq), current := some intent }

/-- A commit, with its end on the log. -/
def committing (seq : Nat) (commit : M F (Option NodeId)) : M F (Option NodeId) := do
  match ← Proc.attempt commit with
  | .ok goal => do
    Proc.modify fun r => { r with current := none }
    noting (.committed seq goal)
    pure goal
  | .error e => do
    noting (.aborted seq)
    Proc.fail e

/-- `drain_inflight`. -/
def drainInflight (exp : Experiment F) : Nat → M F Unit
  | 0 => Proc.halt
  | fuel + 1 => do
    let r ← Proc.get
    if r.inflight.isEmpty then pure ()
    else
      match ← nextCompleted with
      | none => pure ()
      | some done => do
        takeInflight done.seq
        let _ ← committing done.seq (commitCompleted exp done)
        drainInflight exp fuel

/-! ### Control -/

/-- The wait of a paused runner: whether it goes on. -/
def park : Nat → M F Bool
  | 0 => Proc.halt
  | fuel + 1 => do
    match ← ask .recv with
    | some .resume => do
      setStatus .running
      publishStatus
      pure true
    | some .pause => park fuel
    | some .stop | none => do
      setStatus .stopped
      pure false

/-- `handle_control`: whether the run goes on. -/
def handleControl (exp : Experiment F) : Nat → M F Bool
  | 0 => Proc.halt
  | fuel + 1 => do
    match ← ask .tryRecv with
    | none => pure true
    | some .resume => handleControl exp fuel
    | some .stop => do
      drainInflight exp fuel
      setStatus .stopped
      pure false
    | some .pause => do
      drainInflight exp fuel
      setStatus .paused
      checkpoint exp
      publishStatus
      if ← park fuel then handleControl exp fuel else pure false

/-! ### The phases -/

/-- What follows a commit in both phases: whether its goal ends the run. -/
def afterCommit (exp : Experiment F) (goal : Option NodeId) : M F Bool := do
  crashCheck .afterCommitBeforeCheckpoint
  match goal with
  | none => do
    maybeCheckpoint exp
    pure false
  | some _ => do
    checkpoint exp
    pure (exp.onGoal = .stop)

/-- The replay of one intent: whether its goal ends the run. -/
def replayIntent (exp : Experiment F) (intent : ExpansionIntent) : M F Bool := do
  dispatchReplay exp intent
  match ← nextCompleted with
  | none => Proc.fail (.new .internal "pipeline ended during replay")
  | some done => do
    let goal ← committing done.seq (commitReplayed exp done)
    publishStatus
    afterCommit exp goal

/-- The replay phase of `run_phases`: whether the run goes on. -/
def replayPhase (exp : Experiment F) : Nat → M F Bool
  | 0 => Proc.halt
  | fuel + 1 => do
    let r ← Proc.get
    match r.replayQueue with
    | [] => pure true
    | intent :: rest => do
      Proc.modify fun r => { r with replayQueue := rest, current := some intent }
      if ← handleControl exp fuel then
        if ← replayIntent exp intent then do
          setStatus .goalReached
          pure false
        else replayPhase exp fuel
      else pure false

/-- The budgets of `budget_exhausted` that are counted. -/
def budgetSpent (exp : Experiment F) (r : Runner F) : Option RuntimeReason :=
  if 0 < exp.budgets.maxNodes ∧ exp.budgets.maxNodes ≤ r.commitState.tree.len then
    some .maxNodes
  else if 0 < exp.budgets.maxExpansions ∧ exp.budgets.maxExpansions ≤ r.expansions then
    some .maxExpansions
  else if 0 < exp.budgets.maxGuestInstructions ∧
      exp.budgets.maxGuestInstructions ≤ r.guestInstructionsUsed then
    some .maxGuestInstructions
  else none

/-- `budget_exhausted`. -/
def budgetExhausted (exp : Experiment F) : M F (Option RuntimeReason) := do
  let r ← Proc.get
  match budgetSpent exp r with
  | some reason => pure (some reason)
  | none => do
    let spent ← ask .wallClockSpent
    pure (if 0 < exp.budgets.maxWallClockS ∧ spent then some .maxWallClock else none)

def endWith (status : ExperimentState) (reason : RuntimeReason) : M F Unit :=
  Proc.modify fun r => { r with status := status, failureReason := some reason }

/-- The inner loop of `run_loop`: select and dispatch while there is capacity. -/
def fillPipeline (exp : Experiment F) : Nat → M F Unit
  | 0 => Proc.halt
  | fuel + 1 => do
    let r ← Proc.get
    if max exp.maxInflightBatches 1 ≤ r.inflight.length ∨ r.commitState.frontier.entries = [] then
      pure ()
    else do
      noting .selecting
      match selectNode exp r with
      | .error e => Proc.fail e
      | .ok none => pure ()
      | .ok (some node) => do
        dispatchIntent exp (buildIntent exp r node)
        fillPipeline exp fuel

/-- `run_loop`. -/
def runLoop (exp : Experiment F) : Nat → M F Unit
  | 0 => Proc.halt
  | fuel + 1 => do
    if ← handleControl exp fuel then
      match ← budgetExhausted exp with
      | some reason => do
        drainInflight exp fuel
        endWith .budgetExhausted reason
      | none => do
        fillPipeline exp fuel
        let r ← Proc.get
        if r.inflight.isEmpty then endWith .budgetExhausted .frontierExhausted
        else
          match ← nextCompleted with
          | none => pure ()
          | some done => do
            takeInflight done.seq
            let goal ← committing done.seq (commitCompleted exp done)
            publishStatus
            if ← afterCommit exp goal then do
              drainInflight exp fuel
              setStatus .goalReached
            else runLoop exp fuel
    else pure ()

/-- `run_phases`, past the wait of a runner resumed as paused. -/
def replayAndLoop (exp : Experiment F) (fuel : Nat) : M F Unit := do
  if ← replayPhase exp fuel then runLoop exp fuel else pure ()

/-- `run_phases`. -/
def runPhases (exp : Experiment F) (fuel : Nat) : M F Unit := do
  let r ← Proc.get
  if r.status = .paused then do
    publishStatus
    if ← park fuel then replayAndLoop exp fuel else pure ()
  else replayAndLoop exp fuel

/-- A failed run has a status and a catalogued reason. -/
def recordFailure : Except ClientError Unit → M F Unit
  | .ok () => pure ()
  | .error e => endWith .failed (e.reason.getD .runtimeError)

/-- The final checkpoint of `run`; its failure is only recorded. -/
def finalCheckpoint (exp : Experiment F) : M F Unit := do
  match ← Proc.attempt (checkpoint exp) with
  | .ok () => pure ()
  | .error e => do
    let r ← Proc.get
    runIf r.failureReason.isNone (endWith .failed (e.reason.getD .runtimeError))

/-- `run`. -/
def run (exp : Experiment F) (fuel : Nat) : M F Unit := do
  let result ← Proc.attempt (runPhases exp fuel)
  recordFailure result
  let r ← Proc.get
  runIf (r.failureReason ≠ some .casOwnershipLost) (finalCheckpoint exp)
  publishStatus

/-- A process from its start to its end. -/
def process (exp : Experiment F) (fuel : Nat) : M F Unit := do
  start exp fuel
  run exp fuel

/-- A process as the world sees it: its memory is gone when it ends. -/
def boot (exp : Experiment F) (fuel : Nat) : Prog (Op F) (Ans F) Unit :=
  (process exp fuel (Runner.initial exp)).bind fun _ => .ret ()

end Orchestrator.Server
