import Orchestrator.Lib.Program
import Orchestrator.Server.State

/-! # Server — Calls

The calls a runner makes and how the environment answers them. An RPC is answered by the
service's own function, or fails for good after its retries with its effect applied or not.
Where the answer is not a service's to decide (which batch completes, what its jobs
returned, what the control channel holds, what the clock says) the environment chooses.

* `respond`: the answer to a call under a choice, and the world after it.
* `Answers`: all answers a call can get.
-/

namespace Orchestrator.Server

open Core Services Lib

variable {F : Type} [Float64 F]

inductive Op (F : Type) [Float64 F] where
  | getCheckpoint
  | putCheckpoint (expected : Option Nat) (value : Checkpoint F)
  | getWal (seq : Nat)
  | putWal (intent : ExpansionIntent)
  | deleteWal (seq : Nat)
  | createNode (req : CreateNodeRequest F)
  | updateNode (update : NodeUpdate)
  | queryNodes
  | buildPropose (intent : ExpansionIntent) (spec : BuildSpec) (replay : Bool)
  | propose (req : ProposeRequest F)
  | loadFeatureMap (hash layout : Nat) (rebin : Bool)
  | loadScoringProgram (hash : Nat)
  | synthBringup
  | bootstrap
  | scoreBatch (states : List Bytes)
  | checkpointArchive (checkpointId : Nat)
  | restoreArchive (checkpointId : Nat) (archiveRef : ArchiveSnapshot)
  | replayCommits (states : List CommittedState)
  | submit (batch : Batch)
  | nextCompleted (pending : List Batch)
  | tryRecv
  | recv
  | checkpointTimeDue
  | wallClockSpent
  | shouldCrash (point : CrashPoint)
  /-- Not a call of the source: it makes the log record a moment of the run. -/
  | record (e : Event F)

/-- The type of the answer to a call. -/
@[reducible] def Ans (F : Type) [Float64 F] : Op F → Type
  | .getCheckpoint => Except ClientError (Checkpoint F × Nat)
  | .putCheckpoint _ _ => Except ClientError Nat
  | .getWal _ => Except ClientError ExpansionIntent
  | .queryNodes => Except ClientError (List (Row F))
  | .buildPropose _ _ _ => Except ClientError (ProposeRequest F)
  | .propose _ => Except ClientError ProposeResponse
  | .bootstrap => Except ClientError Capture
  | .scoreBatch _ => Except ClientError (Nat × List (ScoreResult F))
  | .checkpointArchive _ => Except ClientError ArchiveSnapshot
  | .restoreArchive _ _ => Except ClientError Nat
  | .nextCompleted _ => Except ClientError (Option (Nat × List JobOutcome))
  | .tryRecv | .recv => Option Control
  | .checkpointTimeDue | .wallClockSpent | .shouldCrash _ => Bool
  | .record _ => Unit
  | _ => Except ClientError Unit

/-- What the environment decides about one call. -/
inductive Choice where
  | answer
  | fault (e : ClientError) (applied : Bool)
  | completes (index : Nat) (jobs : List JobOutcome)
  | ended
  | proposes (response : ProposeResponse)
  | control (c : Option Control)
  | flag (b : Bool)

/-- The errors an RPC is retried on until it succeeds, or that are themselves an answer:
nothing failed for good. -/
def tolerated : Op F → ClientError → Bool
  | .getCheckpoint, e | .deleteWal _, e => e.kind = .notFound
  | .getWal _, e => e.kind = .notFound || e.isRetryable
  | _, _ => false

/-- The failure of a call, recorded unless the caller takes it as an answer. -/
def failWith {α : Type} (op : Op F) (e : ClientError) (w : World F) :
    Except ClientError α × World F :=
  (.error e, if tolerated op e then w else w.record (.rpcFailed e))

/-- The errors a call can fail with for good: the last of its attempts failed, or it was
retried after an attempt whose answer was lost and met its own effect. -/
def transient (op : Op F) (e : ClientError) (applied : Bool) : Bool :=
  match op with
  | .putCheckpoint _ _ => e.isRetryable || (applied && e.kind = .failedPrecondition)
  | _ => e.isRetryable

/-- The service's answer to an RPC, where `run` is its answer with its effect. -/
def answered {α : Type} (op : Op F) (w : World F) (run : Except ClientError (α × World F)) :
    Except ClientError α × World F :=
  match run with
  | .ok (a, w') => (.ok a, w')
  | .error e => failWith op e w

/-- The world after the effect of an RPC, if it has one. -/
def afterEffect {α : Type} (w : World F) (run : Except ClientError (α × World F)) : World F :=
  match run with
  | .ok (_, w') => w'
  | .error _ => w

/-- An RPC: the service answers it, or it fails with its effect applied or not. -/
def fallible {α : Type} (op : Op F) (c : Choice) (w : World F)
    (run : Except ClientError (α × World F)) : Except ClientError α × World F :=
  match c with
  | .fault e applied =>
    if transient op e applied then failWith op e (if applied then afterEffect w run else w)
    else answered op w run
  | _ => answered op w run

/-- A store mutation as an effect on the world. -/
def onStore (w : World F) (x : Except ClientError (Store F)) :
    Except ClientError (Unit × World F) :=
  match x with
  | .ok store => .ok ((), w.setStore store)
  | .error e => .error e

/-- A scorer mutation as an effect on the world. -/
def onScorer (w : World F) (x : Except ClientError Scorer) :
    Except ClientError (Unit × World F) :=
  match x with
  | .ok scorer => .ok ((), w.setScorer scorer)
  | .error e => .error e

/-- A read as an effect on the world. -/
def reading {α : Type} (w : World F) (x : Except ClientError α) :
    Except ClientError (α × World F) :=
  match x with
  | .ok a => .ok (a, w)
  | .error e => .error e

/-- The answer to a call under a choice of the environment, and the world after it. -/
def respond (exp : Experiment F) : (op : Op F) → Choice → World F → Ans F op × World F
  | .getCheckpoint, c, w => fallible .getCheckpoint c w (reading w w.store.getCheckpoint)
  | .putCheckpoint expected value, c, w =>
    fallible (.putCheckpoint expected value) c w <|
      match w.store.putCheckpoint expected value with
      | .error e => .error e
      | .ok (generation, store) =>
        .ok (generation, (w.setStore store).record (.checkpointed value.batchSeq))
  | .getWal seq, c, w => fallible (.getWal seq) c w (reading w (w.store.getWal seq))
  | .putWal intent, c, w =>
    fallible (.putWal intent) c w
      (.ok ((), (w.setStore (w.store.putWal intent.seq intent)).record (.walWritten intent.seq)))
  | .deleteWal seq, c, w =>
    fallible (.deleteWal seq) c w <|
      match w.store.deleteWal seq with
      | .error e => .error e
      | .ok store => .ok ((), (w.setStore store).record (.walDeleted seq))
  | .createNode req, c, w =>
    fallible (.createNode req) c w (onStore w (w.store.createNode req))
  | .updateNode update, c, w =>
    fallible (.updateNode update) c w (onStore w (w.store.updateNode update))
  | .queryNodes, c, w =>
    fallible .queryNodes c w <| reading w <|
      if w.store.rows.isEmpty then .error (.new .notFound "unknown experiment")
      else .ok w.store.queryNodes
  | .buildPropose intent spec replay, c, w =>
    fallible (.buildPropose intent spec replay) c w
      (reading (w.record (.proposed intent replay)) (buildProposeRequest w.store spec))
  | .propose _, .proposes response, w => (.ok response, w)
  | .propose req, c, w => fallible (.propose req) c w (.ok (exp.propose req, w))
  | .loadFeatureMap hash layout rebin, c, w =>
    fallible (.loadFeatureMap hash layout rebin) c w
      (onScorer w (w.scorer.loadFeatureMap hash layout rebin))
  | .loadScoringProgram hash, c, w =>
    fallible (.loadScoringProgram hash) c w (onScorer w (w.scorer.loadScoringProgram hash))
  | .synthBringup, c, w => fallible .synthBringup c w (.ok ((), w))
  | .bootstrap, c, w => fallible .bootstrap c w (.ok (exp.bootstrap, w))
  | .scoreBatch states, c, w =>
    fallible (.scoreBatch states) c w (reading w (w.scorer.scoreBatch exp.scoreState states))
  | .checkpointArchive id, c, w =>
    fallible (.checkpointArchive id) c w <|
      match w.scorer.checkpointArchive id with
      | .error e => .error e
      | .ok (snapshot, scorer) => .ok (snapshot, w.setScorer scorer)
  | .restoreArchive id archiveRef, c, w =>
    fallible (.restoreArchive id archiveRef) c w <|
      match w.scorer.restoreArchive id archiveRef with
      | .error e => .error e
      | .ok (seq, scorer) => .ok (seq, w.setScorer scorer)
  | .replayCommits states, c, w =>
    fallible (.replayCommits states) c w (onScorer w (w.scorer.replayCommits states))
  | .submit batch, c, w =>
    fallible (.submit batch) c w (.ok ((), w.record (.submitted batch.seq)))
  | .nextCompleted pending, c, w =>
    match c, pending with
    | .fault e _, _ => failWith (.nextCompleted pending) e w
    | .ended, _ => (.ok none, w)
    | .completes index jobs, _ =>
      -- In deterministic mode batches are handed back in the order of their numbers.
      (.ok (some (if exp.mode = .deterministic then 0 else index, jobs)), w)
    | _, [] => (.ok none, w)
    | _, batch :: _ => (.ok (some (0, exp.execute batch)), w)
  | .tryRecv, c, w | .recv, c, w =>
    match c with
    | .control message => (message, w)
    | _ => (none, w)
  | .checkpointTimeDue, c, w | .wallClockSpent, c, w | .shouldCrash _, c, w =>
    match c with
    | .flag b => (b, w)
    | _ => (false, w)
  | .record e, _, w => ((), w.record e)

/-- Everything the environment may do with a call. -/
def env (exp : Experiment F) : Answers (Op F) (Ans F) (World F) :=
  fun op w r w' => ∃ c, respond exp op c w = (r, w')

/-! ### The runner's computations -/

abbrev M (F : Type) [Float64 F] := Proc (Op F) (Ans F) (Runner F) ClientError

def ask (op : Op F) : M F (Ans F op) := Proc.call op

/-- An RPC whose error is passed on with `?`. -/
def rpc {α : Type} (x : M F (Except ClientError α)) : M F α := x >>= Proc.ofExcept

/-- `crash_check`: the process is gone when the crash policy fires. -/
def crashCheck (point : CrashPoint) : M F Unit := do
  if ← ask (.shouldCrash point) then Proc.halt else pure ()

/-- Puts a moment of the run on the log. -/
def noting (e : Runner F → Event F) : M F Unit := do
  let r ← Proc.get
  ask (.record (e r))

def setStatus (status : ExperimentState) : M F Unit :=
  Proc.modify fun r => { r with status := status }

def Runner.snapshot (r : Runner F) : StatusSnapshot F where
  state := r.status
  escalationLevel := r.ladder.level.get
  expansionsSinceImprovement := r.stall.observationsSinceImprovement
  bestScore := r.bestScore
  goalNodes := r.goalNodes
  failureReason := r.failureReason

/-- `publish_status` -/
def publishStatus : M F Unit :=
  Proc.modify fun r => { r with statusTx := r.statusTx ++ [r.snapshot] }

end Orchestrator.Server
