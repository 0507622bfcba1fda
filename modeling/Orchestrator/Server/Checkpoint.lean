import Orchestrator.Server.Calls

/-! # Server — Checkpoint

Ownership of the checkpoint and the checkpoint itself: the scorer's archive, the record
built from the runner's memory, the conditional put, and the truncation of the write-ahead
entries the new checkpoint covers.
-/

namespace Orchestrator.Server

open Core Services Lib

variable {F : Type} [Float64 F]

def ownershipLost (detail : String) : ClientError :=
  ⟨.failedPrecondition, some .casOwnershipLost, detail⟩

/-- The error of `ensure_checkpoint_owner` when its read failed. -/
def ownerReadError (e : ClientError) : ClientError :=
  match e.kind with
  | .notFound | .failedPrecondition | .alreadyExists => ownershipLost e.detail
  | _ => e

/-- `ensure_checkpoint_owner`. -/
def ensureCheckpointOwner : M F Unit := do
  let r ← Proc.get
  match r.ckptGeneration with
  | none => pure ()
  | some expected =>
    match ← ask .getCheckpoint with
    | .ok (_, generation) =>
      if generation = expected then pure ()
      else Proc.fail (ownershipLost "checkpoint generation differs from the owned one")
    | .error e => Proc.fail (ownerReadError e)

/-- `effective_checkpoint_seq`. -/
def effectiveCheckpointSeq (r : Runner F) : Nat :=
  match r.replayQueue with
  | [] => r.batchSeq
  | intent :: _ => intent.seq

/-- The weights of one frontier node; a streak is stored in sixteen bits. -/
def frontierEntry (s : CommitState F) (id : NodeId) : Option FrontierEntry :=
  (s.tree.get id).map fun record =>
    { node := id, visits := record.visits, exhausted := record.exhausted
      consecutiveAllDup := min ((s.allDuplicateStreak id).getD 0) (2 ^ 16 - 1) }

/-- The loop of `build_checkpoint` over the frontier. -/
def frontierEntries (s : CommitState F) : List NodeId → Option (List FrontierEntry)
  | [] => some []
  | id :: rest =>
    match frontierEntry s id, frontierEntries s rest with
    | some entry, some entries => some (entry :: entries)
    | _, _ => none

/-- `build_checkpoint`; `none` is the error of a frontier node missing from the tree. -/
def buildCheckpoint (exp : Experiment F) (r : Runner F) (archive : ArchiveSnapshot) :
    Option (Checkpoint F) :=
  (frontierEntries r.commitState (r.commitState.frontier.entries.insertionSort (· ≤ ·))).map
    fun frontier =>
    { batchSeq := effectiveCheckpointSeq r
      expansions := r.expansions
      guestInstructions := r.guestInstructionsUsed
      frontier
      scorerArchiveRef := archive
      scorerArchiveSeq := archive.archiveSeq
      scorerCheckpointId := r.expansions
      featureMapVersion := r.ladder.featureMapVersion
      featureMapHash := exp.featureMapHash
      scoringProgramHash := exp.scoringProgramHash
      synthConfigFingerprint := r.fingerprint.getD 0
      cellMirror := r.commitState.cellMirror.sortedCounts
      seen := r.commitState.seen.sortedEntries
      plateau :=
        { bestScore := r.bestScore
          observations := r.stall.observations
          observationsSinceImprovement := r.stall.observationsSinceImprovement
          completedStallWindows := r.stall.completedStallWindows
          level := r.ladder.level.get }
      goalNodes := r.goalNodes
      status := r.status }

/-- The archive half of `checkpoint`: a straggler is waited for once. -/
def checkpointArchive (checkpointId : Nat) : M F ArchiveSnapshot := do
  let first ← rpc (ask (.checkpointArchive checkpointId))
  let r ← Proc.get
  if first.archiveSeq = r.scorerArchiveSeq then pure first
  else
    let second ← rpc (ask (.checkpointArchive checkpointId))
    if second.archiveSeq = r.scorerArchiveSeq then pure second
    else Proc.fail ⟨.failedPrecondition, some .archiveSeqMismatch, "archive differs from applied"⟩

/-- The error of a conditional put that did not go through. -/
def casError (e : ClientError) : ClientError :=
  match e.kind with
  | .failedPrecondition | .alreadyExists => ownershipLost e.detail
  | _ => e

/-- The conditional put: the new generation is owned. -/
def putCheckpoint (value : Checkpoint F) : M F Unit := do
  let r ← Proc.get
  match ← ask (.putCheckpoint r.ckptGeneration value) with
  | .ok generation => Proc.modify fun r => { r with ckptGeneration := some generation }
  | .error e => Proc.fail (casError e)

/-- Deletes one write-ahead entry; a missing one is fine. -/
def deleteWalEntry (seq : Nat) : M F Unit := do
  match ← ask (.deleteWal seq) with
  | .ok () => pure ()
  | .error e => if e.kind = .notFound then pure () else Proc.fail e

/-- The truncation loop. -/
def truncateWal : List Nat → M F Unit
  | [] => pure ()
  | seq :: rest => do
    deleteWalEntry seq
    truncateWal rest

/-- The truncation of `checkpoint`: everything from the floor up to the covered number. -/
def truncateTo (seq : Nat) : M F Unit := do
  let r ← Proc.get
  truncateWal (List.range' r.walFloor (seq - r.walFloor))
  Proc.modify fun r => { r with walFloor := seq }

/-- Builds the record and puts it. -/
def persistCheckpoint (exp : Experiment F) (archive : ArchiveSnapshot) : M F Unit := do
  let r ← Proc.get
  match buildCheckpoint exp r archive with
  | none => Proc.fail (.new .internal "frontier node missing from tree")
  | some value => do
    crashCheck .beforeCasPut
    putCheckpoint value

/-- `checkpoint`. -/
def checkpoint (exp : Experiment F) : M F Unit := do
  noting .checkpointBegan
  let r ← Proc.get
  crashCheck .beforeCheckpointArchive
  let archive ← checkpointArchive r.expansions
  crashCheck .afterCheckpointArchive
  persistCheckpoint exp archive
  crashCheck .afterCasPut
  crashCheck .beforeWalDelete
  truncateTo (effectiveCheckpointSeq r)
  crashCheck .afterWalDelete
  Proc.modify fun r =>
    { r with checkpointedBatchSeq := effectiveCheckpointSeq r, commitsSinceCheckpoint := 0 }

/-- `maybe_checkpoint`. The clock decides whether the time cadence is due. -/
def maybeCheckpoint (exp : Experiment F) : M F Unit := do
  let r ← Proc.get
  let dueTime ← ask .checkpointTimeDue
  let dueCommits := decide (0 < exp.everyCommits ∧ exp.everyCommits ≤ r.commitsSinceCheckpoint)
  runIf (dueCommits || (decide (0 < exp.everySeconds) && dueTime)) (checkpoint exp)

end Orchestrator.Server
