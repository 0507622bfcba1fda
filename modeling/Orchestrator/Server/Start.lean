import Orchestrator.Server.Commit

/-! # Server — Start

How a process comes up: a checkpoint decides between a fresh bootstrap and a resume. A
resume finishes an interrupted truncation, collects the write-ahead window, rebuilds the
tree from the store's rows, catches the mirrors up with the rows the checkpoint does not
know, restores the scorer's archive and queues the window for replay.
-/

namespace Orchestrator.Server

open Core Services Lib

variable {F : Type} [Float64 F]

/-! ### Fresh bootstrap -/

/-- The root's `CreateNode`. -/
def rootRequest (exp : Experiment F) (bringup : CompiledMap) (root : Capture)
    (result : ScoreResult F) : CreateNodeRequest F :=
  { nodeId := NodeId.root
    parentNodeId := none
    snapshotRef := root.snapshot
    inputLogId := none
    status := .frontier
    progressScore := result.progressScore
    noveltyScore := result.noveltyScore
    attrs :=
      { determinismClass := root.determinismClass
        createdByBurst := none
        decodedFeatures := decodedMap exp bringup result
        frameCounter := root.frameCounter
        stateHash := result.stateHash
        cellKey := result.cellKey
        stage := result.stage } }

def rootPayload (root : Capture) (result : ScoreResult F) : NodePayload F :=
  { snapshot := root.snapshot
    score := result.progressScore
    noveltyAtCommit := result.noveltyScore
    cell := result.cellKey
    stateHash := result.stateHash
    stage := result.stage
    frameCounter := root.frameCounter }

/-- The second half of `bootstrap_fresh`: the root is scored. -/
def bootstrapRoot (exp : Experiment F) (root : Capture) (result : ScoreResult F) : M F Unit := do
  Proc.modify fun r =>
    { r with
      commitState := .fromRoot (rootPayload root result)
      runtimes := (NodeId.root, ⟨root.snapshot, root.determinismClass⟩) :: r.runtimes }
  let r ← Proc.get
  rpc (ask (.createNode (rootRequest exp r.bringup root result)))
  replayCommits [⟨result.stateHash, result.cellKey⟩]
  Proc.modify (observeScore NodeId.root result.progressScore.get)
  checkpoint exp

/-- `bootstrap_fresh`. -/
def bootstrapFresh (exp : Experiment F) : M F Unit := do
  let root ← rpc (ask .bootstrap)
  match root.featureBytes with
  | none => Proc.fail (.new .dataLoss "bootstrap capture had no feature bytes")
  | some bytes => do
    let results ← scoreBatch [bytes]
    match results with
    | [] => Proc.fail (.new .dataLoss "scorer returned no root result")
    | result :: _ => bootstrapRoot exp root result

/-! ### The write-ahead window -/

/-- The downward loop of `load_wal_entries`: entries below the checkpoint are deleted. -/
def finishTruncation : Nat → Nat → M F Unit
  | _, 0 => pure ()
  | 0, _ => Proc.halt
  | fuel + 1, seq + 1 => do
    match ← ask (.getWal seq) with
    | .ok _ => do
      deleteWalEntry seq
      finishTruncation fuel seq
    | .error e =>
      if e.kind = .notFound then pure ()
      else if e.isRetryable then finishTruncation fuel (seq + 1)
      else Proc.fail e

/-- The upward loop of `load_wal_entries`, which stops after enough misses in a row. -/
def collectWindow (inflight : Nat) :
    Nat → Nat → Nat → List ExpansionIntent → M F (List ExpansionIntent)
  | 0, _, _, _ => Proc.halt
  | fuel + 1, seq, misses, intents =>
    if inflight + 1 < misses then pure intents
    else do
      match ← ask (.getWal seq) with
      | .ok intent => collectWindow inflight fuel (seq + 1) 0 (intents ++ [intent])
      | .error e =>
        if e.kind = .notFound then collectWindow inflight fuel (seq + 1) (misses + 1) intents
        else if e.isRetryable then collectWindow inflight fuel seq misses intents
        else Proc.fail e

/-- `load_wal_entries`. -/
def loadWalEntries (exp : Experiment F) (fuel batchSeq : Nat) : M F (List ExpansionIntent) := do
  finishTruncation fuel batchSeq
  let intents ← collectWindow (max exp.maxInflightBatches 1) fuel batchSeq 0 []
  pure (intents.insertionSort (·.seq ≤ ·.seq))

/-! ### Adoption of the store's rows -/

/-- `payload_from_store`. -/
def payloadFromStore (row : Row F) : NodePayload F :=
  { snapshot := row.snapshotRef
    score := row.progressScore
    noveltyAtCommit := row.noveltyScore
    cell := row.attrs.cellKey
    stateHash := row.attrs.stateHash
    stage := row.attrs.stage
    frameCounter := row.attrs.frameCounter }

/-- The rebuild loop of `resume`, over the rows after the root. -/
def rebuildFrom (t : Tree F) : List (Row F) → Except ClientError (Tree F)
  | [] => .ok t
  | row :: rest =>
    match row.parentNodeId with
    | none => .error (.new .dataLoss "non-root node without parent")
    | some parent =>
      match t.insertChild parent (payloadFromStore row) with
      | .error _ => .error (.new .dataLoss "tree rebuild failed")
      | .ok (assigned, t') =>
        if assigned = row.nodeId then rebuildFrom t' rest
        else .error (.new .dataLoss "store node ids are not dense")

/-- The tree of the store's rows, which are in node id order. -/
def rebuildTree : List (Row F) → Except ClientError (Tree F)
  | [] => .error (.new .dataLoss "checkpoint exists but the store has no root node")
  | row :: rest =>
    if row.nodeId = NodeId.root then rebuildFrom (.fromRoot (payloadFromStore row)) rest
    else .error (.new .dataLoss "checkpoint exists but the store has no root node")

/-- What the adoption loop of `resume` builds up. -/
structure Adoption (F : Type) [Float64 F] where
  tree : Tree F
  frontier : Frontier
  mirror : CellMirror
  seen : SeenMap
  postCheckpoint : List CommittedState
  streaks : List (NodeId × Nat)
  goalNodes : List NodeId
  runtimes : List (NodeId × NodeRuntime)
  nodeBursts : List ((NodeId × Nat) × NodeId)

def visitTimes (id : NodeId) : Nat → Tree F → Tree F
  | 0, t => t
  | n + 1, t => visitTimes id n (okOr t ((t.incrementVisits id).map (·.2)))

/-- A row the checkpoint's seen map does not know catches the mirrors up. `none` is the
panic of a full mirror counter. -/
def adoptSeen (cp : Checkpoint F) (row : Row F) (a : Adoption F) : Option (Adoption F) :=
  if !cp.seen.any (·.1 = row.attrs.stateHash) && (a.seen.get row.attrs.stateHash).isNone then
    (a.mirror.bump row.attrs.cellKey).map fun mirror =>
      { a with
        mirror
        seen := a.seen.insert row.attrs.stateHash row.nodeId
        postCheckpoint :=
          if row.nodeId = NodeId.root then a.postCheckpoint
          else a.postCheckpoint ++ [⟨row.attrs.stateHash, row.attrs.cellKey⟩] }
  else some a

/-- A frontier row with the weights the checkpoint has for it. -/
def adoptWeights (entry : Option FrontierEntry) (id : NodeId) (a : Adoption F) : Adoption F :=
  match entry with
  | none => a
  | some entry =>
    { a with
      tree := visitTimes id entry.visits a.tree
      streaks := a.streaks ++ [(id, entry.consecutiveAllDup)] }

/-- The row's status, in the tree, the frontier and the goal list. -/
def adoptStatus (cp : Checkpoint F) (row : Row F) (a : Adoption F) : Adoption F :=
  match row.status with
  | .frontier =>
    adoptWeights (cp.frontier.reverse.find? (·.node = row.nodeId)) row.nodeId
      { a with frontier := okOr a.frontier (a.frontier.insert row.nodeId) }
  | .goal =>
    { a with
      tree := okOr a.tree (a.tree.markGoal row.nodeId)
      goalNodes :=
        if a.goalNodes.contains row.nodeId then a.goalNodes else a.goalNodes ++ [row.nodeId] }
  | .expanded => { a with tree := okOr a.tree (a.tree.markExpanded row.nodeId) }
  | .pruned => { a with tree := okOr a.tree (a.tree.markPruned row.nodeId) }

/-- The row's runtime and burst. -/
def adoptRuntime (row : Row F) (a : Adoption F) : Adoption F :=
  { a with
    runtimes := (row.nodeId, ⟨row.snapshotRef, row.attrs.determinismClass⟩) :: a.runtimes
    nodeBursts :=
      match row.parentNodeId, row.attrs.createdByBurst with
      | some parent, some burst => ((parent, burst.burstId), row.nodeId) :: a.nodeBursts
      | _, _ => a.nodeBursts }

/-- The adoption loop of `resume`. -/
def adoptRows (cp : Checkpoint F) : List (Row F) → Adoption F → Option (Adoption F)
  | [], a => some a
  | row :: rest, a =>
    match adoptSeen cp row a with
    | none => none
    | some a => adoptRows cp rest (adoptRuntime row (adoptStatus cp row a))

/-! ### Resume -/

/-- The start of the adoption loop: the checkpoint's mirrors over the rebuilt tree. -/
def adoptionStart (cp : Checkpoint F) (tree : Tree F) (r : Runner F) : Adoption F :=
  { tree
    frontier := .empty
    mirror := .fromSortedCounts cp.cellMirror
    seen := .fromSortedEntries cp.seen
    postCheckpoint := []
    streaks := []
    goalNodes := r.goalNodes
    runtimes := r.runtimes
    nodeBursts := r.nodeBursts }

/-- One goal of the checkpoint added to the goals found in the store. -/
def mergeGoal (goals : List NodeId) (goal : NodeId) : List NodeId :=
  if goals.contains goal then goals else goals ++ [goal]

/-- The runner's memory after the adoption. -/
def installAdoption (cp : Checkpoint F) (a : Adoption F) (r : Runner F) : Runner F :=
  { r with
    commitState := .fromParts a.tree a.frontier a.mirror a.seen a.streaks
    goalNodes :=
      (cp.goalNodes.foldl mergeGoal (a.goalNodes.insertionSort (· ≤ ·))).insertionSort (· ≤ ·)
    runtimes := a.runtimes
    nodeBursts := a.nodeBursts }

/-- `batch_seq` after a resume: past the checkpoint and past every loaded intent. -/
def nextSeq (batchSeq : Nat) (intents : List ExpansionIntent) : Nat :=
  intents.foldl (fun next intent => max next (intent.seq + 1)) batchSeq

/-- Steps 6 and 7 of `resume`: fingerprint, queue, counters, plateau, status. -/
def restoreBooks (exp : Experiment F) (cp : Checkpoint F) (intents : List ExpansionIntent)
    (r : Runner F) : Runner F :=
  { r with
    fingerprint :=
      if cp.synthConfigFingerprint = 0 then r.fingerprint else some cp.synthConfigFingerprint
    batchSeq := nextSeq cp.batchSeq intents
    walFloor := match intents with
      | [] => cp.batchSeq
      | intent :: _ => intent.seq
    replayQueue := intents
    expansions := cp.expansions
    guestInstructionsUsed := cp.guestInstructions
    bestScore := cp.plateau.bestScore
    stall :=
      { windowN := exp.windowN
        epsilonS := exp.epsilonS
        observations := cp.plateau.observations
        bestScore := cp.plateau.bestScore.bind FiniteF64.new
        observationsSinceImprovement := cp.plateau.observationsSinceImprovement
        completedStallWindows := cp.plateau.completedStallWindows }
    ladder := ⟨exp.maxLevel, .fromCapped cp.plateau.level, cp.featureMapVersion⟩
    status := if cp.status = .paused then .paused else .running }

/-- Step 5 of `resume`: the archive is restored and caught up. -/
def restoreArchive (cp : Checkpoint F) (post : List CommittedState) : M F Unit := do
  let seq ← rpc (ask (.restoreArchive cp.scorerCheckpointId cp.scorerArchiveRef))
  if seq = cp.scorerArchiveSeq then do
    Proc.modify fun r => { r with scorerArchiveSeq := seq }
    replayCommits post
  else
    Proc.fail ⟨.failedPrecondition, some .archiveSeqMismatch, "restore returned another seq"⟩

/-- Steps 3 and 4 of `resume`: the tree and the mirrors from the store's rows. -/
def adoptStore (cp : Checkpoint F) (rows : List (Row F)) : M F (List CommittedState) := do
  let r ← Proc.get
  match rebuildTree rows with
  | .error e => Proc.fail e
  | .ok tree =>
    match adoptRows cp rows (adoptionStart cp tree r) with
    | none => Proc.halt
    | some a => do
      Proc.modify (installAdoption cp a)
      pure a.postCheckpoint

/-- `resume`. -/
def resume (exp : Experiment F) (fuel : Nat) (cp : Checkpoint F) (generation : Nat) :
    M F Unit := do
  Proc.modify fun r =>
    { r with ckptGeneration := some generation, checkpointedBatchSeq := cp.batchSeq }
  let intents ← loadWalEntries exp fuel cp.batchSeq
  let rows ← rpc (ask .queryNodes)
  let post ← adoptStore cp rows
  restoreArchive cp post
  Proc.modify (restoreBooks exp cp intents)

/-! ### Start -/

/-- The existing checkpoint, which decides between a fresh start and a resume. -/
def readCheckpoint : M F (Option (Checkpoint F × Nat)) := do
  match ← ask .getCheckpoint with
  | .ok entry => pure (some entry)
  | .error e => if e.kind = .notFound then pure none else Proc.fail e

/-- A resume after the checks of the checkpoint's hashes against the bring-up's. -/
def resumeFrom (exp : Experiment F) (fuel : Nat) (cp : Checkpoint F) (generation : Nat) :
    M F Unit :=
  if cp.featureMapHash ≠ exp.featureMapHash then
    Proc.fail (.new .failedPrecondition "feature map hash does not match the checkpoint")
  else if cp.scoringProgramHash ≠ exp.scoringProgramHash then
    Proc.fail (.new .failedPrecondition "scoring program hash does not match the checkpoint")
  else resume exp fuel cp generation

def startFrom (exp : Experiment F) (fuel : Nat) : Option (Checkpoint F × Nat) → M F Unit
  | none => do
    let compiled ← bringUp exp 0 false
    Proc.modify fun r => { r with bringup := compiled }
    bootstrapFresh exp
  | some (cp, generation) => do
    let compiled ← bringUp exp cp.featureMapVersion (cp.featureMapVersion ≠ 0)
    Proc.modify fun r => { r with bringup := compiled }
    resumeFrom exp fuel cp generation

/-- `start`. -/
def start (exp : Experiment F) (fuel : Nat) : M F Unit := do
  let existing ← readCheckpoint
  startFrom exp fuel existing
  publishStatus
  noting .started

/-- The runner before it is brought up, over a placeholder root. -/
def Runner.initial (exp : Experiment F) : Runner F :=
  { bringup := ⟨0, 0, []⟩
    commitState := .fromRoot
      { snapshot := 0, score := .zero, noveltyAtCommit := .zero, cell := 0, stateHash := 0
        stage := 0, frameCounter := 0 }
    runtimes := []
    nodeBursts := []
    stall := .new exp.windowN exp.epsilonS
    ladder := .new exp.maxLevel
    fingerprints := ⟨[]⟩
    fingerprint := none
    batchSeq := 0
    expansions := 0
    bestScore := none
    goalNodes := []
    bestNode := none
    discardedDup := 0
    discardedRegression := 0
    guestInstructionsUsed := 0
    scorerArchiveSeq := 0
    ckptGeneration := none
    checkpointedBatchSeq := 0
    walFloor := 0
    commitsSinceCheckpoint := 0
    status := .running
    failureReason := none
    replayQueue := []
    pipeline := []
    inflight := []
    current := none
    statusTx := [.initial] }

end Orchestrator.Server
