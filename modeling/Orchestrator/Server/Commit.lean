import Orchestrator.Server.Checkpoint

/-! # Server — Commit

The two ways a completed batch is committed. `commit_completed` classifies all children in
memory with `commit_batch` and then writes them to the store one call at a time;
`commit_replayed` goes child by child, adopts those the store already has, and decides the
others with its own reading of the commit rules. Both end in the same bookkeeping.
-/

namespace Orchestrator.Server

open Core Services Lib

variable {F : Type} [Float64 F]

/-! ### Calls shared by both paths -/

/-- `bring_up`: the feature map coarsened `passes` times is compiled and loaded. -/
def bringUp (exp : Experiment F) (passes : Nat) (rebin : Bool) : M F CompiledMap := do
  let compiled ← Proc.ofExcept (exp.compiledMap passes)
  rpc (ask (.loadFeatureMap exp.featureMapHash compiled.layout rebin))
  rpc (ask (.loadScoringProgram exp.scoringProgramHash))
  rpc (ask .synthBringup)
  pure compiled

/-- `score_batch`, in score-only mode. -/
def scoreBatch (states : List Bytes) : M F (List (ScoreResult F)) := do
  let response ← rpc (ask (.scoreBatch states))
  Proc.modify fun r => { r with scorerArchiveSeq := response.1 }
  pure response.2

/-- `replay_commits`. -/
def replayCommits (states : List CommittedState) : M F Unit :=
  runIf (!states.isEmpty) (rpc (ask (.replayCommits states)))

/-- `decoded_map`. -/
def decodedMap (exp : Experiment F) (bringup : CompiledMap) (result : ScoreResult F) :
    List (String × F) :=
  (bringup.fieldNames.zip result.decoded).filterMap fun (name, value) =>
    if exp.decodedFeatures.contains name then value.map (name, ·) else none

/-- A job whose capture the scorer has answered for. -/
structure Item (F : Type) [Float64 F] where
  job : JobResult
  capture : Capture
  result : ScoreResult F

/-- The request of `create_child_node`. -/
def childRequest (exp : Experiment F) (bringup : CompiledMap) (id parent : NodeId)
    (it : Item F) (status : NodeStatus) : CreateNodeRequest F :=
  { nodeId := id
    parentNodeId := some parent
    snapshotRef := it.capture.snapshot
    inputLogId := it.capture.inputLogId
    status
    progressScore := it.result.progressScore
    noveltyScore := it.result.noveltyScore
    attrs :=
      { determinismClass := it.capture.determinismClass
        createdByBurst := some it.job.burst
        decodedFeatures := decodedMap exp bringup it.result
        frameCounter := it.capture.frameCounter
        stateHash := it.result.stateHash
        cellKey := it.result.cellKey
        stage := it.result.stage } }

/-- `create_child_node`: a row that exists already is fine. -/
def createChildNode (exp : Experiment F) (id parent : NodeId) (it : Item F)
    (status : NodeStatus) : M F Unit := do
  let r ← Proc.get
  match ← ask (.createNode (childRequest exp r.bringup id parent it status)) with
  | .ok () => pure ()
  | .error e => if e.kind = .alreadyExists then pure () else Proc.fail e

/-- The visit a discarded duplicate adds to the row it is routed to. -/
def visitRow : Option NodeId → M F Unit
  | none => pure ()
  | some existing => rpc (ask (.updateNode ⟨existing, none, 1, 0⟩))

/-! ### Bookkeeping -/

/-- `observe_score`. -/
def observeScore (node : NodeId) (value : F) (r : Runner F) : Runner F :=
  match FiniteF64.new value with
  | none => r
  | some score =>
    let (stall, observation) := r.stall.observe score
    let improves := match r.bestScore with
      | none => true
      | some best => decide (best < observation.bestScore.get)
    { r with
      stall
      bestNode := if observation.improved && improves then some node else r.bestNode
      bestScore := some observation.bestScore.get
      ladder := r.ladder.applyStallObservation observation }

/-- `parent_score`. -/
def parentScore (s : CommitState F) (parent : NodeId) : F :=
  match s.tree.get parent with
  | some record => record.payload.score.get
  | none => 0

/-- The jobs of a batch that were captured. An abandoned job is a gap. -/
def scorable (jobs : List JobOutcome) : List (JobResult × Capture) :=
  jobs.filterMap fun
    | .completed job => job.capture.map (job, ·)
    | .abandoned _ _ => none

/-- `guest_instructions_used` after one more capture, saturating. -/
def addIcount (used : Nat) (job : JobResult × Capture) : Nat :=
  min (used + job.2.icount) (2 ^ 64 - 1)

def addGuestInstructions (jobs : List JobOutcome) (r : Runner F) : Runner F :=
  let used := (scorable jobs).foldl addIcount r.guestInstructionsUsed
  { r with guestInstructionsUsed := used }

/-- The scorer's answers for the captured jobs of a batch. -/
def scoreJobs (jobs : List (JobResult × Capture)) : M F (List (ScoreResult F)) :=
  if jobs.isEmpty then pure []
  else scoreBatch (jobs.map fun job => job.2.featureBytes.getD [])

def items (jobs : List (JobResult × Capture)) (results : List (ScoreResult F)) : List (Item F) :=
  jobs.zipWith (fun job result => ⟨job.1, job.2, result⟩) results

theorem map_result_items (jobs : List (JobResult × Capture)) (results : List (ScoreResult F)) :
    (items jobs results).map (·.result) <+: results := by
  induction jobs generalizing results with
  | nil => exact List.nil_prefix
  | cons job rest ih =>
    cases results with
    | nil => exact List.prefix_rfl
    | cons result others => exact (List.prefix_cons_inj result).mpr (ih others)

/-- The payload of an item, with the novelty its cell has in a mirror. -/
def Item.payload (it : Item F) (mirror : CellMirror) : NodePayload F :=
  { snapshot := it.capture.snapshot
    score := it.result.progressScore
    noveltyAtCommit := .ofCount (mirror.count it.result.cellKey)
    cell := it.result.cellKey
    stateHash := it.result.stateHash
    stage := it.result.stage
    frameCounter := it.capture.frameCounter }

/-- A hung guest is committed like a pruned child. -/
def Item.prune (it : Item F) : Bool := it.result.prune || it.job.verdict = .guestHang

/-- What the loop over a batch accumulates: `committed_states` and `best_committed`. -/
structure Tally (F : Type) where
  committed : List CommittedState
  best : Option (NodeId × F)

/-- `best_committed` after one more candidate. -/
def betterOf (best : Option (NodeId × F)) (id : NodeId) (score : F) : Option (NodeId × F) :=
  match best with
  | none => some (id, score)
  | some (other, top) => if top < score then some (id, score) else some (other, top)

def Tally.commit (t : Tally F) (hash : StateHash) (cell : CellKey) : Tally F :=
  { t with committed := t.committed ++ [⟨hash, cell⟩] }

def Tally.improve (t : Tally F) (id : NodeId) (score : F) : Tally F :=
  { t with best := betterOf t.best id score }

/-- The runner's books after a batch: one more expansion, and the plateau observation of
the best committed score, or of the parent's when nothing was committed. -/
def finishBatch (parent : NodeId) (t : Tally F) (r : Runner F) : Runner F :=
  let r := { r with expansions := r.expansions + 1
                    commitsSinceCheckpoint := r.commitsSinceCheckpoint + 1 }
  match t.best with
  | some (node, score) => observeScore node score r
  | none => observeScore parent (parentScore r.commitState parent) r

def addGoal (goal : Option NodeId) (r : Runner F) : Runner F :=
  match goal with
  | none => r
  | some node =>
    if r.goalNodes.contains node then r else { r with goalNodes := r.goalNodes ++ [node] }

/-- `maybe_rebin`. -/
def maybeRebin (exp : Experiment F) : M F Unit := do
  let r ← Proc.get
  if r.ladder.featureMapVersion = r.bringup.passes then pure ()
  else
    let compiled ← bringUp exp r.ladder.featureMapVersion true
    Proc.modify fun r =>
      { r with
        bringup := compiled
        commitState :=
          { r.commitState with cellMirror := r.commitState.cellMirror.resetForRebin } }

/-- The end of both commits: the parent's row, the scorer's archive, the runner's books. -/
def settleBatch (exp : Experiment F) (parent : NodeId) (t : Tally F) (goal : Option NodeId) :
    M F (Option NodeId) := do
  let r ← Proc.get
  match r.commitState.tree.get parent with
  | none => Proc.halt
  | some record => do
    rpc (ask (.updateNode ⟨parent, some record.status, 1, 1⟩))
    replayCommits t.committed
    Proc.modify (finishBatch parent t)
    maybeRebin exp
    Proc.modify (addGoal goal)
    pure goal

/-- Runs a commit rule on the runner's memory. What it changed before failing stays. -/
def runCommit {α : Type} (x : CommitM F α) : M F α := do
  let r ← Proc.get
  match x r.commitState with
  | .ok a s => do
    Proc.modify fun r => { r with commitState := s }
    pure a
  | .error (.error _) s => do
    Proc.modify fun r => { r with commitState := s }
    Proc.fail (.new .internal "commit failed")
  | .error .panic _ => Proc.halt

/-! ### The live path -/

/-- One scored child. The duplicate verdict is the scorer's, or that an earlier sibling has
the same hash; the novelty is that of the mirror before the batch. -/
def scoredChild (mirror : CellMirror) (siblingDuplicate : Bool) (it : Item F) : ScoredChild F :=
  { payload := it.payload mirror
    duplicate := it.result.duplicate || siblingDuplicate
    prune := it.prune
    goal := it.result.goalHit }

/-- The loop of `commit_completed` that builds the scored children. -/
def scoredChildren (mirror : CellMirror) : List StateHash → List (Item F) → List (ScoredChild F)
  | _, [] => []
  | siblings, it :: rest =>
    scoredChild mirror (siblings.contains it.result.stateHash) it ::
      scoredChildren mirror (it.result.stateHash :: siblings) rest

theorem length_scoredChildren (mirror : CellMirror) (siblings : List StateHash)
    (its : List (Item F)) : (scoredChildren mirror siblings its).length = its.length := by
  induction its generalizing siblings with
  | nil => rfl
  | cons it rest ih => exact congrArg (· + 1) (ih _)

theorem mem_scoredChildren {mirror : CellMirror} {siblings : List StateHash} {its : List (Item F)}
    {child : ScoredChild F} (h : child ∈ scoredChildren mirror siblings its) :
    ∃ it ∈ its, child.payload.stateHash = it.result.stateHash := by
  induction its generalizing siblings with
  | nil => cases h
  | cons it rest ih =>
    rcases List.mem_cons.mp h with rfl | h
    · exact ⟨it, List.mem_cons_self, rfl⟩
    · obtain ⟨it', hmem, heq⟩ := ih h
      exact ⟨it', List.mem_cons_of_mem _ hmem, heq⟩

/-- The runtime and the burst of a child that is now in the store. -/
def registerChild (id parent : NodeId) (it : Item F) (r : Runner F) : Runner F :=
  { r with
    runtimes := (id, ⟨it.capture.snapshot, it.capture.determinismClass⟩) :: r.runtimes
    nodeBursts := ((parent, it.job.burst.burstId), id) :: r.nodeBursts }

/-- The counter of a discarded child: everything but a regression counts as a duplicate. -/
def countDiscard (disposition : CommitDisposition) (r : Runner F) : Runner F :=
  match disposition with
  | .discard .regression => { r with discardedRegression := r.discardedRegression + 1 }
  | _ => { r with discardedDup := r.discardedDup + 1 }

/-- One step of the loop of `commit_completed` over the committed children. -/
def storeChild (exp : Experiment F) (parent : NodeId) (it : Item F) (commit : ChildCommit)
    (t : Tally F) : M F (Tally F) := do
  match commit.nodeId with
  | some id => do
    let r ← Proc.get
    match r.commitState.tree.get id with
    | none => Proc.halt
    | some record => do
      createChildNode exp id parent it record.status
      crashCheck .afterCreateNode
      Proc.modify (registerChild id parent it)
      pure ((t.commit record.payload.stateHash record.payload.cell).improve id
        record.payload.score.get)
  | none => do
    Proc.modify (countDiscard commit.disposition)
    visitRow commit.duplicateRoute
    pure t

def storeChildren (exp : Experiment F) (parent : NodeId) (half : Nat) :
    Nat → List (Item F × ChildCommit) → Tally F → M F (Tally F)
  | _, [], t => pure t
  | index, (it, commit) :: rest, t => do
    runIf (decide (0 < index ∧ index = half)) (crashCheck .midBatchCommit)
    let t ← storeChild exp parent it commit t
    storeChildren exp parent half (index + 1) rest t

/-- `commit_completed`. -/
def commitCompleted (exp : Experiment F) (done : BatchResult) : M F (Option NodeId) := do
  Proc.modify (addGuestInstructions done.jobs)
  let results ← scoreJobs (scorable done.jobs)
  noting (.scored · results)
  crashCheck .beforeCommitOwnerCheck
  ensureCheckpointOwner
  let r ← Proc.get
  let its := items (scorable done.jobs) results
  let outcome ← runCommit <|
    commitBatch done.parent (scoredChildren r.commitState.cellMirror [] its) exp.rules
  let t ← storeChildren exp done.parent ((scorable done.jobs).length / 2) 0
    (its.zip outcome.childCommits) ⟨[], none⟩
  settleBatch exp done.parent t outcome.goalNode

/-! ### The replay path -/

/-- What the replay of one child came to. -/
inductive ReplayAction where
  | pruneDropped
  | pruned (id : NodeId)
  | duplicate (route : Option NodeId)
  | regression
  | kept (id : NodeId) (status : NodeStatus)
deriving DecidableEq, Repr

/-- Runs a rule and ignores its error, as `.ok()` does. -/
def ignoreError {α : Type} (x : CommitM F α) : CommitM F Unit := fun s =>
  match x s with
  | .ok _ s' => .ok () s'
  | .error (.error _) s' => .ok () s'
  | .error .panic s' => .error .panic s'

def replayPruned (parent : NodeId) (payload : NodePayload F) : CommitM F ReplayAction := do
  let id ← CommitM.insertChild parent payload
  CommitM.ensureTracking id
  ignoreError (CommitM.mark (·.markPruned id))
  CommitM.markSeen payload.stateHash id
  CommitM.bumpCell payload.cell
  return .pruned id

/-- The visit of the node a replayed duplicate is routed to, if it can be counted. -/
def replayVisit (parent : NodeId) : Option NodeId → CommitM F Unit
  | some existing => runIf (existing ≠ parent) (ignoreError (CommitM.incrementVisits existing))
  | none => pure ()

def replayDuplicate (parent : NodeId) (payload : NodePayload F) : CommitM F ReplayAction := do
  CommitM.bumpCell payload.cell
  let s ← get
  replayVisit parent (s.seen.get payload.stateHash)
  return .duplicate (s.seen.get payload.stateHash)

/-- A goal is marked and kept out of the frontier; any other child enters it. -/
def enterFrontier (id : NodeId) (goal : Bool) : CommitM F NodeStatus :=
  if goal then do
    ignoreError (CommitM.mark (·.markGoal id))
    return .goal
  else do
    ignoreError (CommitM.onFrontier (·.insert id))
    return .frontier

def replayKept (parent : NodeId) (payload : NodePayload F) (goal : Bool) :
    CommitM F ReplayAction := do
  let id ← CommitM.insertChild parent payload
  CommitM.ensureTracking id
  CommitM.markSeen payload.stateHash id
  CommitM.bumpCell payload.cell
  let status ← enterFrontier id goal
  return .kept id status

/-- The commit rules as `commit_replayed` applies them to a child it does not adopt. -/
def replayChild (parent : NodeId) (parentScore : F) (rules : CommitRules F) (it : Item F) :
    CommitM F ReplayAction := do
  let s ← get
  if it.prune then
    match rules.pruneAction with
    | .drop => return .pruneDropped
    | .exhausted => replayPruned parent (it.payload s.cellMirror)
  else if (s.seen.get it.result.stateHash).isSome then
    replayDuplicate parent (it.payload s.cellMirror)
  else if isRegression s parentScore (it.payload s.cellMirror) rules then
    return .regression
  else replayKept parent (it.payload s.cellMirror) it.result.goalHit

/-- What the replay loop accumulates besides the tally. -/
structure ReplayTally (F : Type) where
  tally : Tally F
  goal : Option NodeId
  allDuplicate : Bool

/-- The row that already holds this child: same parent, same burst, same state hash. -/
def adoptable (r : Runner F) (parent : NodeId) (it : Item F) : Option (NodeId × NodeRecord F) :=
  match r.nodeBursts.lookup (parent, it.job.burst.burstId) with
  | none => none
  | some existing =>
    match r.commitState.tree.get existing with
    | none => none
    | some record =>
      if record.parent = some parent ∧ record.payload.stateHash = it.result.stateHash then
        some (existing, record)
      else none

/-- The tally after adopting a child. -/
def ReplayTally.adopt (t : ReplayTally F) (it : Item F) (id : NodeId) (record : NodeRecord F) :
    ReplayTally F :=
  { tally := (t.tally.commit it.result.stateHash it.result.cellKey).improve id
      record.payload.score.get
    goal := if record.goal && t.goal.isNone then some id else t.goal
    allDuplicate := false }

/-- `register_committed_child`: the parent is read from the tree. -/
def registerCommittedChild (id : NodeId) (it : Item F) (r : Runner F) : Runner F :=
  let runtimes := (id, ⟨it.capture.snapshot, it.capture.determinismClass⟩) :: r.runtimes
  match (r.commitState.tree.get id).bind (·.parent) with
  | none => { r with runtimes }
  | some parent =>
    { r with runtimes, nodeBursts := ((parent, it.job.burst.burstId), id) :: r.nodeBursts }

/-- The row of a replayed child and its registration. -/
def storeReplayed (exp : Experiment F) (id parent : NodeId) (it : Item F) (status : NodeStatus) :
    M F Unit := do
  createChildNode exp id parent it status
  crashCheck .afterCreateNode
  Proc.modify (registerCommittedChild id it)

/-- The calls and the books of one replayed child. -/
def replayEffect (exp : Experiment F) (parent : NodeId) (it : Item F) (t : ReplayTally F) :
    ReplayAction → M F (ReplayTally F)
  | .pruneDropped => pure { t with allDuplicate := false }
  | .pruned id => do
    storeReplayed exp id parent it .pruned
    pure { t with tally := t.tally.commit it.result.stateHash it.result.cellKey
                  allDuplicate := false }
  | .duplicate route => do
    Proc.modify fun r => { r with discardedDup := r.discardedDup + 1 }
    visitRow route
    pure t
  | .regression => do
    Proc.modify fun r => { r with discardedRegression := r.discardedRegression + 1 }
    pure { t with allDuplicate := false }
  | .kept id status => do
    storeReplayed exp id parent it status
    pure { tally := (t.tally.commit it.result.stateHash it.result.cellKey).improve id
             it.result.progressScore.get
           goal := if status = .goal && t.goal.isNone then some id else t.goal
           allDuplicate := false }

/-- One step of the loop of `commit_replayed`. -/
def replayItem (exp : Experiment F) (parent : NodeId) (parentScore : F) (it : Item F)
    (t : ReplayTally F) : M F (ReplayTally F) := do
  let r ← Proc.get
  match adoptable r parent it with
  | some (id, record) => pure (t.adopt it id record)
  | none => do
    let action ← runCommit (replayChild parent parentScore exp.rules it)
    replayEffect exp parent it t action

def replayItems (exp : Experiment F) (parent : NodeId) (parentScore : F) (half : Nat) :
    Nat → List (Item F) → ReplayTally F → M F (ReplayTally F)
  | _, [], t => pure t
  | index, it :: rest, t => do
    runIf (decide (0 < index ∧ index = half)) (crashCheck .midBatchCommit)
    let t ← replayItem exp parent parentScore it t
    replayItems exp parent parentScore half (index + 1) rest t

/-- The parent's visit and rules 4 and 5 at the end of a replay. -/
def replayParent (parent : NodeId) (allDuplicate : Bool) (rules : CommitRules F) :
    CommitM F (Option FrontierEvictReason) := do
  let visits ← CommitM.incrementVisits parent
  updateParentExhaustion parent visits allDuplicate rules

/-- `commit_replayed`. -/
def commitReplayed (exp : Experiment F) (done : BatchResult) : M F (Option NodeId) := do
  Proc.modify (addGuestInstructions done.jobs)
  let results ← scoreJobs (scorable done.jobs)
  crashCheck .beforeCommitOwnerCheck
  ensureCheckpointOwner
  let r ← Proc.get
  let jobs := scorable done.jobs
  let t ← replayItems exp done.parent (parentScore r.commitState done.parent) (jobs.length / 2) 0
    (items jobs results) ⟨⟨[], none⟩, none, !jobs.isEmpty⟩
  let _ ← runCommit (replayParent done.parent t.allDuplicate exp.rules)
  settleBatch exp done.parent t.tally t.goal

end Orchestrator.Server
