import Orchestrator.Server.Run

/-! # Server — Protocol

The runner as a labelled transition system: the points between its calls, the calls it can
make at each point with what each answer leads to, and the steps it takes without a call.
Fields of the runner that only shape answers (runtimes, discard counters, the plateau
detector, the status) may change at any point and are not tracked.

The system is a second, coarser reading of the code, and `Server.Refinement` connects the
two: wherever a process stands between two calls, the system can stand there too. What holds
in the system therefore holds in every run, and is proved here by cases on one transition.

* `Local`, `Next`: the transitions.
* `Reach`: what the system reaches with an environment, starting again after any stop.
-/

namespace Orchestrator.Server

open Core Services Lib

variable {F : Type} [Float64 F]

/-- Where a runner rests between batches: after a bootstrap, between replays, with an intent
taken from the replay queue, at the top of the select loop, about to pause or to end, or
after an error. -/
inductive Rest where
  | booted | replay | popped (i : ExpansionIntent) | loop | pausing | ending | failed
deriving DecidableEq

/-- The points between the calls of a process. -/
inductive Point (F : Type) [Float64 F] where
  | start
  /-- The process is over. -/
  | ended
  | fresh
  | bootstrapped (root : Capture)
  | rootReady (root : Capture) (result : ScoreResult F)
  | rootStored (result : ScoreResult F)
  | found (cp : Checkpoint F) (generation : Nat)
  | resuming (cp : Checkpoint F)
  | collecting (cp : Checkpoint F) (seq misses : Nat) (intents : List ExpansionIntent)
  | loaded (cp : Checkpoint F) (intents : List ExpansionIntent)
  | adopted (cp : Checkpoint F) (intents : List ExpansionIntent) (post : List CommittedState)
  | restored (cp : Checkpoint F) (intents : List ExpansionIntent) (post : List CommittedState)
  | ready (cp : Checkpoint F) (intents : List ExpansionIntent)
  | starting
  | at (c : Rest)
  /-- The budgets allow another batch. -/
  | filling
  | selecting (r : Runner F)
  | dispatching (i : ExpansionIntent)
  | requested (replay : Bool) (i : ExpansionIntent) (request : ProposeRequest F)
  | offered (replay : Bool) (i : ExpansionIntent) (request : ProposeRequest F)
      (response : ProposeResponse)
  | proposed (replay : Bool) (i : ExpansionIntent) (bursts : List Burst)
  | walled (i : ExpansionIntent) (bursts : List Burst)
  | submitted (i : ExpansionIntent)
  | sent (i : ExpansionIntent)
  | completed (c : Rest) (d : BatchResult)
  | taken (c : Rest) (d : BatchResult)
  | answered (c : Rest) (d : BatchResult) (results : List (ScoreResult F))
  | scored (c : Rest) (d : BatchResult) (results : List (ScoreResult F))
  | owned (c : Rest) (d : BatchResult) (results : List (ScoreResult F))
  | storing (c : Rest) (d : BatchResult) (rest : List (Item F × ChildCommit))
      (committed : List CommittedState) (goal : Option NodeId)
  | replayTaken (d : BatchResult)
  | replayScored (d : BatchResult) (results : List (ScoreResult F))
  | replaying (d : BatchResult) (rest : List (Item F)) (committed : List CommittedState)
      (goal : Option NodeId)
  | acting (d : BatchResult) (it : Item F) (rest : List (Item F))
      (committed : List CommittedState) (goal : Option NodeId) (action : ReplayAction)
  | parentDue (c : Rest) (d : BatchResult) (committed : List CommittedState)
      (goal : Option NodeId)
  | updated (c : Rest) (d : BatchResult) (committed : List CommittedState)
      (goal : Option NodeId)
  | settling (c : Rest) (d : BatchResult) (goal : Option NodeId)
  | settled (c : Rest) (d : BatchResult) (goal : Option NodeId)
  | torn (d : BatchResult)
  | began (c : Rest)
  | archived (c : Rest) (archive : ArchiveSnapshot)
  | truncating (c : Rest) (seq : Nat) (rest : List Nat)

/-- Where batches in flight are waited for. -/
def Rest.draining : Rest → Bool
  | .popped _ | .loop | .pausing | .ending => true
  | _ => false

/-- Where a checkpoint returns to. -/
def Rest.afterCheckpoint : Rest → Point F
  | .booted => .starting
  | .pausing => .at .loop
  | c => .at c

/-- Where a commit returns to: a goal of a replayed or selected batch can end the run. -/
def Rest.afterCommit (exp : Experiment F) (goal : Option NodeId) : Rest → Rest
  | .replay => if goal.isSome ∧ exp.onGoal = .stop then .ending else .replay
  | .loop => if goal.isSome ∧ exp.onGoal = .stop then .ending else .loop
  | c => c

@[simp] theorem Rest.afterCommit_eq_booted {exp : Experiment F} {goal : Option NodeId} {c : Rest} :
    c.afterCommit exp goal = .booted ↔ c = .booted := by
  cases c <;> simp [Rest.afterCommit] <;> split <;> simp

def Rest.onError : Rest → Point F
  | .booted => .ended
  | _ => .at .failed

/-- Where an error leads: a commit is torn, a start is over, a run fails. -/
def Point.onError : Point F → Point F
  | .taken _ d | .answered _ d _ | .scored _ d _ | .owned _ d _ | .storing _ d _ _ _
  | .replayTaken d | .replayScored d _ | .replaying d _ _ _ | .acting d _ _ _ _ _
  | .parentDue _ d _ _ | .updated _ d _ _ | .settling _ d _ | .torn d => .torn d
  | .at c | .completed c _ | .began c | .archived c _ | .truncating c _ _ => c.onError
  | .filling | .selecting _ | .dispatching _ | .requested _ _ _ | .offered _ _ _ _
  | .proposed _ _ _ | .walled _ _ | .submitted _ | .sent _ => .at .failed
  | _ => .ended

/-- The parts of a runner the transitions speak of. -/
structure Tracked (F : Type) [Float64 F] where
  commitState : CommitState F
  ckptGeneration : Option Nat
  batchSeq : Nat
  expansions : Nat
  goalNodes : List NodeId
  fingerprint : Option Nat
  fingerprints : FingerprintRegistry
  walFloor : Nat
  replayQueue : List ExpansionIntent
  pipeline : List Batch
  inflight : List ExpansionIntent
  current : Option ExpansionIntent

def Runner.tracked (r : Runner F) : Tracked F :=
  { commitState := r.commitState
    ckptGeneration := r.ckptGeneration
    batchSeq := r.batchSeq
    expansions := r.expansions
    goalNodes := r.goalNodes
    fingerprint := r.fingerprint
    fingerprints := r.fingerprints
    walFloor := r.walFloor
    replayQueue := r.replayQueue
    pipeline := r.pipeline
    inflight := r.inflight
    current := r.current }

/-- How the plateau detector and the ladder stand to the configuration and to the best
score. -/
structure Books (exp : Experiment F) (stall : StallDetector F) (ladder : EscalationLadder)
    (best : Option F) : Prop where
  windowN : stall.windowN = exp.windowN
  epsilonS : stall.epsilonS = exp.epsilonS
  maxLevel : ladder.maxLevel = exp.maxLevel
  bestScore : best = stall.bestScore.map (·.get)

def Runner.Books (exp : Experiment F) (r : Runner F) : Prop :=
  Server.Books exp r.stall r.ladder r.bestScore

/-- The goals of the published statuses only grow, up to those of the runner. -/
structure Published (sent : List (StatusSnapshot F)) (goalNodes : List NodeId) : Prop where
  grows : sent.Pairwise fun a b => a.goalNodes <+: b.goalNodes
  shown : ∀ status ∈ sent, status.goalNodes <+: goalNodes

def Runner.Published (r : Runner F) : Prop := Server.Published r.statusTx r.goalNodes

/-- The parts of a runner the transitions speak of are the same, and its books and what it has
published stay in order. -/
structure SameCore (exp : Experiment F) (r r' : Runner F) : Prop where
  tracked : r'.tracked = r.tracked
  books : r.Books exp → r'.Books exp
  published : r.Published → r'.Published

namespace SameCore

variable {exp : Experiment F} {r r' r₁ : Runner F}

theorem refl (r : Runner F) : SameCore exp r r := ⟨rfl, id, id⟩

theorem trans (h : SameCore exp r r₁) (h' : SameCore exp r₁ r') : SameCore exp r r' :=
  ⟨h'.tracked.trans h.tracked, h'.books ∘ h.books, h'.published ∘ h.published⟩

theorem commitState (h : SameCore exp r r') : r'.commitState = r.commitState :=
  congrArg Tracked.commitState h.tracked

theorem goalNodes (h : SameCore exp r r') : r'.goalNodes = r.goalNodes :=
  congrArg Tracked.goalNodes h.tracked

theorem batchSeq (h : SameCore exp r r') : r'.batchSeq = r.batchSeq :=
  congrArg Tracked.batchSeq h.tracked

theorem expansions (h : SameCore exp r r') : r'.expansions = r.expansions :=
  congrArg Tracked.expansions h.tracked

theorem replayQueue (h : SameCore exp r r') : r'.replayQueue = r.replayQueue :=
  congrArg Tracked.replayQueue h.tracked

theorem pipeline (h : SameCore exp r r') : r'.pipeline = r.pipeline :=
  congrArg Tracked.pipeline h.tracked

theorem inflight (h : SameCore exp r r') : r'.inflight = r.inflight :=
  congrArg Tracked.inflight h.tracked

theorem current (h : SameCore exp r r') : r'.current = r.current :=
  congrArg Tracked.current h.tracked

end SameCore

/-- Where a checkpoint is read in vain: by a start that is given up, and by an owner check. -/
def Point.rereads : Point F → Bool
  | .ended | .scored _ _ _ | .replayScored _ _ => true
  | _ => false

/-- Calls whose answer decides nothing the system tracks. -/
def Op.quiet (p : Point F) : Op F → Bool
  | .getCheckpoint => p.rereads
  | .getWal _ | .queryNodes | .loadFeatureMap _ _ _ | .loadScoringProgram _ | .synthBringup
  | .bootstrap | .scoreBatch _ | .nextCompleted _ | .tryRecv | .recv | .checkpointTimeDue
  | .wallClockSpent => true
  | .shouldCrash point => point ≠ .afterWalWrite
  | _ => false

/-- An RPC that writes or goes to the synthesizer was answered with an error. -/
def Op.Refused : (op : Op F) → Ans F op → Prop
  | .createNode _, .error _ | .updateNode _, .error _ | .putCheckpoint _ _, .error _
  | .putWal _, .error _ | .deleteWal _, .error _ | .buildPropose _ _ _, .error _
  | .propose _, .error _ | .submit _, .error _ | .replayCommits _, .error _
  | .checkpointArchive _, .error _ | .restoreArchive _ _, .error _ => True
  | _, _ => False

/-- Where the runner can find an error of its own. Between the commit in memory and the end of
its calls there is none: only a call can fail there. -/
def Point.wavers : Point F → Bool
  | .storing _ _ _ _ _ | .replaying _ _ _ _ | .acting _ _ _ _ _ _ | .parentDue _ _ _ _
  | .updated _ _ _ _ | .settled _ _ _ => false
  | _ => true

/-- The feature bytes a batch is scored by. -/
def featureBytes (d : BatchResult) : List Bytes :=
  (scorable d.jobs).map fun job => job.2.featureBytes.getD []

/-- The visit of a row a duplicate is routed to. -/
def routeUpdate (existing : NodeId) : NodeUpdate := ⟨existing, none, 1, 0⟩

/-- The update of the parent's row. -/
def parentUpdate (parent : NodeId) (status : NodeStatus) : NodeUpdate := ⟨parent, some status, 1, 1⟩

/-- The row a replayed child is stored as. -/
def ReplayAction.created : ReplayAction → Option (NodeId × NodeStatus)
  | .pruned id => some (id, .pruned)
  | .kept id status => some (id, status)
  | _ => none

/-- The row a replayed child visits. -/
def ReplayAction.visited : ReplayAction → Option NodeId
  | .duplicate route => route
  | _ => none

/-- What a replayed child adds to the committed states. -/
def ReplayAction.states (it : Item F) (action : ReplayAction) : List CommittedState :=
  if action.created.isSome then [⟨it.result.stateHash, it.result.cellKey⟩] else []

/-- The goal of a replay after one more child. -/
def ReplayAction.goalAfter (goal : Option NodeId) : ReplayAction → Option NodeId
  | .kept id status => if status = .goal && goal.isNone then some id else goal
  | _ => goal

/-- Calls that change the store or the archive or go to the synthesizer, at the points that
make them. An error of any of them, with its effect applied or not, leads to the point's
error. -/
inductive Issues (exp : Experiment F) : Point F → Runner F → Op F → Prop where
  | createRoot {root result r} (bringup : CompiledMap) :
      Issues exp (.rootReady root result) r (.createNode (rootRequest exp bringup root result))
  | replayRoot {result r} :
      Issues exp (.rootStored result) r (.replayCommits [⟨result.stateHash, result.cellKey⟩])
  | restore {cp intents post r} : Issues exp (.adopted cp intents post) r
      (.restoreArchive cp.scorerCheckpointId cp.scorerArchiveRef)
  | catchUp {cp intents post r} : Issues exp (.restored cp intents post) r (.replayCommits post)
  | build {i r} : Issues exp (.dispatching i) r (.buildPropose i (buildSpec exp i) false)
  | buildReplay {i r} :
      Issues exp (.at (.popped i)) r (.buildPropose i (buildSpec exp i) true)
  | propose {replay i request r} : Issues exp (.requested replay i request) r (.propose request)
  | write {i bursts r} : Issues exp (.proposed false i bursts) r (.putWal i)
  | submit {i bursts r} {b : Batch} (hs : b.seq = i.seq) (hp : b.parent = i.node)
      (hb : b.bursts = bursts) : Issues exp (.walled i bursts) r (.submit b)
  | submitReplay {i bursts r} {b : Batch} (hs : b.seq = i.seq) (hp : b.parent = i.node)
      (hb : b.bursts = bursts) : Issues exp (.proposed true i bursts) r (.submit b)
  | create {c d it commit rest states goal r id record} (bringup : CompiledMap)
      (hid : commit.nodeId = some id) (hr : r.commitState.tree.get id = some record) :
      Issues exp (.storing c d ((it, commit) :: rest) states goal) r
        (.createNode (childRequest exp bringup id d.parent it record.status))
  | route {c d it commit rest states goal r existing} (hid : commit.nodeId = none)
      (hroute : commit.duplicateRoute = some existing) :
      Issues exp (.storing c d ((it, commit) :: rest) states goal) r
        (.updateNode (routeUpdate existing))
  | createReplayed {d it rest states goal action r id status} (bringup : CompiledMap)
      (ha : action.created = some (id, status)) :
      Issues exp (.acting d it rest states goal action) r
        (.createNode (childRequest exp bringup id d.parent it status))
  | routeReplayed {d it rest states goal action r existing}
      (ha : action.visited = some existing) :
      Issues exp (.acting d it rest states goal action) r (.updateNode (routeUpdate existing))
  | parent {c d states goal r record} (hr : r.commitState.tree.get d.parent = some record) :
      Issues exp (.parentDue c d states goal) r (.updateNode (parentUpdate d.parent record.status))
  | replayStates {c d states goal r} :
      Issues exp (.updated c d states goal) r (.replayCommits states)
  | archive {c r id} : Issues exp (.began c) r (.checkpointArchive id)
  | archiveAgain {c first r id} : Issues exp (.archived c first) r (.checkpointArchive id)
  | put {c archive r value} (hv : buildCheckpoint exp r archive = some value) :
      Issues exp (.archived c archive) r (.putCheckpoint r.ckptGeneration value)
  | truncate {c covered seq rest r} :
      Issues exp (.truncating c covered (seq :: rest)) r (.deleteWal seq)

/-- One call and its answer. -/
inductive Next (exp : Experiment F) :
    Point F → Runner F → (op : Op F) → Ans F op → Point F → Runner F → Prop where
  | quiet {p r op a} (h : op.quiet p = true) : Next exp p r op a p r
  | failed {p r op a} (h : Issues exp p r op) (ha : op.Refused a) : Next exp p r op a p.onError r
  -- the start
  | noCheckpoint {r e} (he : e.kind = .notFound) :
      Next exp .start r .getCheckpoint (.error e) .fresh r
  | foundCheckpoint {r cp g} : Next exp .start r .getCheckpoint (.ok (cp, g)) (.found cp g) r
  | bootstrap {r root} : Next exp .fresh r .bootstrap (.ok root) (.bootstrapped root) r
  | rootScored {r root bytes seq result others} (hb : root.featureBytes = some bytes) :
      Next exp (.bootstrapped root) r (.scoreBatch [bytes]) (.ok (seq, result :: others))
        (.rootReady root result)
        { r with commitState := .fromRoot (rootPayload root result) }
  | rootCreated {root result r} (bringup : CompiledMap) :
      Next exp (.rootReady root result) r (.createNode (rootRequest exp bringup root result))
        (.ok ()) (.rootStored result) r
  | rootReplayed {result r} :
      Next exp (.rootStored result) r (.replayCommits [⟨result.stateHash, result.cellKey⟩])
        (.ok ()) (.at .booted) r
  | stale {cp seq r a} (h : seq < cp.batchSeq) :
      Next exp (.resuming cp) r (.deleteWal seq) a (.resuming cp) r
  | collected {cp seq misses intents r i} :
      Next exp (.collecting cp seq misses intents) r (.getWal seq) (.ok i)
        (.collecting cp (seq + 1) 0 (intents ++ [i])) r
  | missed {cp seq misses intents r e} (he : e.kind = .notFound) :
      Next exp (.collecting cp seq misses intents) r (.getWal seq) (.error e)
        (.collecting cp (seq + 1) (misses + 1) intents) r
  | adopt {cp intents r rows tree a} (ht : rebuildTree rows = .ok tree)
      (ha : adoptRows cp rows (adoptionStart cp tree r) = some a) :
      Next exp (.loaded cp intents) r .queryNodes (.ok rows)
        (.adopted cp intents a.postCheckpoint) (installAdoption cp a r)
  | restored {cp intents post r seq} :
      Next exp (.adopted cp intents post) r
        (.restoreArchive cp.scorerCheckpointId cp.scorerArchiveRef) (.ok seq)
        (.restored cp intents post) r
  | caughtUp {cp intents post r} :
      Next exp (.restored cp intents post) r (.replayCommits post) (.ok ()) (.ready cp intents) r
  | started {r} : Next exp .starting r (.record (.started r)) () (.at .replay) r
  -- dispatch
  | select {r} (h : r.inflight.length < max exp.maxInflightBatches 1) :
      Next exp .filling r (.record (.selecting r)) () (.selecting r) r
  | build {i request r} :
      Next exp (.dispatching i) r (.buildPropose i (buildSpec exp i) false) (.ok request)
        (.requested false i request) r
  | buildReplay {i request r} :
      Next exp (.at (.popped i)) r (.buildPropose i (buildSpec exp i) true) (.ok request)
        (.requested true i request) r
  | offered {replay i request response r} :
      Next exp (.requested replay i request) r (.propose request) (.ok response)
        (.offered replay i request response) r
  | written {i bursts r} :
      Next exp (.proposed false i bursts) r (.putWal i) (.ok ()) (.walled i bursts) r
  | checked {i bursts r a} :
      Next exp (.walled i bursts) r (.shouldCrash .afterWalWrite) a (.walled i bursts) r
  | checkedReplay {i bursts r a} :
      Next exp (.proposed true i bursts) r (.shouldCrash .afterWalWrite) a
        (.proposed true i bursts) r
  | submitted {i bursts r} {b : Batch} (hs : b.seq = i.seq) (hp : b.parent = i.node)
      (hb : b.bursts = bursts) :
      Next exp (.walled i bursts) r (.submit b) (.ok ()) (.submitted i)
        { r with pipeline := r.pipeline ++ [b] }
  | submittedReplay {i bursts r} {b : Batch} (hs : b.seq = i.seq) (hp : b.parent = i.node)
      (hb : b.bursts = bursts) :
      Next exp (.proposed true i bursts) r (.submit b) (.ok ()) (.sent i)
        { r with pipeline := r.pipeline ++ [b] }
  | completed {c r k jobs b} (hc : c.draining = true) (hb : r.pipeline[k]? = some b) :
      Next exp (.at c) r (.nextCompleted r.pipeline) (.ok (some (k, jobs)))
        (.completed c ⟨b.seq, b.parent, jobs⟩) { r with pipeline := r.pipeline.eraseIdx k }
  | completedReplay {i r k jobs b} (hb : r.pipeline[k]? = some b) :
      Next exp (.sent i) r (.nextCompleted r.pipeline) (.ok (some (k, jobs)))
        (.replayTaken ⟨b.seq, b.parent, jobs⟩) { r with pipeline := r.pipeline.eraseIdx k }
  -- the live commit
  | score {c d r seq results} :
      Next exp (.taken c d) r (.scoreBatch (featureBytes d)) (.ok (seq, results))
        (.answered c d results) r
  | scored {c d results r} :
      Next exp (.answered c d results) r (.record (.scored r results)) () (.scored c d results) r
  | own {c d results r cp g} (hg : r.ckptGeneration = some g) :
      Next exp (.scored c d results) r .getCheckpoint (.ok (cp, g)) (.owned c d results) r
  | create {c d it commit rest states goal r id record a} (bringup : CompiledMap)
      (hid : commit.nodeId = some id) (hr : r.commitState.tree.get id = some record)
      (ha : a = .ok () ∨ ∃ e : ClientError, a = .error e ∧ e.kind = .alreadyExists) :
      Next exp (.storing c d ((it, commit) :: rest) states goal) r
        (.createNode (childRequest exp bringup id d.parent it record.status)) a
        (.storing c d rest
          (states ++ [⟨record.payload.stateHash, record.payload.cell⟩]) goal) r
  | route {c d it commit rest states goal r existing} (hid : commit.nodeId = none)
      (hroute : commit.duplicateRoute = some existing) :
      Next exp (.storing c d ((it, commit) :: rest) states goal) r
        (.updateNode (routeUpdate existing)) (.ok ()) (.storing c d rest states goal) r
  -- the replayed commit
  | scoreReplay {d r seq results} :
      Next exp (.replayTaken d) r (.scoreBatch (featureBytes d)) (.ok (seq, results))
        (.replayScored d results) r
  | ownReplay {d results r cp g} (hg : r.ckptGeneration = some g) :
      Next exp (.replayScored d results) r .getCheckpoint (.ok (cp, g))
        (.replaying d (items (scorable d.jobs) results) [] none) r
  | createReplayed {d it rest states goal action r id status a} (bringup : CompiledMap)
      (hact : action.created = some (id, status))
      (ha : a = .ok () ∨ ∃ e : ClientError, a = .error e ∧ e.kind = .alreadyExists) :
      Next exp (.acting d it rest states goal action) r
        (.createNode (childRequest exp bringup id d.parent it status)) a
        (.replaying d rest (states ++ action.states it) (action.goalAfter goal)) r
  | routeReplayed {d it rest states goal action r existing}
      (hact : action.visited = some existing) :
      Next exp (.acting d it rest states goal action) r (.updateNode (routeUpdate existing))
        (.ok ()) (.replaying d rest states goal) r
  -- the end of both
  | parent {c d states goal r record} (hr : r.commitState.tree.get d.parent = some record) :
      Next exp (.parentDue c d states goal) r
        (.updateNode (parentUpdate d.parent record.status)) (.ok ()) (.updated c d states goal) r
  | replayed {c d states goal r} :
      Next exp (.updated c d states goal) r (.replayCommits states) (.ok ())
        (.settling c d goal) { r with expansions := r.expansions + 1 }
  | committed {c d goal r} :
      Next exp (.settled c d goal) r (.record (.committed d.seq goal r)) ()
        (.at (c.afterCommit exp goal)) r
  | aborted {d r} : Next exp (.torn d) r (.record (.aborted d.seq r)) () (.at .failed) r
  -- the checkpoint
  | began {c r} (h : c = .pausing → r.status = .paused) :
      Next exp (.at c) r (.record (.checkpointBegan r)) () (.began c) r
  | archived {c r id archive} :
      Next exp (.began c) r (.checkpointArchive id) (.ok archive) (.archived c archive) r
  | archivedAgain {c first r id archive} :
      Next exp (.archived c first) r (.checkpointArchive id) (.ok archive) (.archived c archive) r
  | put {c archive r value g} (hv : buildCheckpoint exp r archive = some value) :
      Next exp (.archived c archive) r (.putCheckpoint r.ckptGeneration value) (.ok g)
        (.truncating c (effectiveCheckpointSeq r)
          (List.range' r.walFloor (effectiveCheckpointSeq r - r.walFloor)))
        { r with ckptGeneration := some g }
  | truncated {c covered seq rest r a}
      (ha : a = .ok () ∨ ∃ e : ClientError, a = .error e ∧ e.kind = .notFound) :
      Next exp (.truncating c covered (seq :: rest)) r (.deleteWal seq) a
        (.truncating c covered rest) r

/-- A step without a call. -/
inductive Local (exp : Experiment F) : Point F → Runner F → Point F → Runner F → Prop where
  | touch {p r r'} (h : SameCore exp r r') : Local exp p r p r'
  | fail {p r} (h : p.wavers = true) : Local exp p r p.onError r
  -- the start
  | adoptGeneration {cp g r} :
      Local exp (.found cp g) r (.resuming cp) { r with ckptGeneration := some g }
  | collect {cp r} : Local exp (.resuming cp) r (.collecting cp cp.batchSeq 0 []) r
  | loaded {cp seq misses intents r} (h : max exp.maxInflightBatches 1 + 1 < misses) :
      Local exp (.collecting cp seq misses intents) r
        (.loaded cp (intents.insertionSort (·.seq ≤ ·.seq))) r
  | noPost {cp intents r} : Local exp (.restored cp intents []) r (.ready cp intents) r
  | books {cp intents r} :
      Local exp (.ready cp intents) r .starting (restoreBooks exp cp intents r)
  -- the phases
  | pop {r i rest} (h : r.replayQueue = i :: rest) :
      Local exp (.at .replay) r (.at (.popped i))
        { r with replayQueue := rest, current := some i }
  | enterLoop {r} (h : r.replayQueue = []) : Local exp (.at .replay) r (.at .loop) r
  | pausing {r} : Local exp (.at .loop) r (.at .pausing) r
  | ending {r} : Local exp (.at .loop) r (.at .ending) r
  | fill {r} (h : budgetSpent exp r = none) : Local exp (.at .loop) r .filling r
  | filled {r} : Local exp .filling r (.at .loop) r
  | selected {r node} (h : selectNode exp r = .ok (some node)) :
      Local exp (.selecting r) r (.dispatching (buildIntent exp r node)) r
  | unselected {r₀ r} : Local exp (.selecting r₀) r (.at .loop) r
  | accepted {replay i request response r fingerprints}
      (hv : validateProposeResponse request response = none)
      (hb : (baseProfile request && r.fingerprint.any (· ≠ response.configFingerprint)) = false)
      (hf : r.fingerprints.checkOrInsert request.configOverridesYaml response.configFingerprint =
        some fingerprints) :
      Local exp (.offered replay i request response) r (.proposed replay i response.bursts)
        { r with
          fingerprints
          fingerprint :=
            if baseProfile request then some response.configFingerprint else r.fingerprint }
  | flight {i r} : Local exp (.submitted i) r .filling (enterFlight i r)
  | take {c d r i} (h : r.inflight.find? (·.seq = d.seq) = some i) :
      Local exp (.completed c d) r (.taken c d)
        { r with inflight := r.inflight.filter (·.seq ≠ d.seq), current := some i }
  -- the live commit
  | nothingToScore {c d r} (h : scorable d.jobs = []) :
      Local exp (.taken c d) r (.answered c d []) r
  | unowned {c d results r} (h : r.ckptGeneration = none) :
      Local exp (.scored c d results) r (.owned c d results) r
  | commit {c d results r outcome s}
      (h : commitBatch d.parent (scoredChildren r.commitState.cellMirror []
        (items (scorable d.jobs) results)) exp.rules r.commitState = .ok outcome s) :
      Local exp (.owned c d results) r
        (.storing c d ((items (scorable d.jobs) results).zip outcome.childCommits) []
          outcome.goalNode) { r with commitState := s }
  | commitFailed {c d results r e s}
      (h : commitBatch d.parent (scoredChildren r.commitState.cellMirror []
        (items (scorable d.jobs) results)) exp.rules r.commitState = .error (.error e) s) :
      Local exp (.owned c d results) r (.torn d) { r with commitState := s }
  | unrouted {c d it commit rest states goal r} (hid : commit.nodeId = none)
      (hroute : commit.duplicateRoute = none) :
      Local exp (.storing c d ((it, commit) :: rest) states goal) r
        (.storing c d rest states goal) r
  | stored {c d states goal r} :
      Local exp (.storing c d [] states goal) r (.parentDue c d states goal) r
  -- the replayed commit
  | replayNothingToScore {d r} (h : scorable d.jobs = []) :
      Local exp (.replayTaken d) r (.replayScored d []) r
  | replayUnowned {d results r} (h : r.ckptGeneration = none) :
      Local exp (.replayScored d results) r
        (.replaying d (items (scorable d.jobs) results) [] none) r
  | adoptChild {d it rest states goal r id record}
      (h : adoptable r d.parent it = some (id, record)) :
      Local exp (.replaying d (it :: rest) states goal) r
        (.replaying d rest (states ++ [⟨it.result.stateHash, it.result.cellKey⟩])
          (if record.goal && goal.isNone then some id else goal)) r
  | replayChild {d it rest states goal r score action s}
      (h : replayChild d.parent score exp.rules it r.commitState = .ok action s) :
      Local exp (.replaying d (it :: rest) states goal) r
        (.acting d it rest states goal action) { r with commitState := s }
  | replayChildFailed {d it rest states goal r score e s}
      (h : replayChild d.parent score exp.rules it r.commitState = .error (.error e) s) :
      Local exp (.replaying d (it :: rest) states goal) r (.torn d) { r with commitState := s }
  | acted {d it rest states goal action r} (hc : action.created = none)
      (hv : action.visited = none) :
      Local exp (.acting d it rest states goal action) r (.replaying d rest states goal) r
  | replayParent {d states goal r allDuplicate evicted s}
      (h : replayParent d.parent allDuplicate exp.rules r.commitState = .ok evicted s) :
      Local exp (.replaying d [] states goal) r (.parentDue .replay d states goal)
        { r with commitState := s }
  | replayParentFailed {d states goal r allDuplicate e s}
      (h : replayParent d.parent allDuplicate exp.rules r.commitState = .error (.error e) s) :
      Local exp (.replaying d [] states goal) r (.torn d) { r with commitState := s }
  -- the end of both
  | noStates {c d goal r} :
      Local exp (.updated c d [] goal) r (.settling c d goal)
        { r with expansions := r.expansions + 1 }
  | rebin {c d goal r} :
      Local exp (.settling c d goal) r (.settling c d goal)
        { r with commitState :=
          { r.commitState with cellMirror := r.commitState.cellMirror.resetForRebin } }
  | settle {c d goal r} :
      Local exp (.settling c d goal) r (.settled c d goal) { addGoal goal r with current := none }
  -- the checkpoint
  | truncated {c covered r} :
      Local exp (.truncating c covered []) r c.afterCheckpoint { r with walFloor := covered }

/-- Where processes are started: in which worlds the first one, and whether another one is
started after it stopped. -/
structure Starts (W : Type) where
  first : W → Prop
  again : Prop

/-- What a process and its environment can reach, from a world the environment starts with,
with the process stopped at any point and, if that is allowed, started again. -/
inductive Reach (exp : Experiment F) {W : Type} (A : Answers (Op F) (Ans F) W)
    (Initial : Starts W) : Point F → Runner F → W → Prop where
  | init {w} (h : Initial.first w) : Reach exp A Initial .start (.initial exp) w
  | restart {p r w} (h : Reach exp A Initial p r w) (hagain : Initial.again) :
      Reach exp A Initial .start (.initial exp) w
  | loc {p r w p' r'} (h : Reach exp A Initial p r w) (hl : Local exp p r p' r') :
      Reach exp A Initial p' r' w
  | call {p r w op a w' p' r'} (h : Reach exp A Initial p r w) (hn : Next exp p r op a p' r')
      (ha : A op w a w') : Reach exp A Initial p' r' w'

end Orchestrator.Server
