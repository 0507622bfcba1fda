import Orchestrator.Core.Frontier
import Orchestrator.Core.Mirror
import Orchestrator.Lib.StateError

/-! # Core — Commit

The commit rules: `commit_batch` classifies each scored child of an expansion and applies
it to the tree, the frontier, the cell mirror, the seen map and the all-duplicate streaks.
A commit that fails keeps the changes it has made, so the rules are computations on a
state that survives an error.

* `commitChild_ok`: the five outcomes of a child, with the state each leaves.
* `updateParentExhaustion_ok`: the eviction rule.
* `commitBatch_ok`: a successful batch is its children in order, a visit of the parent
  and the eviction rule.
-/

namespace Orchestrator.Core

open Lib

variable {F : Type} [Float64 F]

structure CommitRules (F : Type) where
  pruneAction : PruneAction
  epsilonKeep : F
  maxVisitsPerNode : Nat
  exhaustAfterDupExpansions : Nat

structure ScoredChild (F : Type) [Float64 F] where
  payload : NodePayload F
  duplicate : Bool
  prune : Bool
  goal : Bool
deriving DecidableEq

structure ChildCommit where
  disposition : CommitDisposition
  nodeId : Option NodeId
  duplicateRoute : Option NodeId
deriving DecidableEq, Repr

structure BatchCommitOutcome where
  parent : NodeId
  parentVisits : Nat
  childCommits : List ChildCommit
  parentEvicted : Option FrontierEvictReason
  goalNode : Option NodeId
deriving DecidableEq, Repr

structure CommitState (F : Type) [Float64 F] where
  tree : Tree F
  frontier : Frontier
  cellMirror : CellMirror
  seen : SeenMap
  allDuplicateStreaks : List Nat

namespace CommitState

/-- `CommitState::from_root`. The first bump of an empty mirror cannot overflow. -/
def fromRoot (payload : NodePayload F) : CommitState F where
  tree := .fromRoot payload
  frontier := .withRoot
  cellMirror := ⟨CellMirror.new.counts.insert payload.cell 1⟩
  seen := SeenMap.new.insert payload.stateHash NodeId.root
  allDuplicateStreaks := [0]

/-- One streak restored from a checkpoint; ids outside the tree are ignored. -/
def setStreak (streaks : List Nat) (entry : NodeId × Nat) : List Nat :=
  streaks.set entry.1 entry.2

def fromParts (tree : Tree F) (frontier : Frontier) (cellMirror : CellMirror) (seen : SeenMap)
    (streaks : List (NodeId × Nat)) : CommitState F where
  tree := tree
  frontier := frontier
  cellMirror := cellMirror
  seen := seen
  allDuplicateStreaks := streaks.foldl setStreak (List.replicate tree.nextId 0)

def allDuplicateStreak (s : CommitState F) (id : NodeId) : Option Nat :=
  s.allDuplicateStreaks[id]?

/-- The streak vector grown to cover node `n`. -/
def trackedTo (streaks : List Nat) (n : Nat) : List Nat :=
  streaks ++ List.replicate (n + 1 - streaks.length) 0

end CommitState

inductive CommitError where
  | parentNotFound (id : NodeId)
  | invalidRule (field : String)
  | tree (e : TreeError)
  | frontier (e : FrontierError)
deriving DecidableEq, Repr

abbrev CommitM (F : Type) [Float64 F] := EStateM (Abort CommitError) (CommitState F)

namespace CommitM

/-- Runs a tree mutation; its error is passed on as `CommitError::Tree`. -/
def onTree {α : Type} (f : Tree F → Except TreeError (α × Tree F)) : CommitM F α := fun s =>
  match f s.tree with
  | .error e => .error (.error (.tree e)) s
  | .ok (a, tree) => .ok a { s with tree := tree }

def insertChild (parent : NodeId) (payload : NodePayload F) : CommitM F NodeId :=
  onTree (·.insertChild parent payload)

def incrementVisits (id : NodeId) : CommitM F Nat := onTree (·.incrementVisits id)

/-- Runs a tree mutation that returns nothing. -/
def mark (f : Tree F → Except TreeError (Tree F)) : CommitM F Unit :=
  onTree fun t => (f t).map ((), ·)

def ensureTracking (id : NodeId) : CommitM F Unit :=
  modify fun s => { s with allDuplicateStreaks := CommitState.trackedTo s.allDuplicateStreaks id }

def markSeen (hash : StateHash) (id : NodeId) : CommitM F Unit :=
  modify fun s => { s with seen := s.seen.insert hash id }

def bumpCell (cell : CellKey) : CommitM F Unit := fun s =>
  match s.cellMirror.bump cell with
  | none => .error .panic s
  | some m => .ok () { s with cellMirror := m }

/-- Runs a frontier mutation; its error is passed on as `CommitError::Frontier`. -/
def onFrontier (f : Frontier → Except FrontierError Frontier) : CommitM F Unit := fun s =>
  match f s.frontier with
  | .error e => .error (.error (.frontier e)) s
  | .ok frontier => .ok () { s with frontier := frontier }

end CommitM

open CommitM

/-- Rule 1, `PruneAction::Exhausted`: the child is kept out of the frontier. -/
def commitPruned (parent : NodeId) (child : ScoredChild F) : CommitM F ChildCommit := do
  let childId ← insertChild parent child.payload
  ensureTracking childId
  mark (·.markPruned childId)
  markSeen child.payload.stateHash childId
  bumpCell child.payload.cell
  return ⟨.prunedExhausted, some childId, none⟩

/-- The visit of the node a duplicate is routed to, unless that is the parent. -/
def visitRoute (parent : NodeId) : Option NodeId → CommitM F Unit
  | some existing => runIf (existing ≠ parent) (discard (incrementVisits existing))
  | none => pure ()

/-- Rule 2: a duplicate bumps its cell and is routed to the node that has its hash. -/
def commitDuplicate (parent : NodeId) (child : ScoredChild F) : CommitM F ChildCommit := do
  bumpCell child.payload.cell
  let s ← get
  visitRoute parent (s.seen.get child.payload.stateHash)
  return ⟨.discard .duplicate, none, s.seen.get child.payload.stateHash⟩

/-- The child is inserted in the tree and the frontier. -/
def commitKept (parent : NodeId) (child : ScoredChild F) : CommitM F ChildCommit := do
  let childId ← insertChild parent child.payload
  ensureTracking childId
  markSeen child.payload.stateHash childId
  bumpCell child.payload.cell
  onFrontier (·.insert childId)
  runIf child.goal (mark (·.markGoal childId))
  return ⟨.keep, some childId, none⟩

/-- Rule 3's comparison: the child scores worse than its parent in a cell already known. -/
def isRegression (s : CommitState F) (parentScore : F) (payload : NodePayload F)
    (rules : CommitRules F) : Bool :=
  decide (payload.score.get + rules.epsilonKeep < parentScore) &&
    decide (0 < s.cellMirror.count payload.cell)

/-- `commit_child`. -/
def commitChild (parent : NodeId) (parentScore : F) (child : ScoredChild F)
    (rules : CommitRules F) : CommitM F ChildCommit := do
  if child.prune then
    match rules.pruneAction with
    | .drop => return ⟨.discard .pruneDrop, none, none⟩
    | .exhausted => commitPruned parent child
  else if child.duplicate then
    commitDuplicate parent child
  else
    let s ← get
    if isRegression s parentScore child.payload rules then
      return ⟨.discard .regression, none, none⟩
    else commitKept parent child

/-- The loop of `commit_batch` over the children, with the first goal committed so far. -/
def commitChildren (parent : NodeId) (parentScore : F) (rules : CommitRules F) :
    List (ScoredChild F) → Option NodeId → CommitM F (List ChildCommit × Option NodeId)
  | [], goalNode => return ([], goalNode)
  | child :: rest, goalNode => do
    let commit ← commitChild parent parentScore child rules
    let goalNode' :=
      if child.goal ∧ commit.disposition = .keep ∧ commit.nodeId.isSome ∧ goalNode.isNone then
        commit.nodeId
      else goalNode
    let (commits, goal) ← commitChildren parent parentScore rules rest goalNode'
    return (commit :: commits, goal)

/-- The streak after an expansion; the panic is `checked_add` on a full counter. -/
def nextStreak (streak : Nat) (allDuplicate : Bool) : CommitM F Nat :=
  if allDuplicate then
    match checkedAdd32 streak 1 with
    | some n => pure n
    | none => throw .panic
  else pure 0

/-- Rules 4 and 5: why a parent with these counts is evicted. -/
def evictReason (rules : CommitRules F) (parentVisits streak : Nat) :
    Option FrontierEvictReason :=
  if rules.maxVisitsPerNode ≤ parentVisits then some .maxVisits
  else if rules.exhaustAfterDupExpansions ≤ streak then some .allDuplicateExpansions
  else none

/-- The parent is marked exhausted and leaves the frontier if it is there. -/
def evictParent (parent : NodeId) : CommitM F Unit := do
  mark (·.markExhausted parent)
  let s ← get
  runIf (s.frontier.contains parent) (onFrontier (·.remove parent))

/-- `update_parent_exhaustion`: commit rules 4 and 5, after the visit was counted. -/
def updateParentExhaustion (parent : NodeId) (parentVisits : Nat) (allDuplicate : Bool)
    (rules : CommitRules F) : CommitM F (Option FrontierEvictReason) := do
  ensureTracking parent
  let s ← get
  let streak ← nextStreak (s.allDuplicateStreaks[parent]?.getD 0) allDuplicate
  modify fun s => { s with allDuplicateStreaks := s.allDuplicateStreaks.set parent streak }
  runIf (evictReason rules parentVisits streak).isSome (evictParent parent)
  return evictReason rules parentVisits streak

/-- `validate_rules`. -/
def validateRules (rules : CommitRules F) : Option CommitError :=
  if Float64.isFinite rules.epsilonKeep = false ∨ rules.epsilonKeep < 0 then
    some (.invalidRule "epsilon_keep")
  else if rules.maxVisitsPerNode = 0 then some (.invalidRule "max_visits_per_node")
  else if rules.exhaustAfterDupExpansions = 0 then
    some (.invalidRule "exhaust_after_dup_expansions")
  else none

/-- Whether every child of a non-empty batch was discarded as a duplicate. -/
def allDuplicates (commits : List ChildCommit) : Bool :=
  !commits.isEmpty && commits.all (·.disposition = .discard .duplicate)

/-- `commit_batch`. -/
def commitBatch (parent : NodeId) (children : List (ScoredChild F)) (rules : CommitRules F) :
    CommitM F BatchCommitOutcome := do
  match validateRules rules with
  | some e => throw (.error e)
  | none =>
  match (← get).tree.get parent with
  | none => throw (.error (.parentNotFound parent))
  | some record =>
    let (childCommits, goalNode) ←
      commitChildren parent record.payload.score.get rules children none
    let parentVisits ← incrementVisits parent
    let parentEvicted ←
      updateParentExhaustion parent parentVisits (allDuplicates childCommits) rules
    return { parent, parentVisits, childCommits, parentEvicted, goalNode }

/-! ### What a commit did

Each rule below is the inversion of one function: it lists what a successful call can have
done, and every later fact about commits is read off it. -/

variable {s s' : CommitState F} {parent : NodeId} {child : ScoredChild F} {commit : ChildCommit}
  {rules : CommitRules F}

theorem onTree_ok {α : Type} {f : Tree F → Except TreeError (α × Tree F)} {a : α}
    (h : onTree f s = .ok a s') :
    ∃ tree, f s.tree = .ok (a, tree) ∧ s' = { s with tree := tree } := by
  unfold onTree at h
  split at h
  · cases h
  · rename_i a' tree hf
    cases h
    exact ⟨tree, hf, rfl⟩

theorem mark_ok {f : Tree F → Except TreeError (Tree F)} (h : mark f s = .ok () s') :
    ∃ tree, f s.tree = .ok tree ∧ s' = { s with tree := tree } := by
  obtain ⟨tree, hf, rfl⟩ := onTree_ok h
  cases hft : f s.tree with
  | error e => simp [hft, Except.map] at hf
  | ok t =>
    simp only [hft, Except.map, Except.ok.injEq, Prod.mk.injEq, true_and] at hf
    exact ⟨tree, by rw [hf], rfl⟩

theorem bumpCell_ok {cell : CellKey} (h : bumpCell cell s = .ok () s') :
    ∃ m, s.cellMirror.bump cell = some m ∧ s' = { s with cellMirror := m } := by
  unfold bumpCell at h
  split at h
  · cases h
  · rename_i m hm
    cases h
    exact ⟨m, hm, rfl⟩

theorem onFrontier_ok {f : Frontier → Except FrontierError Frontier}
    (h : onFrontier f s = .ok () s') :
    ∃ frontier, f s.frontier = .ok frontier ∧ s' = { s with frontier := frontier } := by
  unfold onFrontier at h
  split at h
  · cases h
  · rename_i frontier hf
    cases h
    exact ⟨frontier, hf, rfl⟩

/-- The tree after a kept child: appended, and marked if it is a goal. -/
def keptTree (tree : Tree F) (parent : NodeId) (record : NodeRecord F)
    (hr : Tree.Room tree.records parent record) (child : ScoredChild F) : Tree F :=
  if child.goal then
    (tree.push parent record hr child.payload).update tree.len Tree.setGoal Tree.setGoal_keeps
  else tree.push parent record hr child.payload

/-- The tree after a child kept out of the frontier as pruned. -/
def prunedTree (tree : Tree F) (parent : NodeId) (record : NodeRecord F)
    (hr : Tree.Room tree.records parent record) (payload : NodePayload F) : Tree F :=
  (tree.push parent record hr payload).update tree.len Tree.setPruned Tree.setPruned_keeps

/-- The visit a duplicate adds to the node its hash routes to, unless that is the parent. -/
inductive RouteVisit (parent : NodeId) (tree : Tree F) : Option NodeId → Tree F → Prop where
  | visit {existing : NodeId} {visits : Nat} {tree' : Tree F} (hne : existing ≠ parent)
      (h : tree.incrementVisits existing = .ok (visits, tree')) :
      RouteVisit parent tree (some existing) tree'
  | parent : RouteVisit parent tree (some parent) tree
  | unrouted : RouteVisit parent tree none tree

/-- What a successful `commit_child` can have done. -/
inductive ChildStep (parent : NodeId) (parentScore : F) (child : ScoredChild F)
    (rules : CommitRules F) (s : CommitState F) : ChildCommit → CommitState F → Prop where
  | pruneDrop (hp : child.prune = true) (ha : rules.pruneAction = .drop) :
      ChildStep parent parentScore child rules s ⟨.discard .pruneDrop, none, none⟩ s
  | prunedExhausted (hp : child.prune = true) (ha : rules.pruneAction = .exhausted)
      {record : NodeRecord F} (hr : Tree.Room s.tree.records parent record)
      {m : CellMirror} (hm : s.cellMirror.bump child.payload.cell = some m) :
      ChildStep parent parentScore child rules s ⟨.prunedExhausted, some s.tree.len, none⟩
        { s with
          tree := prunedTree s.tree parent record hr child.payload
          cellMirror := m
          seen := s.seen.insert child.payload.stateHash s.tree.len
          allDuplicateStreaks := CommitState.trackedTo s.allDuplicateStreaks s.tree.len }
  | duplicate (hp : child.prune = false) (hd : child.duplicate = true)
      {m : CellMirror} (hm : s.cellMirror.bump child.payload.cell = some m)
      {tree : Tree F}
      (hv : RouteVisit parent s.tree (s.seen.get child.payload.stateHash) tree) :
      ChildStep parent parentScore child rules s
        ⟨.discard .duplicate, none, s.seen.get child.payload.stateHash⟩
        { s with tree := tree, cellMirror := m }
  | regression (hp : child.prune = false) (hd : child.duplicate = false)
      (hreg : isRegression s parentScore child.payload rules = true) :
      ChildStep parent parentScore child rules s ⟨.discard .regression, none, none⟩ s
  | keep (hp : child.prune = false) (hd : child.duplicate = false)
      (hreg : isRegression s parentScore child.payload rules = false)
      {record : NodeRecord F} (hr : Tree.Room s.tree.records parent record)
      {m : CellMirror} (hm : s.cellMirror.bump child.payload.cell = some m)
      {frontier : Frontier} (hf : s.frontier.insert s.tree.len = .ok frontier) :
      ChildStep parent parentScore child rules s ⟨.keep, some s.tree.len, none⟩
        { tree := keptTree s.tree parent record hr child
          frontier := frontier
          cellMirror := m
          seen := s.seen.insert child.payload.stateHash s.tree.len
          allDuplicateStreaks := CommitState.trackedTo s.allDuplicateStreaks s.tree.len }

theorem insertChild_ok {id : NodeId} {payload : NodePayload F}
    (h : CommitM.insertChild parent payload s = .ok id s') :
    ∃ record, ∃ hr : Tree.Room s.tree.records parent record,
      id = s.tree.len ∧ s' = { s with tree := s.tree.push parent record hr payload } := by
  obtain ⟨tree, ht, rfl⟩ := onTree_ok h
  obtain ⟨record, hr, rfl, rfl⟩ := Tree.insertChild_ok ht
  exact ⟨record, hr, rfl, rfl⟩

theorem visitRoute_ok {route : Option NodeId} (h : visitRoute parent route s = .ok () s') :
    ∃ tree, RouteVisit parent s.tree route tree ∧ s' = { s with tree := tree } := by
  cases route with
  | none =>
    cases h
    exact ⟨s.tree, .unrouted, rfl⟩
  | some existing =>
    by_cases hne : existing ≠ parent
    · simp only [visitRoute, decide_eq_true hne] at h
      obtain ⟨visits, s₁, h₁, h⟩ := bind_ok h
      obtain ⟨tree, ht, rfl⟩ := onTree_ok h₁
      cases h
      exact ⟨tree, .visit hne ht, rfl⟩
    · simp only [visitRoute, decide_eq_false hne] at h
      cases h
      obtain rfl : existing = parent := Classical.not_not.mp hne
      exact ⟨s.tree, .parent, rfl⟩

theorem commitPruned_ok (h : commitPruned parent child s = .ok commit s') :
    ∃ record, ∃ hr : Tree.Room s.tree.records parent record, ∃ m,
      s.cellMirror.bump child.payload.cell = some m ∧
      commit = ⟨.prunedExhausted, some s.tree.len, none⟩ ∧
      s' = { s with
        tree := prunedTree s.tree parent record hr child.payload
        cellMirror := m
        seen := s.seen.insert child.payload.stateHash s.tree.len
        allDuplicateStreaks := CommitState.trackedTo s.allDuplicateStreaks s.tree.len } := by
  obtain ⟨id, s₁, h₁, h⟩ := bind_ok h
  obtain ⟨record, hr, rfl, rfl⟩ := insertChild_ok h₁
  obtain ⟨_, s₂, h₂, h⟩ := bind_ok h
  cases h₂
  obtain ⟨_, s₃, h₃, h⟩ := bind_ok h
  obtain ⟨tree, ht, rfl⟩ := mark_ok h₃
  obtain ⟨_, -, -, rfl⟩ := Tree.markPruned_ok ht
  obtain ⟨_, s₄, h₄, h⟩ := bind_ok h
  cases h₄
  obtain ⟨_, s₅, h₅, h⟩ := bind_ok h
  obtain ⟨m, hm, rfl⟩ := bumpCell_ok h₅
  cases h
  exact ⟨record, hr, m, hm, rfl, rfl⟩

theorem commitKept_ok (h : commitKept parent child s = .ok commit s') :
    ∃ record, ∃ hr : Tree.Room s.tree.records parent record, ∃ m frontier,
      s.cellMirror.bump child.payload.cell = some m ∧
      s.frontier.insert s.tree.len = .ok frontier ∧
      commit = ⟨.keep, some s.tree.len, none⟩ ∧
      s' = { tree := keptTree s.tree parent record hr child
             frontier := frontier
             cellMirror := m
             seen := s.seen.insert child.payload.stateHash s.tree.len
             allDuplicateStreaks :=
               CommitState.trackedTo s.allDuplicateStreaks s.tree.len } := by
  obtain ⟨id, s₁, h₁, h⟩ := bind_ok h
  obtain ⟨record, hr, rfl, rfl⟩ := insertChild_ok h₁
  obtain ⟨_, s₂, h₂, h⟩ := bind_ok h
  cases h₂
  obtain ⟨_, s₃, h₃, h⟩ := bind_ok h
  cases h₃
  obtain ⟨_, s₄, h₄, h⟩ := bind_ok h
  obtain ⟨m, hm, rfl⟩ := bumpCell_ok h₄
  obtain ⟨_, s₅, h₅, h⟩ := bind_ok h
  obtain ⟨frontier, hf, rfl⟩ := onFrontier_ok h₅
  obtain ⟨_, s₆, h₆, h⟩ := bind_ok h
  cases h
  cases hg : child.goal with
  | false =>
    simp only [hg, runIf_false] at h₆
    cases h₆
    exact ⟨record, hr, m, frontier, hm, hf, rfl, by simp [keptTree, hg]⟩
  | true =>
    simp only [hg, runIf_true] at h₆
    obtain ⟨tree, ht, rfl⟩ := mark_ok h₆
    obtain ⟨_, -, -, rfl⟩ := Tree.markGoal_ok ht
    exact ⟨record, hr, m, frontier, hm, hf, rfl, by simp [keptTree, hg]⟩

variable {parentScore : F} {children : List (ScoredChild F)} {allDuplicate : Bool}

theorem commitChild_ok (h : commitChild parent parentScore child rules s = .ok commit s') :
    ChildStep parent parentScore child rules s commit s' := by
  cases hp : child.prune with
  | true =>
    cases ha : rules.pruneAction with
    | drop =>
      simp only [commitChild, hp, ha] at h
      cases h
      exact .pruneDrop hp ha
    | exhausted =>
      simp only [commitChild, hp, ha] at h
      obtain ⟨record, hr, m, hm, rfl, rfl⟩ := commitPruned_ok h
      exact .prunedExhausted hp ha hr hm
  | false =>
    cases hd : child.duplicate with
    | true =>
      simp only [commitChild, hp, hd] at h
      obtain ⟨_, s₁, h₁, h⟩ := bind_ok h
      obtain ⟨m, hm, rfl⟩ := bumpCell_ok h₁
      obtain ⟨_, s₂, h₂, h⟩ := bind_ok h
      cases h₂
      obtain ⟨_, s₃, h₃, h⟩ := bind_ok h
      obtain ⟨tree, hv, rfl⟩ := visitRoute_ok h₃
      cases h
      exact .duplicate hp hd hm hv
    | false =>
      simp only [commitChild, hp, hd] at h
      obtain ⟨_, s₁, h₁, h⟩ := bind_ok h
      cases h₁
      cases hreg : isRegression s parentScore child.payload rules with
      | true =>
        simp only [hreg] at h
        cases h
        exact .regression hp hd hreg
      | false =>
        simp only [hreg] at h
        obtain ⟨record, hr, m, frontier, hm, hf, rfl, rfl⟩ := commitKept_ok h
        exact .keep hp hd hreg hr hm hf

/-- What a successful run of the child loop can have done: one `ChildStep` per child. -/
inductive ChildSteps (parent : NodeId) (parentScore : F) (rules : CommitRules F) :
    CommitState F → List (ScoredChild F) → List ChildCommit → CommitState F → Prop where
  | nil {s : CommitState F} : ChildSteps parent parentScore rules s [] [] s
  | cons {s s₁ s' : CommitState F} {child : ScoredChild F} {commit : ChildCommit}
      {children : List (ScoredChild F)} {commits : List ChildCommit}
      (hstep : ChildStep parent parentScore child rules s commit s₁)
      (hrest : ChildSteps parent parentScore rules s₁ children commits s') :
      ChildSteps parent parentScore rules s (child :: children) (commit :: commits) s'

theorem commitChildren_ok {goalNode : Option NodeId} {commits : List ChildCommit}
    {goal : Option NodeId}
    (h : commitChildren parent parentScore rules children goalNode s = .ok (commits, goal) s') :
    ChildSteps parent parentScore rules s children commits s' := by
  induction children generalizing goalNode s commits with
  | nil =>
    cases h
    exact .nil
  | cons child rest ih =>
    obtain ⟨commit, s₁, h₁, h⟩ := bind_ok h
    obtain ⟨⟨commits', goal'⟩, s₂, h₂, h⟩ := bind_ok h
    cases h
    exact .cons (commitChild_ok h₁) (ih h₂)

/-- The state after the streak of `parent` was set. -/
def CommitState.withStreak (s : CommitState F) (parent : NodeId) (streak : Nat) :
    CommitState F :=
  { s with allDuplicateStreaks :=
      (CommitState.trackedTo s.allDuplicateStreaks parent).set parent streak }

/-- The streak `update_parent_exhaustion` writes. -/
def CommitState.streakAfter (s : CommitState F) (parent : NodeId) (allDuplicate : Bool) : Nat :=
  if allDuplicate then
    (CommitState.trackedTo s.allDuplicateStreaks parent)[parent]?.getD 0 + 1
  else 0

/-- What a successful `update_parent_exhaustion` can have done. -/
inductive ExhaustionStep (parent : NodeId) (s : CommitState F) :
    Option FrontierEvictReason → CommitState F → Prop where
  | stay : ExhaustionStep parent s none s
  | evict {record : NodeRecord F} (hr : s.tree.get parent = some record)
      (hg : record.status ≠ .goal) (hc : s.frontier.contains parent = true)
      {frontier : Frontier} (hf : s.frontier.remove parent = .ok frontier)
      (reason : FrontierEvictReason) :
      ExhaustionStep parent s (some reason)
        { s with tree := s.tree.update parent Tree.setExhausted Tree.setExhausted_keeps
                 frontier := frontier }
  | absent {record : NodeRecord F} (hr : s.tree.get parent = some record)
      (hg : record.status ≠ .goal) (hc : s.frontier.contains parent = false)
      (reason : FrontierEvictReason) :
      ExhaustionStep parent s (some reason)
        { s with tree := s.tree.update parent Tree.setExhausted Tree.setExhausted_keeps }

theorem nextStreak_ok {streak n : Nat} (h : nextStreak streak allDuplicate s = .ok n s') :
    s' = s ∧ n = if allDuplicate then streak + 1 else 0 := by
  cases allDuplicate with
  | false =>
    cases h
    exact ⟨rfl, rfl⟩
  | true =>
    cases hn : checkedAdd32 streak 1 with
    | none =>
      simp only [nextStreak, hn] at h
      cases h
    | some m =>
      simp only [nextStreak, hn] at h
      cases h
      simp only [checkedAdd32] at hn
      split at hn
      · cases hn
        exact ⟨rfl, rfl⟩
      · cases hn

theorem evictParent_ok (reason : FrontierEvictReason) (h : evictParent parent s = .ok () s') :
    ExhaustionStep parent s (some reason) s' := by
  obtain ⟨_, s₁, h₁, h⟩ := bind_ok h
  obtain ⟨tree, ht, rfl⟩ := mark_ok h₁
  obtain ⟨record, hr, hg, rfl⟩ := Tree.markExhausted_ok ht
  obtain ⟨_, s₂, h₂, h⟩ := bind_ok h
  cases h₂
  cases hc : s.frontier.contains parent with
  | false =>
    simp only [hc, runIf_false] at h
    cases h
    exact .absent hr hg hc reason
  | true =>
    simp only [hc, runIf_true] at h
    obtain ⟨frontier, hf, rfl⟩ := onFrontier_ok h
    exact .evict hr hg hc hf reason

theorem updateParentExhaustion_ok {parentVisits : Nat} {reason : Option FrontierEvictReason}
    (h : updateParentExhaustion parent parentVisits allDuplicate rules s = .ok reason s') :
    reason = evictReason rules parentVisits (s.streakAfter parent allDuplicate) ∧
      ExhaustionStep parent (s.withStreak parent (s.streakAfter parent allDuplicate))
        reason s' := by
  obtain ⟨_, s₁, h₁, h⟩ := bind_ok h
  cases h₁
  obtain ⟨_, s₂, h₂, h⟩ := bind_ok h
  cases h₂
  obtain ⟨streak, s₃, h₃, h⟩ := bind_ok h
  obtain ⟨rfl, hn⟩ := nextStreak_ok h₃
  obtain ⟨_, s₄, h₄, h⟩ := bind_ok h
  cases h₄
  obtain ⟨_, s₅, h₅, h⟩ := bind_ok h
  cases h
  have hstreak : streak = s.streakAfter parent allDuplicate := hn
  subst hstreak
  refine ⟨rfl, ?_⟩
  cases hr : evictReason rules parentVisits (s.streakAfter parent allDuplicate) with
  | none =>
    simp only [hr, Option.isSome_none, runIf_false] at h₅
    cases h₅
    exact .stay
  | some reason =>
    simp only [hr, Option.isSome_some, runIf_true] at h₅
    exact evictParent_ok reason h₅

theorem commitBatch_ok {outcome : BatchCommitOutcome}
    (h : commitBatch parent children rules s = .ok outcome s') :
    ∃ record s₁ tree, s.tree.get parent = some record ∧
      ChildSteps parent record.payload.score.get rules s children outcome.childCommits s₁ ∧
      s₁.tree.incrementVisits parent = .ok (outcome.parentVisits, tree) ∧
      outcome.parentEvicted = evictReason rules outcome.parentVisits
        (s₁.streakAfter parent (allDuplicates outcome.childCommits)) ∧
      ExhaustionStep parent
        (({ s₁ with tree := tree } : CommitState F).withStreak parent
          (s₁.streakAfter parent (allDuplicates outcome.childCommits)))
        outcome.parentEvicted s' := by
  cases hv : validateRules rules with
  | some e =>
    simp only [commitBatch, hv] at h
    cases h
  | none =>
    simp only [commitBatch, hv] at h
    obtain ⟨_, s₀, h₀, h⟩ := bind_ok h
    cases h₀
    cases hr : s.tree.get parent with
    | none =>
      simp only [hr] at h
      cases h
    | some record =>
      simp only [hr] at h
      obtain ⟨⟨commits, goal⟩, s₁, h₁, h⟩ := bind_ok h
      obtain ⟨visits, s₂, h₂, h⟩ := bind_ok h
      obtain ⟨tree, ht, rfl⟩ := onTree_ok h₂
      obtain ⟨reason, s₃, h₃, h⟩ := bind_ok h
      cases h
      obtain ⟨hreason, hstep⟩ := updateParentExhaustion_ok h₃
      exact ⟨record, s₁, tree, rfl, commitChildren_ok h₁, ht, hreason, hstep⟩

end Orchestrator.Core
