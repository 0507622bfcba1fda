import Orchestrator.Core.CommitSound
import Orchestrator.Server.Protocol

/-! # Server — The rules of a replay

What the replay of one child and of the parent can have done, in the vocabulary of the
commit rules: the inversions of `replayChild` and `replayParent`, and how they grow the tree.

* `replayChild_ok`: the five outcomes of a replayed child.
* `ReplayStep.grows`, `replayParent_grows`: their effect on the tree.
* `replayChild_sound`, `replayParent_sound`: what they leave behind at both ends.
-/

namespace Orchestrator.Server

open Core Services Lib

variable {F : Type} [Float64 F]

/-- The tree after the visit of a replayed duplicate's route. -/
def routedTree (parent : NodeId) (tree : Tree F) : Option NodeId → Tree F
  | some existing =>
    if existing = parent then tree else okOr tree ((tree.incrementVisits existing).map (·.2))
  | none => tree

/-- The frontier after a kept child: a goal does not enter it. -/
def replayedFrontier (frontier : Frontier) (id : NodeId) (goal : Bool) : Frontier :=
  if goal then frontier else okOr frontier (frontier.insert id)

/-- The scored child a kept item stands for. -/
def Item.kept (it : Item F) (mirror : CellMirror) : ScoredChild F :=
  ⟨it.payload mirror, false, false, it.result.goalHit⟩

/-- What a successful `replayChild` can have done. -/
inductive ReplayStep (parent : NodeId) (parentScore : F) (rules : CommitRules F) (it : Item F)
    (s : CommitState F) : ReplayAction → CommitState F → Prop where
  | pruneDropped (hp : it.prune = true) (ha : rules.pruneAction = .drop) :
      ReplayStep parent parentScore rules it s .pruneDropped s
  | pruned (hp : it.prune = true) (ha : rules.pruneAction = .exhausted)
      {record : NodeRecord F} (hr : Tree.Room s.tree.records parent record)
      {m : CellMirror} (hm : s.cellMirror.bump it.result.cellKey = some m) :
      ReplayStep parent parentScore rules it s (.pruned s.tree.len)
        { s with
          tree := prunedTree s.tree parent record hr (it.payload s.cellMirror)
          cellMirror := m
          seen := s.seen.insert it.result.stateHash s.tree.len
          allDuplicateStreaks := CommitState.trackedTo s.allDuplicateStreaks s.tree.len }
  | duplicate (hp : it.prune = false) (hd : (s.seen.get it.result.stateHash).isSome = true)
      {m : CellMirror} (hm : s.cellMirror.bump it.result.cellKey = some m) :
      ReplayStep parent parentScore rules it s (.duplicate (s.seen.get it.result.stateHash))
        { s with
          tree := routedTree parent s.tree (s.seen.get it.result.stateHash)
          cellMirror := m }
  | regression (hp : it.prune = false) (hd : s.seen.get it.result.stateHash = none)
      (hreg : isRegression s parentScore (it.payload s.cellMirror) rules = true) :
      ReplayStep parent parentScore rules it s .regression s
  | kept (hp : it.prune = false) (hd : s.seen.get it.result.stateHash = none)
      (hreg : isRegression s parentScore (it.payload s.cellMirror) rules = false)
      {record : NodeRecord F} (hr : Tree.Room s.tree.records parent record)
      {m : CellMirror} (hm : s.cellMirror.bump it.result.cellKey = some m) :
      ReplayStep parent parentScore rules it s
        (.kept s.tree.len (if it.result.goalHit then .goal else .frontier))
        { tree := keptTree s.tree parent record hr (it.kept s.cellMirror)
          frontier := replayedFrontier s.frontier s.tree.len it.result.goalHit
          cellMirror := m
          seen := s.seen.insert it.result.stateHash s.tree.len
          allDuplicateStreaks := CommitState.trackedTo s.allDuplicateStreaks s.tree.len }

theorem ignoreError_mark (f : Tree F → Except TreeError (Tree F)) (s : CommitState F) :
    ignoreError (CommitM.mark f) s = .ok () { s with tree := okOr s.tree (f s.tree) } := by
  cases h : f s.tree <;> simp [ignoreError, CommitM.mark, CommitM.onTree, h, Except.map, okOr]

theorem ignoreError_incrementVisits (id : NodeId) (s : CommitState F) :
    ignoreError (CommitM.incrementVisits id) s =
      .ok () { s with tree := okOr s.tree ((s.tree.incrementVisits id).map (·.2)) } := by
  cases h : s.tree.incrementVisits id <;>
    simp [ignoreError, CommitM.incrementVisits, CommitM.onTree, h, Except.map, okOr]

theorem ignoreError_onFrontier (f : Frontier → Except FrontierError Frontier)
    (s : CommitState F) :
    ignoreError (CommitM.onFrontier f) s =
      .ok () { s with frontier := okOr s.frontier (f s.frontier) } := by
  cases h : f s.frontier <;> simp [ignoreError, CommitM.onFrontier, h, okOr]

/-- A node just appended can be pruned. -/
theorem markPruned_push (t : Tree F) (parent : NodeId) (record : NodeRecord F)
    (hr : Tree.Room t.records parent record) (payload : NodePayload F) :
    okOr (t.push parent record hr payload) ((t.push parent record hr payload).markPruned t.len) =
      prunedTree t parent record hr payload := by
  simp [Tree.markPruned, Tree.get_push, NodeRecord.new, okOr, prunedTree]

/-- A node just appended can be a goal. -/
theorem markGoal_push (t : Tree F) (parent : NodeId) (record : NodeRecord F)
    (hr : Tree.Room t.records parent record) (payload : NodePayload F) :
    okOr (t.push parent record hr payload) ((t.push parent record hr payload).markGoal t.len) =
      (t.push parent record hr payload).update t.len Tree.setGoal Tree.setGoal_keeps := by
  simp [Tree.markGoal, Tree.get_push, NodeRecord.new, okOr]

theorem replayVisit_eq (parent : NodeId) (route : Option NodeId) (s : CommitState F) :
    replayVisit parent route s = .ok () { s with tree := routedTree parent s.tree route } := by
  cases route with
  | none => rfl
  | some existing =>
    by_cases hp : existing = parent
    · simp [replayVisit, routedTree, hp, runIf, pure, EStateM.pure]
    · simp [replayVisit, routedTree, hp, ignoreError_incrementVisits]

variable {parent : NodeId} {s s' : CommitState F} {action : ReplayAction} {it : Item F}
  {parentScore : F} {rules : CommitRules F} {allDuplicate : Bool}
  {evicted : Option FrontierEvictReason}

theorem replayPruned_ok {payload : NodePayload F}
    (h : replayPruned parent payload s = .ok action s') :
    ∃ record, ∃ hr : Tree.Room s.tree.records parent record, ∃ m,
      s.cellMirror.bump payload.cell = some m ∧ action = .pruned s.tree.len ∧
      s' = { s with
        tree := prunedTree s.tree parent record hr payload
        cellMirror := m
        seen := s.seen.insert payload.stateHash s.tree.len
        allDuplicateStreaks := CommitState.trackedTo s.allDuplicateStreaks s.tree.len } := by
  obtain ⟨id, s₁, h₁, h⟩ := bind_ok h
  obtain ⟨record, hr, rfl, rfl⟩ := insertChild_ok h₁
  obtain ⟨_, s₂, h₂, h⟩ := bind_ok h
  cases h₂
  obtain ⟨_, s₃, h₃, h⟩ := bind_ok h
  rw [ignoreError_mark] at h₃
  cases h₃
  obtain ⟨_, s₄, h₄, h⟩ := bind_ok h
  cases h₄
  obtain ⟨_, s₅, h₅, h⟩ := bind_ok h
  obtain ⟨m, hm, rfl⟩ := bumpCell_ok h₅
  cases h
  exact ⟨record, hr, m, hm, rfl, by rw [← markPruned_push]⟩

theorem replayKept_ok {mirror : CellMirror}
    (h : replayKept parent (it.payload mirror) it.result.goalHit s = .ok action s') :
    ∃ record, ∃ hr : Tree.Room s.tree.records parent record, ∃ m,
      s.cellMirror.bump it.result.cellKey = some m ∧
      action = .kept s.tree.len (if it.result.goalHit then .goal else .frontier) ∧
      s' = { tree := keptTree s.tree parent record hr (it.kept mirror)
             frontier := replayedFrontier s.frontier s.tree.len it.result.goalHit
             cellMirror := m
             seen := s.seen.insert it.result.stateHash s.tree.len
             allDuplicateStreaks :=
               CommitState.trackedTo s.allDuplicateStreaks s.tree.len } := by
  obtain ⟨id, s₁, h₁, h⟩ := bind_ok h
  obtain ⟨record, hr, rfl, rfl⟩ := insertChild_ok h₁
  obtain ⟨_, s₂, h₂, h⟩ := bind_ok h
  cases h₂
  obtain ⟨_, s₃, h₃, h⟩ := bind_ok h
  cases h₃
  obtain ⟨_, s₄, h₄, h⟩ := bind_ok h
  obtain ⟨m, hm, rfl⟩ := bumpCell_ok h₄
  obtain ⟨status, s₅, h₅, h⟩ := bind_ok h
  cases h
  refine ⟨record, hr, m, hm, ?_⟩
  cases hg : it.result.goalHit with
  | true =>
    simp only [enterFrontier, hg, if_true] at h₅
    obtain ⟨_, s₆, h₆, h₅⟩ := bind_ok h₅
    rw [ignoreError_mark] at h₆
    cases h₆
    cases h₅
    refine ⟨rfl, ?_⟩
    simp only [keptTree, Item.kept, hg, replayedFrontier, if_true, ← markGoal_push]
    rfl
  | false =>
    simp only [enterFrontier, hg, Bool.false_eq_true, if_false] at h₅
    obtain ⟨_, s₆, h₆, h₅⟩ := bind_ok h₅
    rw [ignoreError_onFrontier] at h₆
    cases h₆
    cases h₅
    refine ⟨rfl, ?_⟩
    simp only [keptTree, Item.kept, hg, replayedFrontier, Bool.false_eq_true, if_false]
    rfl

theorem replayChild_ok (h : replayChild parent parentScore rules it s = .ok action s') :
    ReplayStep parent parentScore rules it s action s' := by
  obtain ⟨_, s₁, h₁, h⟩ := bind_ok h
  cases h₁
  cases hp : it.prune with
  | true =>
    cases ha : rules.pruneAction with
    | drop =>
      simp only [hp, ha] at h
      cases h
      exact .pruneDropped hp ha
    | exhausted =>
      simp only [hp, ha] at h
      obtain ⟨record, hr, m, hm, rfl, rfl⟩ := replayPruned_ok h
      exact .pruned hp ha hr hm
  | false =>
    cases hd : s.seen.get it.result.stateHash with
    | some existing =>
      simp only [hp, hd, Option.isSome_some, if_true] at h
      obtain ⟨_, s₁, h₁, h⟩ := bind_ok h
      obtain ⟨m, hm, rfl⟩ := bumpCell_ok h₁
      obtain ⟨_, s₂, h₂, h⟩ := bind_ok h
      cases h₂
      obtain ⟨_, s₃, h₃, h⟩ := bind_ok h
      rw [replayVisit_eq] at h₃
      cases h₃
      cases h
      exact .duplicate hp (by rw [hd]; rfl) hm
    | none =>
      simp only [hp, hd, Option.isSome_none] at h
      cases hreg : isRegression s parentScore (it.payload s.cellMirror) rules with
      | true =>
        simp only [hreg] at h
        cases h
        exact .regression hp hd hreg
      | false =>
        simp only [hreg] at h
        obtain ⟨record, hr, m, hm, rfl, rfl⟩ := replayKept_ok h
        exact .kept hp hd hreg hr hm

theorem replayParent_ok (h : replayParent parent allDuplicate rules s = .ok evicted s') :
    ∃ visits tree, s.tree.incrementVisits parent = .ok (visits, tree) ∧
      evicted = evictReason rules visits (s.streakAfter parent allDuplicate) ∧
      ExhaustionStep parent (({ s with tree := tree } : CommitState F).withStreak parent
        (s.streakAfter parent allDuplicate)) evicted s' := by
  obtain ⟨visits, s₁, h₁, h⟩ := bind_ok h
  obtain ⟨tree, ht, rfl⟩ := onTree_ok h₁
  obtain ⟨hreason, hstep⟩ := updateParentExhaustion_ok h
  exact ⟨visits, tree, ht, hreason, hstep⟩

/-! ### How a replay grows the tree -/

/-- The node an item becomes. -/
def Item.image (it : Item F) (parent : NodeId) (depth : Nat) : NodeImage F :=
  ⟨some parent, depth, it.capture.snapshot, it.result.progressScore, it.result.cellKey,
    it.result.stateHash⟩

theorem okOr_visit (t : Tree F) (id : NodeId) :
    (okOr t ((t.incrementVisits id).map (·.2))).images = t.images ∧
      ∀ i, (okOr t ((t.incrementVisits id).map (·.2))).statusOf i = t.statusOf i := by
  cases h : t.incrementVisits id with
  | error e => exact ⟨rfl, fun _ => rfl⟩
  | ok out =>
    obtain ⟨visits, tree⟩ := out
    refine ⟨?_, Tree.statusOf_incrementVisits h⟩
    obtain ⟨_, -, -, rfl⟩ := Tree.incrementVisits_ok h
    exact Tree.images_update _ _ _ (Tree.setVisits_keeps _)

theorem routedTree_same (parent : NodeId) (t : Tree F) (route : Option NodeId) :
    (routedTree parent t route).images = t.images ∧
      ∀ i, (routedTree parent t route).statusOf i = t.statusOf i := by
  unfold routedTree
  split
  · split
    · exact ⟨rfl, fun _ => rfl⟩
    · exact okOr_visit t _
  · exact ⟨rfl, fun _ => rfl⟩

/-- One replayed child: nothing, or one more node with the status its row gets. -/
theorem ReplayStep.grows (h : ReplayStep parent parentScore rules it s action s') :
    s.tree.Grows s'.tree (fun _ => False) ∧
      (action.created = none ∧ s'.tree.images = s.tree.images ∨
        ∃ status depth, action.created = some (s.tree.len, status) ∧
          s'.tree.images = s.tree.images ++ [it.image parent depth] ∧
          s'.tree.statusOf s.tree.len = some status) := by
  cases h with
  | pruneDropped hp ha => exact ⟨.of_same List.prefix_rfl fun _ _ => rfl, .inl ⟨rfl, rfl⟩⟩
  | regression hp hd hreg => exact ⟨.of_same List.prefix_rfl fun _ _ => rfl, .inl ⟨rfl, rfl⟩⟩
  | duplicate hp hd hm =>
    obtain ⟨himages, hstatus⟩ := routedTree_same parent s.tree (s.seen.get it.result.stateHash)
    exact ⟨.of_same (himages ▸ List.prefix_rfl) fun id _ => hstatus id, .inl ⟨rfl, himages⟩⟩
  | pruned hp ha hr hm =>
    have himages := s.tree.images_push parent _ hr (it.payload s.cellMirror)
    rw [← Tree.images_update _ s.tree.len _ Tree.setPruned_keeps] at himages
    refine ⟨.of_same (himages ▸ List.prefix_append _ _) fun id hid => ?_,
      .inr ⟨.pruned, _, rfl, himages, ?_⟩⟩
    · rw [Tree.statusOf_prunedTree, if_neg (Nat.ne_of_lt hid)]
    · rw [Tree.statusOf_prunedTree, if_pos rfl]
  | kept hp hd hreg hr hm =>
    have himages := s.tree.images_keptTree parent _ hr (it.kept s.cellMirror)
    refine ⟨.of_same (himages ▸ List.prefix_append _ _) fun id hid => ?_,
      .inr ⟨_, _, rfl, himages, ?_⟩⟩
    · rw [Tree.statusOf_keptTree, if_neg (Nat.ne_of_lt hid)]
    · rw [Tree.statusOf_keptTree, if_pos rfl]
      rfl

theorem replayParent_grows (h : replayParent parent allDuplicate rules s = .ok evicted s') :
    s'.tree.images = s.tree.images ∧ s.tree.Grows s'.tree (· = parent) := by
  obtain ⟨visits, tree, hv, -, hstep⟩ := replayParent_ok h
  exact parent_grows hv hstep

/-- A child is adopted by a node with its hash. -/
theorem adoptable_record {r : Runner F} {id : NodeId} {record : NodeRecord F}
    (h : adoptable r parent it = some (id, record)) :
    r.commitState.tree.get id = some record ∧ record.payload.stateHash = it.result.stateHash := by
  unfold adoptable at h
  split at h
  · cases h
  · split at h
    · cases h
    · rename_i hget
      split at h
      · rename_i hsame
        cases h
        exact ⟨hget, hsame.2⟩
      · cases h

/-! ### The seen map after a replay -/

/-- A replayed child that is given a node puts its hash in the seen map. -/
theorem ReplayStep.contains_seen (h : ReplayStep parent parentScore rules it s action s')
    (hash : StateHash) :
    s'.seen.contains hash = true ↔ s.seen.contains hash = true ∨
      action.created.isSome = true ∧ hash = it.result.stateHash := by
  cases h with
  | pruneDropped | duplicate | regression => simp [ReplayAction.created]
  | pruned | kept => simp [ReplayAction.created, SeenMap.contains_insert]

theorem ReplayStep.knows (h : ReplayStep parent parentScore rules it s action s') (hs : s.Knows) :
    s'.Knows := by
  intro image himage
  rw [h.contains_seen]
  rcases h.grows.2 with ⟨-, himages⟩ | ⟨status, depth, hid, himages, -⟩
  · exact .inl (hs image (himages ▸ himage))
  · rw [himages, List.mem_append, List.mem_singleton] at himage
    rcases himage with himage | rfl
    · exact .inl (hs image himage)
    · exact .inr ⟨by rw [hid]; rfl, rfl⟩

theorem replayParent_seen (h : replayParent parent allDuplicate rules s = .ok evicted s') :
    s'.seen = s.seen := by
  obtain ⟨visits, tree, -, -, hstep⟩ := replayParent_ok h
  rw [hstep.seen]
  rfl

/-! ### Both ends of a replay -/

/-- An ignored error keeps what the failed rule did. -/
theorem leads_ignoreError {α : Type} {x : CommitM F α} {P R : CommitState F → Prop}
    {Q : α → CommitState F → Prop} {E : CommitState F → Prop} (h : Leads P x Q E)
    (hQ : ∀ a s, Q a s → R s) (hE : ∀ s, E s → R s) :
    Leads P (ignoreError x) (fun _ => R) R := by
  intro s hs
  have hend := h s hs
  unfold ignoreError
  cases hx : x s with
  | ok a s' =>
    simp only [hx] at hend ⊢
    exact hQ a s' hend
  | error e s' =>
    simp only [hx] at hend
    cases e <;> exact hE s' hend

variable {old : List (NodeImage F)}

theorem replayPruned_sound (parent : NodeId) (payload : NodePayload F) :
    Leads (CommitState.Sound old) (replayPruned parent payload) (fun _ => CommitState.Sound old)
      (CommitState.Sound old) := by
  have framed : ∀ id, Framed fun s : CommitState F => s.Sound old ∧ s.Names id payload.stateHash :=
    fun id => (framed_sound old).and (framed_names id _)
  refine (insertChild_sound parent payload).bind fun id => ?_
  refine ((framed id).ensureTracking id |>.post (fun _ _ h => h) fun _ h => h.1).bind fun _ => ?_
  refine Leads.bind (R := fun _ s => s.Sound old ∧ s.Names id payload.stateHash) ?_ fun _ => ?_
  · refine Leads.post (leads_ignoreError ((framed id).mark ?_) (fun _ _ h => h) fun _ h => h)
      (fun _ _ h => h) fun _ h => h.1
    intro t t' h
    obtain ⟨_, -, -, rfl⟩ := Tree.markPruned_ok h
    exact Tree.images_update _ _ _ Tree.setPruned_keeps
  · refine (markSeen_sound id _).bind fun _ => ?_
    refine ((framed id).bumpCell _ |>.post (fun _ _ h => h) fun _ h => h.1).bind fun _ => ?_
    exact leads_pure fun _ hs => hs.1

theorem enterFrontier_sound (id : NodeId) (hash : StateHash) (goal : Bool) :
    Leads (fun s : CommitState F => s.Sound old ∧ s.Names id hash) (enterFrontier id goal)
      (fun _ => CommitState.Sound old) (CommitState.Sound old) := by
  unfold enterFrontier
  split
  · refine Leads.bind (R := fun _ => CommitState.Sound old) ?_ fun _ => leads_pure fun _ hs => hs
    refine leads_ignoreError (((framed_sound old).and (framed_names id hash)).mark ?_)
      (fun _ _ h => h.1) fun _ h => h.1
    intro t t' h
    obtain ⟨_, -, -, rfl⟩ := Tree.markGoal_ok h
    exact Tree.images_update _ _ _ Tree.setGoal_keeps
  · refine Leads.bind (R := fun _ => CommitState.Sound old) ?_ fun _ => leads_pure fun _ hs => hs
    exact leads_ignoreError (onFrontier_insert_sound id hash) (fun _ _ h => h.1) fun _ h => h

theorem replayKept_sound (parent : NodeId) (payload : NodePayload F) (goal : Bool) :
    Leads (CommitState.Sound old) (replayKept parent payload goal)
      (fun _ => CommitState.Sound old) (CommitState.Sound old) := by
  have framed : ∀ id, Framed fun s : CommitState F => s.Sound old ∧ s.Names id payload.stateHash :=
    fun id => (framed_sound old).and (framed_names id _)
  refine (insertChild_sound parent payload).bind fun id => ?_
  refine ((framed id).ensureTracking id |>.post (fun _ _ h => h) fun _ h => h.1).bind fun _ => ?_
  refine (markSeen_sound id _).bind fun _ => ?_
  refine ((framed id).bumpCell _ |>.post (fun _ _ h => h) fun _ h => h.1).bind fun _ => ?_
  exact (enterFrontier_sound id _ goal).bind fun _ => leads_pure fun _ hs => hs

theorem replayDuplicate_sound (parent : NodeId) (payload : NodePayload F) :
    Leads (CommitState.Sound old) (replayDuplicate parent payload)
      (fun _ => CommitState.Sound old) (CommitState.Sound old) := by
  have framed := framed_sound old
  refine (framed.bumpCell _).bind fun _ => leads_get.bind fun s => ?_
  refine Leads.bind (R := fun _ => CommitState.Sound old) ?_ fun _ => leads_pure fun _ hs => hs
  cases hroute : s.seen.get payload.stateHash with
  | none => exact leads_pure fun s hs => hs.1
  | some existing =>
    refine Leads.pre (P := CommitState.Sound old) (Leads.runIf ?_) fun _ h => h.1
    exact leads_ignoreError (framed.incrementVisits existing) (fun _ _ h => h) fun _ h => h

/-- Both ends of the replay of a child. -/
theorem replayChild_sound (parent : NodeId) (parentScore : F) (rules : CommitRules F)
    (it : Item F) :
    Leads (CommitState.Sound old) (replayChild parent parentScore rules it)
      (fun _ => CommitState.Sound old) (CommitState.Sound old) := by
  refine leads_get.bind fun s => Leads.pre (P := CommitState.Sound old) ?_ fun _ h => h.1
  split
  · split
    · exact leads_pure fun _ hs => hs
    · exact replayPruned_sound parent _
  · split
    · exact replayDuplicate_sound parent _
    · split
      · exact leads_pure fun _ hs => hs
      · exact replayKept_sound parent _ _

/-- Both ends of the parent's part of a replay. -/
theorem replayParent_sound (parent : NodeId) (allDuplicate : Bool) (rules : CommitRules F) :
    Leads (CommitState.Sound old) (replayParent parent allDuplicate rules)
      (fun _ => CommitState.Sound old) (CommitState.Sound old) :=
  ((framed_sound old).incrementVisits parent).bind fun visits =>
    updateParentExhaustion_sound parent visits allDuplicate rules

end Orchestrator.Server
