import Orchestrator.Core.CommitGrowth

/-! # Core — What a commit leaves behind

A commit that fails keeps the changes it has made. Whatever the end, the nodes of the tree
before it are still the first nodes of the tree, the seen map speaks only of nodes of the
tree, under their hashes, and so does the frontier.

* `Inserts`, `leads_commitBatch`: what has to be shown of one insertion.
* `commitBatch_sound`, `commitBatch_under`: both ends of `commit_batch`.
* `ChildSteps.contains_seen`, `ChildSteps.knows`: the seen map after a successful batch.
-/

namespace Orchestrator.Core

open Lib

variable {F : Type} [Float64 F]

/-- The node `id` of the tree has this state hash. -/
def CommitState.Names (s : CommitState F) (id : NodeId) (hash : StateHash) : Prop :=
  ∃ image, s.tree.images[id]? = some image ∧ image.stateHash = hash

/-- The tree has grown from `old`, and the other structures speak of its nodes. -/
structure CommitState.Sound (old : List (NodeImage F)) (s : CommitState F) : Prop where
  images : old <+: s.tree.images
  seen : ∀ hash id, s.seen.get hash = some id → s.Names id hash
  frontier : ∀ id ∈ s.frontier.entries, id < s.tree.len

/-- Every hash of a node is in the seen map. -/
def CommitState.Knows (s : CommitState F) : Prop :=
  ∀ image ∈ s.tree.images, s.seen.contains image.stateHash = true

/-- A property of the nodes, the seen map and the frontier. -/
def Framed (P : CommitState F → Prop) : Prop :=
  ∀ s s' : CommitState F, s'.tree.images = s.tree.images → s'.seen = s.seen →
    s'.frontier = s.frontier → P s → P s'

variable {s s' : CommitState F} {id : NodeId} {hash : StateHash} {parent : NodeId} {parentScore : F}
  {rules : CommitRules F} {commit : ChildCommit} {children : List (ScoredChild F)}
  {commits : List ChildCommit} {outcome : BatchCommitOutcome}

theorem CommitState.Names.later (h : s.Names id hash) (hpre : s.tree.images <+: s'.tree.images) :
    s'.Names id hash := by
  obtain ⟨image, himage, hhash⟩ := h
  obtain ⟨later, hlater⟩ := hpre
  refine ⟨image, ?_, hhash⟩
  rw [← hlater, List.getElem?_append_left (List.getElem?_eq_some_iff.mp himage).1]
  exact himage

theorem CommitState.Names.lt_len (h : s.Names id hash) : id < s.tree.len := by
  obtain ⟨image, himage, -⟩ := h
  rw [← s.tree.length_images]
  exact (List.getElem?_eq_some_iff.mp himage).1

theorem CommitState.Names.record (h : s.Names id hash) :
    ∃ record, s.tree.get id = some record ∧ record.payload.stateHash = hash := by
  obtain ⟨image, himage, hhash⟩ := h
  rw [Tree.getElem?_images, Option.map_eq_some_iff] at himage
  obtain ⟨record, hrecord, rfl⟩ := himage
  exact ⟨record, hrecord, hhash⟩

theorem CommitState.fromRoot_sound (payload : NodePayload F) : (fromRoot payload).Sound [] := by
  refine ⟨List.nil_prefix, fun hash id hid => ?_, fun id hid => ?_⟩
  · simp only [fromRoot, SeenMap.get_insert, SeenMap.get_new] at hid
    split at hid
    · rename_i hh
      cases hid
      exact ⟨_, rfl, hh.symm⟩
    · cases hid
  · simp only [fromRoot, Frontier.withRoot, List.mem_singleton] at hid
    rw [hid]
    exact Tree.len_pos _

theorem framed_sound (old : List (NodeImage F)) : Framed (CommitState.Sound old) := by
  intro s s' himages hseen hfrontier h
  have hlen : s'.tree.len = s.tree.len := by simpa using congrArg List.length himages
  refine ⟨himages ▸ h.images, fun hash id hid => ?_, fun id hid => ?_⟩
  · exact (h.seen hash id (hseen ▸ hid)).later (himages ▸ List.prefix_rfl)
  · rw [hlen]
    exact h.frontier id (hfrontier ▸ hid)

theorem framed_names (id : NodeId) (hash : StateHash) :
    Framed fun s : CommitState F => s.Names id hash :=
  fun _ _ himages _ _ h => h.later (himages ▸ List.prefix_rfl)

theorem Framed.and {P Q : CommitState F → Prop} (hP : Framed P) (hQ : Framed Q) :
    Framed fun s => P s ∧ Q s :=
  fun s s' himages hseen hfrontier h =>
    ⟨hP s s' himages hseen hfrontier h.1, hQ s s' himages hseen hfrontier h.2⟩

/-! ### The steps of a commit -/

section

open CommitM

variable {P : CommitState F → Prop}

theorem Framed.onTree {α : Type} {f : Tree F → Except TreeError (α × Tree F)} (hP : Framed P)
    (hf : ∀ t a t', f t = .ok (a, t') → t'.images = t.images) :
    Leads P (CommitM.onTree f) (fun _ => P) P := by
  intro s hs
  cases hft : f s.tree with
  | error e =>
    simp only [CommitM.onTree, hft]
    exact hs
  | ok out =>
    obtain ⟨a, t⟩ := out
    simp only [CommitM.onTree, hft]
    exact hP s _ (hf _ _ _ hft) rfl rfl hs

theorem Framed.mark {f : Tree F → Except TreeError (Tree F)} (hP : Framed P)
    (hf : ∀ t t', f t = .ok t' → t'.images = t.images) :
    Leads P (CommitM.mark f) (fun _ => P) P := by
  refine hP.onTree fun t a t' h => ?_
  cases hft : f t with
  | error e => simp [hft, Except.map] at h
  | ok t₁ =>
    simp only [hft, Except.map, Except.ok.injEq, Prod.mk.injEq, true_and] at h
    exact hf t t' (by rw [hft, h])

theorem Framed.incrementVisits (hP : Framed P) (id : NodeId) :
    Leads P (CommitM.incrementVisits id) (fun _ => P) P :=
  hP.onTree fun _ _ _ h => Tree.incrementVisits_grows h

theorem Framed.ensureTracking (hP : Framed P) (id : NodeId) :
    Leads P (CommitM.ensureTracking id) (fun _ => P) P :=
  leads_modify fun s hs => hP s _ rfl rfl rfl hs

theorem Framed.bumpCell (hP : Framed P) (cell : CellKey) :
    Leads P (CommitM.bumpCell cell) (fun _ => P) P := by
  intro s hs
  cases hm : s.cellMirror.bump cell with
  | none =>
    simp only [CommitM.bumpCell, hm]
    exact hs
  | some m =>
    simp only [CommitM.bumpCell, hm]
    exact hP s _ rfl rfl rfl hs

end

variable {old : List (NodeImage F)}

/-- The new node has the hash of its payload. -/
theorem insertChild_sound (parent : NodeId) (payload : NodePayload F) :
    Leads (CommitState.Sound old) (CommitM.insertChild parent payload)
      (fun id s => s.Sound old ∧ s.Names id payload.stateHash) (CommitState.Sound old) := by
  intro s hs
  split
  · rename_i id s' h
    obtain ⟨record, hr, rfl, rfl⟩ := insertChild_ok h
    have himages := s.tree.images_push parent record hr payload
    have hpre : s.tree.images <+: (s.tree.push parent record hr payload).images :=
      himages ▸ List.prefix_append _ _
    refine ⟨⟨hs.images.trans hpre, fun hash id hid => ?_, fun id hid => ?_⟩, ?_⟩
    · exact (hs.seen hash id hid).later hpre
    · rw [Tree.len_push]
      exact Nat.lt_succ_of_lt (hs.frontier id hid)
    · refine ⟨payload.image (some parent) (record.depth + 1), ?_, rfl⟩
      rw [himages, ← s.tree.length_images]
      simp
  · rename_i e s' h
    unfold CommitM.insertChild CommitM.onTree at h
    split at h
    · cases h
      exact hs
    · cases h

theorem markSeen_sound (id : NodeId) (hash : StateHash) :
    Leads (fun s : CommitState F => s.Sound old ∧ s.Names id hash) (CommitM.markSeen hash id)
      (fun _ s => s.Sound old ∧ s.Names id hash) (CommitState.Sound old) := by
  refine leads_modify fun s hs => ⟨⟨hs.1.images, fun h i hi => ?_, hs.1.frontier⟩, hs.2⟩
  rw [SeenMap.get_insert] at hi
  split at hi
  · rename_i hh
    subst hh
    cases hget : s.seen.get h with
    | none =>
      rw [hget] at hi
      cases hi
      exact hs.2
    | some first =>
      rw [hget] at hi
      cases hi
      exact hs.1.seen h first hget
  · exact hs.1.seen h i hi

theorem onFrontier_insert_sound (id : NodeId) (hash : StateHash) :
    Leads (fun s : CommitState F => s.Sound old ∧ s.Names id hash)
      (CommitM.onFrontier (·.insert id)) (fun _ s => s.Sound old ∧ s.Names id hash)
      (CommitState.Sound old) := by
  intro s hs
  cases hf : s.frontier.insert id with
  | error e =>
    simp only [CommitM.onFrontier, hf]
    exact hs.1
  | ok frontier =>
    simp only [CommitM.onFrontier, hf]
    refine ⟨⟨hs.1.images, hs.1.seen, fun i hi => ?_⟩, hs.2⟩
    rcases (Frontier.mem_insert hf i).mp hi with hi | rfl
    · exact hs.1.frontier i hi
    · exact hs.2.lt_len

theorem onFrontier_remove_sound (id : NodeId) :
    Leads (CommitState.Sound old) (CommitM.onFrontier (·.remove id))
      (fun _ => CommitState.Sound old) (CommitState.Sound (F := F) old) := by
  intro s hs
  cases hf : s.frontier.remove id with
  | error e =>
    simp only [CommitM.onFrontier, hf]
    exact hs
  | ok frontier =>
    simp only [CommitM.onFrontier, hf]
    exact ⟨hs.images, hs.seen, fun i hi => hs.frontier i ((Frontier.mem_remove hf i).mp hi).1⟩

/-! ### The functions of a commit

What a commit does to the tree it does with `insert_child`. A property before the insertion, one
of the new node after it and one to end in are carried through the rest of the rules. -/

section

variable {P P' : CommitState F → Prop} {parent : NodeId}

/-- From `P` an insertion leads to `N`, which the rest of a commit keeps and which implies `P'`. -/
structure Inserts (parent : NodeId) (payload : NodePayload F) (P P' : CommitState F → Prop)
    (N : NodeId → CommitState F → Prop) : Prop where
  skip : ∀ s, P s → P' s
  framed : Framed P'
  insert : Leads P (CommitM.insertChild parent payload) N P'
  framedNew : ∀ id, Framed (N id)
  new : ∀ id s, N id s → P' s
  seen : ∀ id, Leads (N id) (CommitM.markSeen payload.stateHash id) (fun _ => N id) P'
  frontier : ∀ id, Leads (N id) (CommitM.onFrontier (·.insert id)) (fun _ => N id) P'

theorem Framed.commitDuplicate (hP : Framed P) (child : ScoredChild F) :
    Leads P (Core.commitDuplicate parent child) (fun _ => P) P := by
  refine (hP.bumpCell _).bind fun _ => leads_get.bind fun s => ?_
  refine Leads.bind (R := fun _ => P) ?_ fun _ => leads_pure fun _ hs => hs
  cases hroute : s.seen.get child.payload.stateHash with
  | none => exact leads_pure fun s hs => hs.1
  | some existing =>
    refine Leads.pre (P := P) (Leads.runIf ?_) fun _ h => h.1
    exact (hP.incrementVisits existing).bind fun _ => leads_pure fun _ hs => hs

section

variable {child : ScoredChild F} {N : NodeId → CommitState F → Prop}
  (h : Inserts parent child.payload P P' N)

include h

theorem Inserts.commitPruned : Leads P (Core.commitPruned parent child) (fun _ => P') P' := by
  have weaken : ∀ {α : Type} {id : NodeId} {x : CommitM F α},
      Leads (N id) x (fun _ => N id) (N id) → Leads (N id) x (fun _ => N id) P' :=
    fun hx => hx.post (fun _ _ h => h) (h.new _)
  refine h.insert.bind fun id => (weaken ((h.framedNew id).ensureTracking id)).bind fun _ => ?_
  refine (weaken ((h.framedNew id).mark fun t t' ht => ?_)).bind fun _ => ?_
  · obtain ⟨_, -, -, rfl⟩ := Tree.markPruned_ok ht
    exact Tree.images_update _ _ _ Tree.setPruned_keeps
  refine (h.seen id).bind fun _ => (weaken ((h.framedNew id).bumpCell _)).bind fun _ => ?_
  exact leads_pure (h.new id)

theorem Inserts.commitKept : Leads P (Core.commitKept parent child) (fun _ => P') P' := by
  have weaken : ∀ {α : Type} {id : NodeId} {x : CommitM F α},
      Leads (N id) x (fun _ => N id) (N id) → Leads (N id) x (fun _ => N id) P' :=
    fun hx => hx.post (fun _ _ h => h) (h.new _)
  refine h.insert.bind fun id => (weaken ((h.framedNew id).ensureTracking id)).bind fun _ => ?_
  refine (h.seen id).bind fun _ => (weaken ((h.framedNew id).bumpCell _)).bind fun _ => ?_
  refine (h.frontier id).bind fun _ => ?_
  refine (weaken ((h.framedNew id).mark fun t t' ht => ?_)).runIf.bind fun _ => ?_
  · obtain ⟨_, -, -, rfl⟩ := Tree.markGoal_ok ht
    exact Tree.images_update _ _ _ Tree.setGoal_keeps
  exact leads_pure (h.new id)

theorem Inserts.commitChild (parentScore : F) (rules : CommitRules F) :
    Leads P (Core.commitChild parent parentScore child rules) (fun _ => P') P' := by
  have nothing : ∀ {disposition : CommitDisposition},
      Leads P (pure ⟨disposition, none, none⟩ : CommitM F ChildCommit) (fun _ => P') P' :=
    leads_pure h.skip
  unfold Core.commitChild
  split
  · split
    · exact nothing
    · exact h.commitPruned
  · split
    · exact (h.framed.commitDuplicate child).pre h.skip
    · refine leads_get.bind fun s => Leads.pre ?_ fun _ h => h.1
      split
      · exact nothing
      · exact h.commitKept

end

section

variable (hP : Framed P) (hremove : Leads P (CommitM.onFrontier (·.remove parent)) (fun _ => P) P)

include hP hremove

theorem Framed.evictParent : Leads P (Core.evictParent parent) (fun _ => P) P := by
  refine (hP.mark fun t t' h => ?_).bind fun _ => leads_get.bind fun s => ?_
  · obtain ⟨_, -, -, rfl⟩ := Tree.markExhausted_ok h
    exact Tree.images_update _ _ _ Tree.setExhausted_keeps
  · exact hremove.runIf.pre fun _ h => h.1

theorem Framed.updateParentExhaustion (visits : Nat) (allDuplicate : Bool)
    (rules : CommitRules F) :
    Leads P (Core.updateParentExhaustion parent visits allDuplicate rules) (fun _ => P) P := by
  refine (hP.ensureTracking parent).bind fun _ => leads_get.bind fun s => ?_
  refine Leads.bind (R := fun _ => P) (Leads.pre ?_ fun _ h => h.1) fun streak => ?_
  · unfold nextStreak
    split
    · split
      · exact leads_pure fun _ hs => hs
      · exact leads_throw fun _ hs => hs
    · exact leads_pure fun _ hs => hs
  · refine Leads.bind (R := fun _ => P) (leads_modify fun s hs => hP s _ rfl rfl rfl hs)
      fun _ => ?_
    exact (hP.evictParent hremove).runIf.bind fun _ => leads_pure fun _ hs => hs

end

/-- A batch ends where its children lead. -/
theorem leads_commitBatch {children : List (ScoredChild F)} {rules : CommitRules F}
    (hskip : ∀ s, P s → P' s) (hP : Framed P')
    (hremove : Leads P' (CommitM.onFrontier (·.remove parent)) (fun _ => P') P')
    (hchildren : ∀ score, Leads P (commitChildren parent score rules children none)
      (fun _ => P') P') :
    Leads P (commitBatch parent children rules) (fun _ => P') P' := by
  unfold commitBatch
  split
  · exact leads_throw hskip
  · refine leads_get.bind fun s => Leads.pre (P := P) ?_ fun _ h => h.1
    split
    · exact leads_throw hskip
    · refine (hchildren _).bind fun _ => (hP.incrementVisits parent).bind fun visits => ?_
      exact (hP.updateParentExhaustion hremove visits _ rules).bind fun _ =>
        leads_pure fun _ hs => hs

end

/-! ### What a commit keeps -/

theorem inserts_sound (parent : NodeId) (payload : NodePayload F) :
    Inserts parent payload (CommitState.Sound old) (CommitState.Sound old)
      fun id s => s.Sound old ∧ s.Names id payload.stateHash where
  skip _ h := h
  framed := framed_sound old
  insert := insertChild_sound parent payload
  framedNew id := (framed_sound old).and (framed_names id _)
  new _ _ h := h.1
  seen id := markSeen_sound id _
  frontier id := onFrontier_insert_sound id _

theorem updateParentExhaustion_sound (parent : NodeId) (visits : Nat) (allDuplicate : Bool)
    (rules : CommitRules F) :
    Leads (CommitState.Sound old) (updateParentExhaustion parent visits allDuplicate rules)
      (fun _ => CommitState.Sound old) (CommitState.Sound old) :=
  (framed_sound old).updateParentExhaustion (onFrontier_remove_sound parent) visits allDuplicate
    rules

theorem commitChildren_sound (parent : NodeId) (parentScore : F) (rules : CommitRules F)
    (children : List (ScoredChild F)) (goalNode : Option NodeId) :
    Leads (CommitState.Sound old) (commitChildren parent parentScore rules children goalNode)
      (fun _ => CommitState.Sound old) (CommitState.Sound old) := by
  induction children generalizing goalNode with
  | nil => exact leads_pure fun _ hs => hs
  | cons child rest ih =>
    refine ((inserts_sound parent child.payload).commitChild parentScore rules).bind fun _ => ?_
    exact (ih _).bind fun _ => leads_pure fun _ hs => hs

/-- **Both ends of a commit.** The tree has only grown, and the seen map and the frontier
speak of its nodes. -/
theorem commitBatch_sound (parent : NodeId) (children : List (ScoredChild F))
    (rules : CommitRules F) :
    Leads (CommitState.Sound old) (commitBatch parent children rules)
      (fun _ => CommitState.Sound old) (CommitState.Sound old) :=
  leads_commitBatch (fun _ h => h) (framed_sound old) (onFrontier_remove_sound parent)
    fun score => commitChildren_sound parent score rules children none

/-! ### How far a commit grows the tree -/

/-- The tree has at most `n` nodes. -/
def CommitState.Under (n : Nat) (s : CommitState F) : Prop := s.tree.len ≤ n

theorem framed_under (n : Nat) : Framed fun s : CommitState F => s.Under n := by
  intro s s' himages _ _ h
  have hlen : s'.tree.len = s.tree.len := by simpa using congrArg List.length himages
  exact hlen.trans_le h

theorem CommitState.Under.le {n n' : Nat} (h : s.Under n) (hn : n ≤ n') : s.Under n' :=
  Nat.le_trans h hn

theorem insertChild_under (n : Nat) (parent : NodeId) (payload : NodePayload F) :
    Leads (CommitState.Under n) (CommitM.insertChild parent payload)
      (fun _ => CommitState.Under (n + 1)) (CommitState.Under (n + 1)) := by
  intro s hs
  split
  · rename_i id s' h
    obtain ⟨record, hr, rfl, rfl⟩ := insertChild_ok h
    exact (s.tree.len_push parent record hr payload).trans_le (Nat.succ_le_succ hs)
  · rename_i e s' h
    unfold CommitM.insertChild CommitM.onTree at h
    split at h
    · cases h
      exact hs.le (Nat.le_succ n)
    · cases h

theorem onFrontier_under (n : Nat) (f : Frontier → Except FrontierError Frontier) :
    Leads (CommitState.Under n) (CommitM.onFrontier f) (fun _ => CommitState.Under n)
      (CommitState.Under (F := F) n) := by
  intro s hs
  cases hf : f s.frontier <;> simp only [CommitM.onFrontier, hf] <;> exact hs

theorem inserts_under (n : Nat) (parent : NodeId) (payload : NodePayload F) :
    Inserts parent payload (CommitState.Under n) (CommitState.Under (n + 1))
      fun _ => CommitState.Under (n + 1) where
  skip _ h := h.le (Nat.le_succ n)
  framed := framed_under (n + 1)
  insert := insertChild_under n parent payload
  framedNew _ := framed_under (n + 1)
  new _ _ h := h
  seen _ := leads_modify fun _ h => h
  frontier _ := onFrontier_under (n + 1) _

theorem commitChildren_under (n : Nat) (parent : NodeId) (parentScore : F) (rules : CommitRules F)
    (children : List (ScoredChild F)) (goalNode : Option NodeId) :
    Leads (CommitState.Under n) (commitChildren parent parentScore rules children goalNode)
      (fun _ => CommitState.Under (n + children.length))
      (CommitState.Under (n + children.length)) := by
  induction children generalizing n goalNode with
  | nil => exact leads_pure fun _ hs => hs
  | cons child rest ih =>
    rw [List.length_cons, Nat.add_comm rest.length, ← Nat.add_assoc]
    refine (((inserts_under n parent child.payload).commitChild parentScore rules).post
      (fun _ _ h => h) fun _ h => h.le (Nat.le_add_right _ _)).bind fun commit => ?_
    exact (ih (n + 1) _).bind fun _ => leads_pure fun _ hs => hs

/-- **Growth.** A batch adds at most one node for each child, whatever its end. -/
theorem commitBatch_under (n : Nat) (parent : NodeId) (children : List (ScoredChild F))
    (rules : CommitRules F) :
    Leads (CommitState.Under n) (commitBatch parent children rules)
      (fun _ => CommitState.Under (n + children.length))
      (CommitState.Under (n + children.length)) :=
  leads_commitBatch (fun _ h => h.le (Nat.le_add_right _ _)) (framed_under _)
    (onFrontier_under _ _) fun score => commitChildren_under n parent score rules children none

/-! ### The seen map after a successful commit -/

/-- The hashes of the children that were given a node. -/
def committedHashes {α : Type} (hash : α → StateHash) (children : List (α × ChildCommit)) :
    List StateHash :=
  children.filterMap fun child => child.2.nodeId.map fun _ => hash child.1

/-- A committed child puts its hash in the seen map, any other one nothing. -/
theorem ChildStep.contains_seen {child : ScoredChild F}
    (h : ChildStep parent parentScore child rules s commit s') (hash : StateHash) :
    s'.seen.contains hash = true ↔ s.seen.contains hash = true ∨
      commit.nodeId.isSome = true ∧ hash = child.payload.stateHash := by
  cases h with
  | pruneDrop | duplicate | regression => simp
  | prunedExhausted | keep => simp [SeenMap.contains_insert]

theorem ChildStep.knows {child : ScoredChild F}
    (h : ChildStep parent parentScore child rules s commit s') (hs : s.Knows) : s'.Knows := by
  intro image himage
  rw [h.contains_seen]
  rcases h.grows.2 with ⟨-, himages⟩ | ⟨hid, depth, himages⟩
  · exact .inl (hs image (himages ▸ himage))
  · rw [himages, List.mem_append, List.mem_singleton] at himage
    rcases himage with himage | rfl
    · exact .inl (hs image himage)
    · exact .inr ⟨by rw [hid]; rfl, rfl⟩

theorem ChildSteps.contains_seen (h : ChildSteps parent parentScore rules s children commits s')
    (hash : StateHash) :
    s'.seen.contains hash = true ↔ s.seen.contains hash = true ∨
      hash ∈ committedHashes (·.payload.stateHash) (children.zip commits) := by
  induction h with
  | nil => simp [committedHashes]
  | @cons s s₁ s' child commit children commits hstep _ ih =>
    rw [ih, hstep.contains_seen]
    cases hid : commit.nodeId <;> simp [committedHashes, hid, or_assoc]

theorem ChildSteps.knows (h : ChildSteps parent parentScore rules s children commits s')
    (hs : s.Knows) : s'.Knows := by
  induction h with
  | nil => exact hs
  | cons hstep _ ih => exact ih (hstep.knows hs)

theorem ExhaustionStep.seen {reason : Option FrontierEvictReason}
    (h : ExhaustionStep parent s reason s') : s'.seen = s.seen := by
  cases h <;> rfl

theorem commitBatch_contains_seen (h : commitBatch parent children rules s = .ok outcome s')
    (hash : StateHash) :
    s'.seen.contains hash = true ↔ s.seen.contains hash = true ∨
      hash ∈ committedHashes (·.payload.stateHash) (children.zip outcome.childCommits) := by
  obtain ⟨record, s₁, tree, -, hsteps, -, -, hex⟩ := commitBatch_ok h
  rw [hex.seen]
  exact hsteps.contains_seen hash

theorem commitBatch_knows (h : commitBatch parent children rules s = .ok outcome s')
    (hs : s.Knows) : s'.Knows := by
  obtain ⟨record, s₁, tree, -, hsteps, hv, -, hex⟩ := commitBatch_ok h
  intro image himage
  rw [hex.seen]
  exact hsteps.knows hs image ((parent_grows hv hex).1 ▸ himage)

/-! ### The goal of a commit -/

/-- The node of the first goal that was kept. -/
def firstGoal : List (ScoredChild F) → List ChildCommit → Option NodeId
  | child :: children, commit :: commits =>
    if child.goal = true ∧ commit.disposition = .keep ∧ commit.nodeId.isSome then commit.nodeId
    else firstGoal children commits
  | _, _ => none

theorem commitChildren_goal {goalNode : Option NodeId} {goal : Option NodeId}
    (h : commitChildren parent parentScore rules children goalNode s = .ok (commits, goal) s') :
    goal = goalNode.or (firstGoal children commits) := by
  induction children generalizing goalNode s commits with
  | nil =>
    cases h
    simp [firstGoal]
  | cons child rest ih =>
    obtain ⟨commit, s₁, h₁, h⟩ := bind_ok h
    obtain ⟨⟨commits', goal'⟩, s₂, h₂, h⟩ := bind_ok h
    cases h
    rw [ih h₂, firstGoal]
    cases goalNode with
    | some id => simp
    | none =>
      by_cases hkept : child.goal = true ∧ commit.disposition = .keep ∧ commit.nodeId.isSome
      · obtain ⟨id, hid⟩ := Option.isSome_iff_exists.mp hkept.2.2
        simp [hkept, hid]
      · have hnot : ¬ (child.goal = true ∧ commit.disposition = .keep ∧ commit.nodeId.isSome ∧
            (none : Option NodeId).isNone) := fun hall => hkept ⟨hall.1, hall.2.1, hall.2.2.1⟩
        rw [if_neg hkept, if_neg hnot]

theorem commitBatch_goalNode (h : commitBatch parent children rules s = .ok outcome s') :
    outcome.goalNode = firstGoal children outcome.childCommits := by
  cases hv : validateRules rules with
  | some e =>
    simp only [commitBatch, hv] at h
    cases h
  | none =>
    simp only [commitBatch, hv] at h
    obtain ⟨_, s₀, h₀, h⟩ := bind_ok h
    cases h₀
    cases hr : s.tree.get parent with
    | none =>
      simp only [hr] at h
      cases h
    | some record =>
      simp only [hr] at h
      obtain ⟨⟨commits, goal⟩, s₁, h₁, h⟩ := bind_ok h
      obtain ⟨visits, s₂, h₂, h⟩ := bind_ok h
      obtain ⟨reason, s₃, h₃, h⟩ := bind_ok h
      cases h
      rw [commitChildren_goal h₁]
      rfl

theorem firstGoal_mem (h : firstGoal children commits = some id) :
    ∃ commit ∈ commits, commit.nodeId = some id := by
  induction children generalizing commits with
  | nil => cases h
  | cons child children ih =>
    cases commits with
    | nil => cases h
    | cons commit commits =>
      unfold firstGoal at h
      split at h
      · exact ⟨commit, List.mem_cons_self, h⟩
      · obtain ⟨commit', hmem, hid⟩ := ih h
        exact ⟨commit', List.mem_cons_of_mem _ hmem, hid⟩

theorem Assigned.lt_length {images : List (NodeImage F)} {n : Nat}
    (h : Assigned images parent n children commits) (hc : commit ∈ commits)
    (hid : commit.nodeId = some id) : id < images.length := by
  induction commits generalizing children n with
  | nil => cases hc
  | cons first rest ih =>
    cases children with
    | nil => exact h.elim
    | cons child children =>
      simp only [Assigned] at h
      rcases List.mem_cons.mp hc with rfl | hc
      · simp only [hid] at h
        obtain ⟨rfl, ⟨depth, himage⟩, -⟩ := h
        exact (List.getElem?_eq_some_iff.mp himage).1
      · split at h
        · exact ih h hc
        · exact ih h.2.2 hc

/-- The goal a commit reports is a node of the tree. -/
theorem commitBatch_goal (h : commitBatch parent children rules s = .ok outcome s')
    (hg : outcome.goalNode = some id) : id < s'.tree.len := by
  rw [commitBatch_goalNode h] at hg
  obtain ⟨commit, hc, hid⟩ := firstGoal_mem hg
  rw [← Tree.length_images]
  exact (commitBatch_grows h).2.lt_length hc hid

end Orchestrator.Core
