import Orchestrator.Core.CommitInvariant

/-! # Core — How a commit grows the tree

A commit appends its committed children to the tree, in their order and under consecutive
ids, and changes nothing of the nodes before them but the counters and the status of the
parent. This is what a store that is written one child at a time relies on.

* `commitBatch_grows`: what a successful batch did to the tree.
-/

namespace Orchestrator.Core

open Lib

variable {F : Type} [Float64 F]

/-- The committed children are these images from position `n` on, one after the other. -/
def Assigned (images : List (NodeImage F)) (parent : NodeId) :
    Nat → List (ScoredChild F) → List ChildCommit → Prop
  | n, child :: children, commit :: commits =>
    match commit.nodeId with
    | none => Assigned images parent n children commits
    | some id => id = n ∧ (∃ depth, images[n]? = some (child.payload.image (some parent) depth)) ∧
        Assigned images parent (n + 1) children commits
  | n, [], [] => n = images.length
  | _, _, _ => False

/-- What a commit leaves of the nodes of a tree: everything but the counters, and but the
status of the touched ones, which may have been exhausted. -/
structure Tree.Grows (t t' : Tree F) (touched : NodeId → Prop) : Prop where
  images : t.images <+: t'.images
  status : ∀ id < t.len, t'.statusOf id = t.statusOf id ∨
    touched id ∧ t.statusOf id = some .frontier ∧ t'.statusOf id = some .expanded

variable {t t' : Tree F} {touched : NodeId → Prop} {parent : NodeId} {parentScore : F}
  {rules : CommitRules F} {s s' : CommitState F} {children : List (ScoredChild F)}

theorem Tree.Grows.of_same (himages : t.images <+: t'.images)
    (h : ∀ id < t.len, t'.statusOf id = t.statusOf id) : t.Grows t' touched :=
  ⟨himages, fun id hid => .inl (h id hid)⟩

theorem Tree.Grows.len_le (h : t.Grows t' touched) : t.len ≤ t'.len := by
  simpa using h.images.length_le

theorem Tree.Grows.trans {t₁ : Tree F} (h : t.Grows t₁ touched) (h' : t₁.Grows t' touched) :
    t.Grows t' touched := by
  refine ⟨h.images.trans h'.images, fun id hid => ?_⟩
  rcases h'.status id (Nat.lt_of_lt_of_le hid h.len_le) with hs' | ⟨ht, hf, he⟩
  · rw [hs']
    exact h.status id hid
  · rcases h.status id hid with hs | ⟨-, -, he₁⟩
    · exact .inr ⟨ht, hs ▸ hf, he⟩
    · rw [he₁] at hf
      cases hf

theorem Tree.Grows.mono {touched' : NodeId → Prop} (h : t.Grows t' touched)
    (hle : ∀ id, touched id → touched' id) : t.Grows t' touched' :=
  ⟨h.images, fun id hid => (h.status id hid).imp_right fun ⟨ht, hs⟩ => ⟨hle id ht, hs⟩⟩

theorem Tree.images_keptTree (t : Tree F) (parent : NodeId) (record : NodeRecord F)
    (hr : Room t.records parent record) (child : ScoredChild F) :
    (keptTree t parent record hr child).images =
      t.images ++ [child.payload.image (some parent) (record.depth + 1)] := by
  unfold keptTree
  split
  · rw [images_update, images_push]
  · exact images_push ..

variable {tree : Tree F} {commits : List ChildCommit} {id : NodeId}
  {reason : Option FrontierEvictReason} {visits : Nat}

theorem RouteVisit.images {tree' : Tree F} {route : Option NodeId}
    (h : RouteVisit parent tree route tree') : tree'.images = tree.images := by
  cases h with
  | visit _ hv =>
    obtain ⟨_, -, -, rfl⟩ := Tree.incrementVisits_ok hv
    simp
  | parent => rfl
  | unrouted => rfl

/-- One child: nothing, or one more node. -/
theorem ChildStep.grows {child : ScoredChild F} {commit : ChildCommit}
    (h : ChildStep parent parentScore child rules s commit s') :
    s.tree.Grows s'.tree (fun _ => False) ∧
      (commit.nodeId = none ∧ s'.tree.images = s.tree.images ∨
        commit.nodeId = some s.tree.len ∧ ∃ depth,
          s'.tree.images = s.tree.images ++ [child.payload.image (some parent) depth]) := by
  cases h with
  | pruneDrop hp ha => exact ⟨.of_same List.prefix_rfl fun _ _ => rfl, .inl ⟨rfl, rfl⟩⟩
  | regression hp hd hreg => exact ⟨.of_same List.prefix_rfl fun _ _ => rfl, .inl ⟨rfl, rfl⟩⟩
  | duplicate hp hd hm hv =>
    have himages : _ = s.tree.images := hv.images
    exact ⟨.of_same (himages ▸ List.prefix_rfl) fun id _ => hv.statusOf id, .inl ⟨rfl, himages⟩⟩
  | prunedExhausted hp ha hr hm =>
    have himages := s.tree.images_push parent _ hr child.payload
    rw [← Tree.images_update _ s.tree.len _ Tree.setPruned_keeps] at himages
    refine ⟨.of_same (himages ▸ List.prefix_append _ _) fun id hid => ?_, .inr ⟨rfl, _, himages⟩⟩
    rw [Tree.statusOf_prunedTree, if_neg (Nat.ne_of_lt hid)]
  | keep hp hd hreg hr hm hf =>
    have himages := s.tree.images_keptTree parent _ hr child
    refine ⟨.of_same (himages ▸ List.prefix_append _ _) fun id hid => ?_, .inr ⟨rfl, _, himages⟩⟩
    rw [Tree.statusOf_keptTree, if_neg (Nat.ne_of_lt hid)]

theorem ChildSteps.grows (h : ChildSteps parent parentScore rules s children commits s') :
    s.tree.Grows s'.tree (fun _ => False) := by
  induction h with
  | nil => exact .of_same List.prefix_rfl fun _ _ => rfl
  | cons hstep _ ih => exact hstep.grows.1.trans ih

theorem ChildSteps.assigned (h : ChildSteps parent parentScore rules s children commits s') :
    Assigned s'.tree.images parent s.tree.len children commits := by
  induction h with
  | @nil s => exact s.tree.length_images.symm
  | @cons s s₁ s' child commit children commits hstep hrest ih =>
    rcases hstep.grows.2 with ⟨hid, himages⟩ | ⟨hid, depth, himages⟩
    · have hlen : s₁.tree.len = s.tree.len := by simpa using congrArg List.length himages
      simp only [Assigned, hid]
      exact hlen ▸ ih
    · have hlen : s₁.tree.len = s.tree.len + 1 := by simpa using congrArg List.length himages
      simp only [Assigned, hid, true_and]
      refine ⟨⟨depth, ?_⟩, hlen ▸ ih⟩
      -- the image is there after this child, and what follows only appends
      obtain ⟨later, hlater⟩ := hrest.grows.images
      rw [← hlater, himages, ← s.tree.length_images]
      simp

/-- An exhausted node was not a goal, and a pruned one stays pruned. -/
theorem Tree.setExhausted_grows (t : Tree F) {record : NodeRecord F} (hr : t.get id = some record)
    (hg : record.status ≠ .goal) :
    t.Grows (t.update id setExhausted setExhausted_keeps) (· = id) := by
  refine ⟨(images_update t id _ setExhausted_keeps).symm ▸ List.prefix_rfl, fun i _ => ?_⟩
  rw [statusOf_setExhausted t hr hg]
  by_cases hi : i = id
  · have hstatus : t.statusOf i = some record.status := by rw [hi, statusOf, hr]; rfl
    rw [if_pos hi, hstatus]
    cases hs : record.status with
    | frontier => exact .inr ⟨hi, rfl, rfl⟩
    | expanded => exact .inl rfl
    | pruned => exact .inl rfl
    | goal => exact absurd hs hg
  · rw [if_neg hi]
    exact .inl rfl

theorem ExhaustionStep.grows (h : ExhaustionStep parent s reason s') :
    s'.tree.images = s.tree.images ∧ s.tree.Grows s'.tree (· = parent) := by
  cases h with
  | stay => exact ⟨rfl, .of_same List.prefix_rfl fun _ _ => rfl⟩
  | evict hr hg hc hf reason =>
    exact ⟨Tree.images_update _ _ _ Tree.setExhausted_keeps, s.tree.setExhausted_grows hr hg⟩
  | absent hr hg hc reason =>
    exact ⟨Tree.images_update _ _ _ Tree.setExhausted_keeps, s.tree.setExhausted_grows hr hg⟩

theorem Tree.incrementVisits_grows (h : t.incrementVisits id = .ok (visits, t')) :
    t'.images = t.images := by
  obtain ⟨_, -, -, rfl⟩ := incrementVisits_ok h
  exact images_update _ _ _ (setVisits_keeps _)

/-- The end of a commit, live or replayed: a visit of the parent and rules 4 and 5. -/
theorem parent_grows {streak : Nat} (hv : s.tree.incrementVisits parent = .ok (visits, tree))
    (h : ExhaustionStep parent (({ s with tree := tree } : CommitState F).withStreak parent streak)
      reason s') : s'.tree.images = s.tree.images ∧ s.tree.Grows s'.tree (· = parent) := by
  obtain ⟨himages, hg⟩ := h.grows
  have hvisit := Tree.incrementVisits_grows hv
  refine ⟨himages.trans hvisit, .trans (.of_same ?_ fun id _ => ?_) hg⟩
  · exact hvisit.symm ▸ List.prefix_rfl
  · exact Tree.statusOf_incrementVisits hv id

theorem commitBatch_grows {outcome : BatchCommitOutcome}
    (h : commitBatch parent children rules s = .ok outcome s') :
    s.tree.Grows s'.tree (· = parent) ∧
      Assigned s'.tree.images parent s.tree.len children outcome.childCommits := by
  obtain ⟨record, s₁, tree, -, hsteps, hv, -, hex⟩ := commitBatch_ok h
  obtain ⟨himages, hg⟩ := parent_grows hv hex
  exact ⟨(hsteps.grows.mono fun _ => False.elim).trans hg, himages ▸ hsteps.assigned⟩

end Orchestrator.Core
