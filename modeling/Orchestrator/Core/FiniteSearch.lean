import Mathlib.Algebra.Order.BigOperators.Group.Finset
import Orchestrator.Core.CommitFailure
import Orchestrator.Core.Visits

/-! # Core — Search of a finite world

Select a candidate, expand it, commit the batch, one at a time. With a scorer whose duplicate
flags are exact, the nodes that are not pruned have different state hashes, every expansion of a
node counts a visit of it, and a node that left the frontier stays out. In a world of finitely
many states the candidates therefore run out, whichever are selected.

* `Searched`, `Expands.searched`: the invariant of a search.
* `Searched.length_le`: how many expansions a search can have.
* `finite_search_ends`
-/

namespace Orchestrator.Core

open Lib

variable {F : Type} [Float64 F]

/-- The flags of a scorer that marks a child as a duplicate exactly when its hash is known, or
is that of a child before it. -/
def ExactFlags (known : StateHash → Prop) : List (ScoredChild F) → Prop
  | [] => True
  | child :: rest => (child.duplicate = true ↔ known child.payload.stateHash) ∧
      ExactFlags (fun hash => known hash ∨ hash = child.payload.stateHash) rest

/-- One expansion: any candidate, any children of the world with exact flags. -/
structure Expands (rules : CommitRules F) (world : Finset StateHash) (s : CommitState F)
    (id : NodeId) (outcome : BatchCommitOutcome) (s' : CommitState F) : Prop where
  selected : ∃ ids, s.frontier.deterministicCandidates s.tree = .ok ids ∧ id ∈ ids
  committed : ∃ children : List (ScoredChild F),
    (∀ child ∈ children, child.payload.stateHash ∈ world) ∧
    ExactFlags (s.seen.contains · = true) children ∧
    commitBatch id children rules s = .ok outcome s'

/-- A sequence of expansions, with the nodes expanded. -/
inductive Searches (rules : CommitRules F) (world : Finset StateHash) (s : CommitState F) :
    List NodeId → CommitState F → Prop where
  | refl : Searches rules world s [] s
  | step {ids : List NodeId} {s₁ s' : CommitState F} {id : NodeId} {outcome : BatchCommitOutcome}
      (h : Searches rules world s ids s₁) (hstep : Expands rules world s₁ id outcome s') :
      Searches rules world s (ids ++ [id]) s'

/-! ### Hashes -/

/-- A node with this hash that is not pruned. -/
def Tree.Live (t : Tree F) (id : NodeId) (hash : StateHash) : Prop :=
  t.statusOf id ≠ some .pruned ∧ ∃ image, t.images[id]? = some image ∧ image.stateHash = hash

/-- No two nodes that are not pruned have the same hash. -/
def Tree.Distinct (t : Tree F) : Prop :=
  ∀ hash a b, t.Live a hash → t.Live b hash → a = b

section

variable {parent : NodeId} {parentScore : F} {rules : CommitRules F} {s s₁ s' : CommitState F}
  {child : ScoredChild F} {commit : ChildCommit} {children : List (ScoredChild F)}
  {commits : List ChildCommit} {world : Finset StateHash} {id : NodeId} {hash : StateHash}

variable {t : Tree F} {image : NodeImage F}

theorem Tree.Live.lt_len (h : t.Live id hash) : id < t.len := by
  obtain ⟨-, image, himage, -⟩ := h
  rw [← t.length_images]
  exact (List.getElem?_eq_some_iff.mp himage).1

theorem Tree.Grows.live {t' : Tree F} {touched : NodeId → Prop} (h : t.Grows t' touched)
    (hid : id < t.len) : t'.Live id hash ↔ t.Live id hash := by
  have himage : t'.images[id]? = t.images[id]? := by
    obtain ⟨later, hlater⟩ := h.images
    rw [← hlater, List.getElem?_append_left (t.length_images.symm ▸ hid)]
  have hstatus : t'.statusOf id = some .pruned ↔ t.statusOf id = some .pruned := by
    rcases h.status id hid with hsame | ⟨-, hfrontier, hexpanded⟩
    · rw [hsame]
    · simp [hfrontier, hexpanded]
  rw [Live, Live, himage, ne_eq, ne_eq, hstatus]

/-- A child that is not a duplicate gets the only new node that is not pruned. -/
theorem ChildStep.live (h : ChildStep parent parentScore child rules s commit s₁)
    (hlive : s₁.tree.Live id hash) :
    s.tree.Live id hash ∨
      child.duplicate = false ∧ id = s.tree.len ∧ child.payload.stateHash = hash := by
  obtain ⟨hgrows, himages⟩ := h.grows
  by_cases hid : id < s.tree.len
  · exact .inl ((hgrows.live hid).mp hlive)
  have hlt := hlive.lt_len
  obtain ⟨hstatus, image, himage, hhash⟩ := hlive
  rcases himages with ⟨-, hsame⟩ | ⟨hnode, depth, hpush⟩
  · rw [← Tree.length_images, hsame, Tree.length_images] at hlt
    exact absurd hlt hid
  rw [hpush] at himage
  rcases getElem?_concat_eq_some himage with hold | ⟨hnew, rfl⟩
  · rw [← Tree.length_images] at hid
    exact absurd (List.getElem?_eq_some_iff.mp hold).1 hid
  rw [Tree.length_images] at hnew
  refine .inr ⟨?_, hnew, hhash⟩
  cases h with
  | pruneDrop | duplicate | regression => cases hnode
  | prunedExhausted hp ha hr hm =>
    rw [Tree.statusOf_prunedTree, if_pos hnew] at hstatus
    exact absurd rfl hstatus
  | keep hp hd => exact hd

theorem ChildStep.mem_images (h : ChildStep parent parentScore child rules s commit s₁)
    (hi : image ∈ s₁.tree.images) :
    image ∈ s.tree.images ∨ image.stateHash = child.payload.stateHash := by
  rcases h.grows.2 with ⟨-, hsame⟩ | ⟨-, depth, hpush⟩
  · exact .inl (hsame ▸ hi)
  · rw [hpush, List.mem_append, List.mem_singleton] at hi
    rcases hi with hi | rfl
    · exact .inl hi
    · exact .inr rfl

/-- The hashes of the tree are known at every child's turn, so a child that is not a duplicate
has a new one. -/
theorem ChildSteps.distinct (h : ChildSteps parent parentScore rules s children commits s')
    {known : StateHash → Prop} (hflags : ExactFlags known children)
    (hknown : ∀ image ∈ s.tree.images, known image.stateHash) (hs : s.tree.Distinct) :
    s'.tree.Distinct := by
  induction h generalizing known with
  | nil => exact hs
  | @cons s s₁ s' child commit children commits hstep hrest ih =>
    refine ih hflags.2 (fun image hi => ?_) fun hash a b ha hb => ?_
    · rcases hstep.mem_images hi with hi | hhash
      · exact .inl (hknown image hi)
      · exact .inr hhash
    · have hnew : ∀ {i}, s.tree.Live i hash → child.duplicate = false →
          child.payload.stateHash ≠ hash := by
        rintro i ⟨-, image, himage, hhash⟩ hd heq
        have hdup := hflags.1.mpr
          (heq ▸ hhash ▸ hknown image (List.mem_of_getElem? himage))
        rw [hd] at hdup
        cases hdup
      rcases hstep.live ha with ha | ⟨hd, rfl, hhash⟩
      · rcases hstep.live hb with hb | ⟨hd, rfl, hhash⟩
        · exact hs hash a b ha hb
        · exact absurd hhash (hnew ha hd)
      · rcases hstep.live hb with hb | ⟨-, rfl, -⟩
        · exact absurd hhash (hnew hb hd)
        · rfl

theorem ChildSteps.mem_images (h : ChildSteps parent parentScore rules s children commits s')
    (hi : image ∈ s'.tree.images) :
    image ∈ s.tree.images ∨ ∃ child ∈ children, image.stateHash = child.payload.stateHash := by
  induction h with
  | nil => exact .inl hi
  | cons hstep hrest ih =>
    rcases ih hi with hi | ⟨child, hmem, hhash⟩
    · rcases hstep.mem_images hi with hi | hhash
      · exact .inl hi
      · exact .inr ⟨_, List.mem_cons_self, hhash⟩
    · exact .inr ⟨child, List.mem_cons_of_mem _ hmem, hhash⟩

/-! ### One expansion -/

variable {outcome : BatchCommitOutcome}

/-- An evicted parent is neither a candidate nor in the frontier. -/
theorem ExhaustionStep.evicted {reason : Option FrontierEvictReason}
    (h : ExhaustionStep parent s reason s') (hreason : reason.isSome) :
    s'.tree.statusOf parent ≠ some .frontier ∧ parent ∉ s'.frontier.entries := by
  have hstatus : ∀ {record : NodeRecord F}, s.tree.get parent = some record →
      record.status ≠ .goal → (s.tree.update parent Tree.setExhausted
        Tree.setExhausted_keeps).statusOf parent ≠ some .frontier := by
    intro record hr hg
    rw [Tree.statusOf_setExhausted _ hr hg, if_pos rfl]
    split
    · nofun
    · nofun
  cases h with
  | stay => cases hreason
  | evict hr hg hc hf =>
    exact ⟨hstatus hr hg, fun hmem => ((Frontier.mem_remove hf parent).mp hmem).2 rfl⟩
  | absent hr hg hc =>
    refine ⟨hstatus hr hg, fun hmem => ?_⟩
    rw [(s.frontier.contains_iff parent).mpr hmem] at hc
    cases hc

/-- A parent that stays a candidate has visits left. -/
theorem commitBatch_visits_left (h : commitBatch parent children rules s = .ok outcome s')
    (hstatus : s'.tree.statusOf parent = some .frontier) :
    outcome.parentVisits < rules.maxVisitsPerNode := by
  obtain ⟨record, s₁, tree, -, hsteps, hv, hevicted, hex⟩ := commitBatch_ok h
  have hnone : ¬ outcome.parentEvicted.isSome := fun hsome => (hex.evicted hsome).1 hstatus
  by_contra hvisits
  rw [hevicted, evictReason, if_pos (Nat.not_lt.mp hvisits)] at hnone
  exact hnone rfl

end

/-! ### The invariant of a search -/

/-- What holds of a search after these expansions. -/
structure Searched (rules : CommitRules F) (world : Finset StateHash) (ids : List NodeId)
    (s : CommitState F) : Prop where
  coherent : ∃ dups, s.Coherent dups
  sound : s.Sound []
  knows : s.Knows
  distinct : s.tree.Distinct
  world : ∀ image ∈ s.tree.images, image.stateHash ∈ world
  expanded : ∀ id ∈ ids, ∃ hash, s.tree.Live id hash
  visits : ∀ id, ids.count id ≤ s.tree.visitsOf id
  count : ∀ id, ids.count id ≤ rules.maxVisitsPerNode
  left : ∀ id, s.tree.statusOf id = some .frontier → ids.count id < rules.maxVisitsPerNode

section

variable {rules : CommitRules F} {world : Finset StateHash} {s s₁ s' : CommitState F}
  {ids : List NodeId} {id : NodeId} {outcome : BatchCommitOutcome}

theorem Searched.fromRoot {root : NodePayload F} (hrules : 0 < rules.maxVisitsPerNode)
    (hroot : root.stateHash ∈ world) : Searched rules world [] (.fromRoot root) := by
  have himages : (CommitState.fromRoot root).tree.images = [root.image none 0] := rfl
  refine ⟨⟨[], CommitState.fromRoot_coherent root⟩, CommitState.fromRoot_sound root, ?_, ?_, ?_,
    nofun, fun _ => Nat.zero_le _, fun _ => Nat.zero_le _, fun _ _ => hrules⟩
  · intro image hi
    rw [himages, List.mem_singleton] at hi
    subst hi
    simp [CommitState.fromRoot, SeenMap.contains_insert, NodePayload.image]
  · intro hash a b ha hb
    have ha : a < 1 := ha.lt_len
    have hb : b < 1 := hb.lt_len
    rw [Nat.lt_one_iff.mp ha, Nat.lt_one_iff.mp hb]
  · intro image hi
    rw [himages, List.mem_singleton] at hi
    exact hi ▸ hroot

theorem Expands.frontier (h : Expands rules world s id outcome s') :
    s.tree.statusOf id = some .frontier := by
  obtain ⟨ids, hids, hmem⟩ := h.selected
  obtain ⟨-, record, hr, hstatus⟩ := (Frontier.mem_deterministicCandidates hids id).mp hmem
  rw [Tree.statusOf, hr, ← hstatus]
  rfl

theorem Expands.grows (h : Expands rules world s id outcome s') :
    s.tree.Grows s'.tree (· = id) := by
  obtain ⟨children, -, -, hcommit⟩ := h.committed
  exact (commitBatch_grows hcommit).1

/-- An evicted node leaves the frontier. -/
theorem Expands.evicted (h : Expands rules world s id outcome s')
    (hevicted : outcome.parentEvicted.isSome) : id < s'.tree.len ∧ id ∉ s'.frontier.entries := by
  obtain ⟨children, -, -, hcommit⟩ := h.committed
  obtain ⟨record, s₁, tree, hr, hsteps, hv, -, hex⟩ := commitBatch_ok hcommit
  exact ⟨Nat.lt_of_lt_of_le (Tree.lt_len_of_get hr) h.grows.len_le, (hex.evicted hevicted).2⟩

variable {t : Tree F} {before : List NodeId} {i : NodeId}

theorem Tree.live_of_status {status : NodeStatus} (h : t.statusOf id = some status)
    (hstatus : status ≠ .pruned) : ∃ hash, t.Live id hash := by
  obtain ⟨record, hr, rfl⟩ := Option.map_eq_some_iff.mp h
  refine ⟨record.image.stateHash, fun hpruned => hstatus ?_, record.image, ?_, rfl⟩
  · exact Option.some.inj (h.symm.trans hpruned)
  · rw [getElem?_images, hr]
    rfl

/-- One expansion keeps the invariant. -/
theorem Expands.searched (h : Expands rules world s id outcome s')
    (hs : Searched rules world ids s) : Searched rules world (ids ++ [id]) s' := by
  have hfrontier := h.frontier
  have hgrows := h.grows
  obtain ⟨children, hworld, hflags, hcommit⟩ := h.committed
  obtain ⟨dups, hcoherent⟩ := hs.coherent
  have hmono : ∀ i, s.tree.visitsOf i ≤ s'.tree.visitsOf i := by
    intro i
    rw [commitBatch_visitsOf hcommit]
    exact Nat.le_add_right _ _
  have hvisit : s.tree.visitsOf id < s'.tree.visitsOf id := by
    rw [commitBatch_visitsOf hcommit, if_pos rfl]
    exact Nat.lt_succ_self _
  have hparent := commitBatch_parentVisits hcommit
  obtain ⟨record, s₁, tree, -, hsteps, hv, -, hex⟩ := commitBatch_ok hcommit
  obtain ⟨himages, hgrows₁⟩ := parent_grows hv hex
  have hcount : ∀ i, (ids ++ [id]).count i = ids.count i + if i = id then 1 else 0 := by
    intro i
    rw [List.count_append, List.count_singleton]
    by_cases hi : i = id
    · simp [hi]
    · simp [hi, Ne.symm hi]
  have hlive : ∀ i hash, s.tree.Live i hash → s'.tree.Live i hash :=
    fun i hash hlive => (hgrows.live hlive.lt_len).mpr hlive
  refine ⟨⟨_, commitBatch_coherent hcommit hcoherent⟩,
    (commitBatch_sound id children rules).ok hs.sound hcommit, commitBatch_knows hcommit hs.knows,
    ?_, ?_, ?_, ?_, ?_, ?_⟩
  · -- the end of the commit adds no node
    intro hash a b ha hb
    have hback : ∀ {i}, s'.tree.Live i hash → s₁.tree.Live i hash := by
      intro i hi
      refine (hgrows₁.live ?_).mp hi
      rw [← Tree.length_images, ← himages, Tree.length_images]
      exact hi.lt_len
    exact hsteps.distinct hflags hs.knows hs.distinct hash a b (hback ha) (hback hb)
  · intro image hi
    rw [himages] at hi
    rcases hsteps.mem_images hi with hi | ⟨child, hmem, hhash⟩
    · exact hs.world image hi
    · exact hhash ▸ hworld child hmem
  · intro i hi
    rcases List.mem_append.mp hi with hi | hi
    · obtain ⟨hash, hi⟩ := hs.expanded i hi
      exact ⟨hash, hlive i hash hi⟩
    · obtain rfl := List.mem_singleton.mp hi
      obtain ⟨hash, hi⟩ := Tree.live_of_status hfrontier nofun
      exact ⟨hash, hlive _ hash hi⟩
  · intro i
    rw [hcount]
    by_cases hi : i = id
    · subst hi
      rw [if_pos rfl]
      exact Nat.succ_le_of_lt (Nat.lt_of_le_of_lt (hs.visits i) hvisit)
    · rw [if_neg hi]
      exact (hs.visits i).trans (hmono i)
  · intro i
    rw [hcount]
    by_cases hi : i = id
    · subst hi
      rw [if_pos rfl]
      exact hs.left i hfrontier
    · rw [if_neg hi]
      exact hs.count i
  · intro i hstatus
    rw [hcount]
    by_cases hi : i = id
    · subst hi
      rw [if_pos rfl]
      calc ids.count i + 1 ≤ s'.tree.visitsOf i :=
            Nat.succ_le_of_lt (Nat.lt_of_le_of_lt (hs.visits i) hvisit)
        _ = outcome.parentVisits := hparent
        _ < rules.maxVisitsPerNode := commitBatch_visits_left hcommit hstatus
    · rw [if_neg hi]
      by_cases hlt : i < s.tree.len
      · rcases hgrows.status i hlt with hsame | ⟨htouched, -⟩
        · exact hs.left i (hsame ▸ hstatus)
        · exact absurd htouched hi
      · -- a node this batch added was never expanded
        have hnever : i ∉ ids := fun hmem => by
          obtain ⟨hash, hlive⟩ := hs.expanded i hmem
          exact hlt hlive.lt_len
        rw [List.count_eq_zero_of_not_mem hnever]
        exact Nat.zero_lt_of_lt (hs.left id hfrontier)

theorem Searches.searched (h : Searches rules world s ids s') (hs : Searched rules world before s) :
    Searched rules world (before ++ ids) s' := by
  induction h with
  | refl => exact (List.append_nil before).symm ▸ hs
  | step _ hstep ih => exact List.append_assoc before _ _ ▸ hstep.searched ih

/-- A node that is not in the frontier stays out of it. -/
theorem Expands.stays_out (h : Expands rules world s id outcome s')
    (hs : Searched rules world ids s) (hlt : i < s.tree.len) (hout : i ∉ s.frontier.entries) :
    i ∉ s'.frontier.entries := by
  obtain ⟨dups, hcoherent⟩ := hs.coherent
  obtain ⟨dups', hcoherent'⟩ := (h.searched hs).coherent
  rw [hcoherent.frontier, Tree.inFrontier] at hout
  rw [hcoherent'.frontier, Tree.inFrontier]
  rcases h.grows.status i hlt with hsame | ⟨-, -, hexpanded⟩
  · rw [hsame]
    exact hout
  · simp [hexpanded]

theorem Searches.stays_out (h : Searches rules world s ids s') (hs : Searched rules world before s)
    (hlt : i < s.tree.len) (hout : i ∉ s.frontier.entries) :
    i < s'.tree.len ∧ i ∉ s'.frontier.entries := by
  induction h with
  | refl => exact ⟨hlt, hout⟩
  | step h hstep ih =>
    exact ⟨Nat.lt_of_lt_of_le ih.1 hstep.grows.len_le,
      hstep.stays_out (h.searched hs) ih.1 ih.2⟩

/-! ### How long a search can be -/

/-- A list whose elements have different keys in a finite set, each at most `m` times. -/
theorem length_le_card_mul {α β : Type} [DecidableEq α] {l : List α} {keys : Finset β} {m : Nat}
    (key : α → β) (hmem : ∀ a ∈ l, key a ∈ keys)
    (hinj : ∀ a ∈ l, ∀ b ∈ l, key a = key b → a = b) (hcount : ∀ a, l.count a ≤ m) :
    l.length ≤ keys.card * m := by
  have hcard : l.toFinset.card ≤ keys.card :=
    Finset.card_le_card_of_injOn key (fun a ha => hmem a (List.mem_toFinset.mp ha))
      fun a ha b hb => hinj a (List.mem_toFinset.mp ha) b (List.mem_toFinset.mp hb)
  calc l.length = ∑ a ∈ l.toFinset, l.count a := (List.sum_toFinset_count_eq_length l).symm
    _ ≤ ∑ _a ∈ l.toFinset, m := Finset.sum_le_sum fun a _ => hcount a
    _ = l.toFinset.card * m := Finset.sum_const_nat fun _ _ => rfl
    _ ≤ keys.card * m := Nat.mul_le_mul_right m hcard

/-- The state hash of a node. -/
def Tree.hashOf (t : Tree F) (id : NodeId) : StateHash := ((t.images[id]?).map (·.stateHash)).getD 0

theorem Tree.Live.hashOf {hash : StateHash} (h : t.Live id hash) : t.hashOf id = hash := by
  obtain ⟨-, image, himage, hhash⟩ := h
  rw [Tree.hashOf, himage]
  exact hhash

/-- No two entries of the frontier have the same state hash. -/
theorem Searched.frontier_distinct (hs : Searched rules world ids s) {a b : NodeId}
    (ha : a ∈ s.frontier.entries) (hb : b ∈ s.frontier.entries)
    (hhash : s.tree.hashOf a = s.tree.hashOf b) : a = b := by
  obtain ⟨dups, hcoherent⟩ := hs.coherent
  have hlive : ∀ {i}, i ∈ s.frontier.entries → s.tree.Live i (s.tree.hashOf i) := by
    intro i hi
    rw [hcoherent.frontier] at hi
    have hnode : ∃ hash, s.tree.Live i hash := by
      rcases hi with hi | hi
      · exact Tree.live_of_status hi nofun
      · exact Tree.live_of_status hi nofun
    obtain ⟨hash, hnode⟩ := hnode
    exact hnode.hashOf.symm ▸ hnode
  exact hs.distinct _ a b (hlive ha) (hhash ▸ hlive hb)

/-- A search of a world has at most so many expansions. -/
theorem Searched.length_le (hs : Searched rules world ids s) :
    ids.length ≤ world.card * rules.maxVisitsPerNode := by
  refine length_le_card_mul s.tree.hashOf (fun id hid => ?_) (fun a ha b hb hab => ?_) hs.count
  · obtain ⟨hash, hlive⟩ := hs.expanded id hid
    rw [hlive.hashOf]
    obtain ⟨-, image, himage, rfl⟩ := hlive
    exact hs.world image (List.mem_of_getElem? himage)
  · obtain ⟨hash, ha⟩ := hs.expanded a ha
    obtain ⟨hash', hb⟩ := hs.expanded b hb
    rw [ha.hashOf, hb.hashOf] at hab
    exact hs.distinct hash a b ha (hab ▸ hb)

end

/-! ### The search -/

/-- The flags of an exact scorer. -/
def flagDuplicates (known : StateHash → Bool) : List (ScoredChild F) → List (ScoredChild F)
  | [] => []
  | child :: rest =>
    { child with duplicate := known child.payload.stateHash } ::
      flagDuplicates (fun hash => known hash || hash == child.payload.stateHash) rest

/-- The choices of a search: which candidate, and what its expansion yields, at every step. -/
structure Player (F : Type) [Float64 F] (world : Finset StateHash) where
  select : Nat → CommitState F → List NodeId → NodeId
  select_mem : ∀ n s ids, ids ≠ [] → select n s ids ∈ ids
  expand : Nat → CommitState F → NodeId → List (ScoredChild F)
  expand_mem : ∀ n s id, ∀ child ∈ expand n s id, child.payload.stateHash ∈ world

inductive SearchEnd (F : Type) [Float64 F] where
  | exhausted (expansions : Nat) (s : CommitState F)
  | failed (e : Abort CommitError) (s : CommitState F)
  | unknown (e : FrontierError)
  | running (s : CommitState F)

/-- Select and commit until there is no candidate, for at most `fuel` rounds after `n`. -/
def search {world : Finset StateHash} (rules : CommitRules F) (player : Player F world) :
    (fuel n : Nat) → CommitState F → SearchEnd F
  | 0, _, s => .running s
  | fuel + 1, n, s =>
    match s.frontier.deterministicCandidates s.tree with
    | .error e => .unknown e
    | .ok [] => .exhausted n s
    | .ok ids =>
      let id := player.select n s ids
      match commitBatch id (flagDuplicates s.seen.contains (player.expand n s id)) rules s with
      | .ok _ s' => search rules player fuel (n + 1) s'
      | .error e s' => .failed e s'

/-- The search ended without candidates after at most `bound` expansions, or on a full
counter. -/
inductive SearchEnd.Within (bound : Nat) : SearchEnd F → Prop where
  | exhausted {n : Nat} {s : CommitState F} (hn : n ≤ bound)
      (hcandidates : s.frontier.deterministicCandidates s.tree = .ok []) :
      SearchEnd.Within bound (.exhausted n s)
  | failed {e : Abort CommitError} {s : CommitState F} (he : Overflows s e) :
      SearchEnd.Within bound (.failed e s)

variable {known : StateHash → Bool}

theorem exactFlags_flagDuplicates {P : StateHash → Prop} (h : ∀ hash, known hash = true ↔ P hash)
    (children : List (ScoredChild F)) : ExactFlags P (flagDuplicates known children) := by
  induction children generalizing known P with
  | nil => trivial
  | cons child rest ih =>
    refine ⟨h _, ih fun hash => ?_⟩
    rw [Bool.or_eq_true, beq_iff_eq, h]

theorem flagDuplicates_mem {world : Finset StateHash} {children : List (ScoredChild F)}
    (h : ∀ child ∈ children, child.payload.stateHash ∈ world) :
    ∀ child ∈ flagDuplicates known children, child.payload.stateHash ∈ world := by
  induction children generalizing known with
  | nil => nofun
  | cons child rest ih =>
    intro c hc
    rcases List.mem_cons.mp hc with rfl | hc
    · exact h child List.mem_cons_self
    · exact ih (fun d hd => h d (List.mem_cons_of_mem _ hd)) c hc

section

variable {rules : CommitRules F} {world : Finset StateHash} {s : CommitState F} {ids : List NodeId}

/-- Every entry of the frontier is a node, so there are candidates to offer. -/
theorem Searched.candidates (hs : Searched rules world ids s) :
    ∃ candidates, s.frontier.deterministicCandidates s.tree = .ok candidates := by
  have hknown : ∀ id ∈ s.frontier.entries, ∃ r, s.tree.get id = some r :=
    fun id hid => s.tree.get_of_lt_len (hs.sound.frontier id hid)
  obtain ⟨cs, hcs⟩ := Frontier.candidatesIn_ok hknown
  exact ⟨_, by rw [Frontier.deterministicCandidates, hcs]⟩

/-- The induction is on the rounds left, with the rounds done and left adding up to one more
than a search can have. -/
theorem search_within (hrules : validateRules rules = none) (player : Player F world)
    {bound fuel : Nat} (hbound : world.card * rules.maxVisitsPerNode ≤ bound)
    (hs : Searched rules world ids s) (hfuel : ids.length + fuel = bound + 1) :
    (search rules player fuel ids.length s).Within bound := by
  induction fuel generalizing ids s with
  | zero => exact absurd (hs.length_le.trans hbound) (by omega)
  | succ fuel ih =>
    obtain ⟨candidates, hcandidates⟩ := hs.candidates
    unfold search
    rw [hcandidates]
    cases candidates with
    | nil => exact .exhausted (hs.length_le.trans hbound) hcandidates
    | cons first rest =>
      dsimp only
      have hmem := player.select_mem ids.length s (first :: rest) (List.cons_ne_nil _ _)
      cases hcommit : commitBatch (player.select ids.length s (first :: rest))
          (flagDuplicates s.seen.contains (player.expand ids.length s
            (player.select ids.length s (first :: rest)))) rules s with
      | ok outcome s' =>
        have hstep : Expands rules world s (player.select ids.length s (first :: rest))
            outcome s' :=
          ⟨⟨_, hcandidates, hmem⟩, _, flagDuplicates_mem (player.expand_mem _ _ _),
            exactFlags_flagDuplicates (fun _ => Iff.rfl) _, hcommit⟩
        have hlength := ih (hstep.searched hs)
          (by rw [List.length_append, List.length_singleton]; omega)
        rwa [List.length_append, List.length_singleton] at hlength
      | error e s' =>
        obtain ⟨-, record, hr, hstatus⟩ :=
          (Frontier.mem_deterministicCandidates hcandidates _).mp hmem
        exact .failed (commitBatch_error hrules hs.sound hr (by rw [hstatus]; nofun) hcommit)

theorem maxVisits_pos (h : validateRules rules = none) : 0 < rules.maxVisitsPerNode := by
  unfold validateRules at h
  split at h
  · cases h
  · split at h
    · cases h
    · exact Nat.pos_of_ne_zero ‹_›

end

/-- **The search of a finite world ends.** In every search no node is expanded more than
`max_visits_per_node` times, no two frontier nodes share a state hash and an evicted node does
not come back; whatever is selected, the candidates run out after at most
`N * max_visits_per_node` expansions, unless a counter is full. -/
theorem finite_search_ends (rules : CommitRules F) (hrules : validateRules rules = none)
    (world : Finset StateHash) (N : Nat) (hN : world.card ≤ N) (root : NodePayload F)
    (hroot : root.stateHash ∈ world) :
    (∀ ids s, Searches rules world (.fromRoot root) ids s →
      (∀ id, ids.count id ≤ rules.maxVisitsPerNode) ∧
      (∀ a ∈ s.frontier.entries, ∀ b ∈ s.frontier.entries,
        s.tree.hashOf a = s.tree.hashOf b → a = b) ∧
      ids.length ≤ N * rules.maxVisitsPerNode ∧
      ∀ id outcome s₁ later s', Expands rules world s id outcome s₁ →
        outcome.parentEvicted.isSome → Searches rules world s₁ later s' →
        id ∉ s'.frontier.entries) ∧
    ∀ player : Player F world,
      (search rules player (N * rules.maxVisitsPerNode + 1) 0 (.fromRoot root)).Within
        (N * rules.maxVisitsPerNode) := by
  have hinitial : Searched rules world [] (.fromRoot root) :=
    .fromRoot (maxVisits_pos hrules) hroot
  have hbound := Nat.mul_le_mul_right rules.maxVisitsPerNode hN
  constructor
  · intro ids s hsearch
    have hs : Searched rules world ids s := hsearch.searched hinitial
    refine ⟨hs.count, fun a ha b hb hhash => hs.frontier_distinct ha hb hhash,
      hs.length_le.trans hbound, ?_⟩
    intro id outcome s₁ later s' hstep hevicted hlater
    obtain ⟨hlt, hout⟩ := hstep.evicted hevicted
    exact (hlater.stays_out (hstep.searched hs) hlt hout).2
  · exact fun player => search_within hrules player hbound hinitial (Nat.zero_add _)

/-- A world of three states, each of which leads to all of them. -/
def threeStates : Player Int {100, 101, 102} where
  select := fun _ _ ids => ids.headD 0
  select_mem := by
    intro n s ids hids
    cases ids with
    | nil => exact absurd rfl hids
    | cons id rest => exact List.mem_cons_self
  expand := fun _ _ _ => [⟨.ofInt 1 10 1 100, false, false, false⟩,
    ⟨.ofInt 2 10 1 101, false, false, false⟩, ⟨.ofInt 3 10 2 102, false, false, false⟩]
  expand_mem := by
    intro n s id child hchild
    simp only [List.mem_cons, List.not_mem_nil, or_false] at hchild
    rcases hchild with rfl | rfl | rfl
    · decide
    · decide
    · decide

/-- Rules that allow two visits of a node. -/
def twoVisits : CommitRules Int := ⟨.exhausted, 0, 2, 8⟩

/-- The search of three states with two visits of each ends. -/
theorem finite_search_ends_threeStates :
    validateRules twoVisits = none ∧
    (search twoVisits threeStates (3 * twoVisits.maxVisitsPerNode + 1) 0
      (.fromRoot (.ofInt 0 10 0 100))).Within (3 * twoVisits.maxVisitsPerNode) :=
  ⟨rfl, (finite_search_ends twoVisits rfl {100, 101, 102} 3 (by decide)
    (.ofInt 0 10 0 100) (by decide)).2 threeStates⟩

end Orchestrator.Core
