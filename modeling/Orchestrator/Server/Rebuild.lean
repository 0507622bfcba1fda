import Orchestrator.Server.ReplayRules

/-! # Server — Rebuilding the tree

A resume rebuilds the tree from the rows of the store and then writes the rows' statuses
into it. Rows that are the first nodes of some tree are enough: the rebuild cannot fail, gives
every row its own id, and the adoption ends with the rows' statuses.

* `rebuildTree_ok`: the rebuild succeeds.
* `adoptRows_tree`: the adopted tree.
* `adoptRows_from`, `adoptRows_reports`: the adopted seen map, frontier and goals.
-/

namespace Orchestrator.Server

open Core Services Lib

variable {F : Type} [Float64 F]

/-! ### The rebuild -/

variable {t T : Tree F} {row : Row F} {rows : List (Row F)} {cp : Checkpoint F} {a a' : Adoption F}

/-- A node of a tree that holds the first nodes of another one has fewer children there, when
the first node it lacks is one of them. -/
theorem children_lt {p : NodeId} {q record child : NodeRecord F}
    (himages : t.images = T.images.take t.len) (hq : t.get p = some q) (hr : T.get p = some record)
    (hc : T.get t.len = some child) (hp : child.parent = some p) :
    q.children < record.children := by
  obtain ⟨cs, hcs⟩ : ∃ cs, t.childrenByNode[p]? = some cs := by
    have := Tree.lt_len_of_get hq
    rw [Tree.len, ← t.wf.length_eq] at this
    exact ⟨_, List.getElem?_eq_getElem this⟩
  obtain ⟨Cs, hCs⟩ : ∃ Cs, T.childrenByNode[p]? = some Cs := by
    have := Tree.lt_len_of_get hr
    rw [Tree.len, ← T.wf.length_eq] at this
    exact ⟨_, List.getElem?_eq_getElem this⟩
  have hparent : ∀ c r, t.get c = some r → r.parent = some p →
      ∃ R, T.get c = some R ∧ R.parent = some p := by
    intro c r hget hpar
    have hlt := Tree.lt_len_of_get hget
    have himage : T.images[c]? = some r.image := by
      rw [← List.getElem?_take_of_lt hlt, ← himages, Tree.getElem?_images, hget]
      rfl
    rw [Tree.getElem?_images, Option.map_eq_some_iff] at himage
    obtain ⟨R, hR, hRi⟩ := himage
    exact ⟨R, hR, (congrArg NodeImage.parent hRi).trans hpar⟩
  have hsub : cs ++ [t.len] ⊆ Cs := by
    intro c hmem
    rw [T.wf.mem_children p Cs hCs]
    rcases List.mem_append.mp hmem with hmem | hmem
    · obtain ⟨r, hget, hpar⟩ := (t.wf.mem_children p cs hcs c).mp hmem
      exact hparent c r hget hpar
    · rw [List.mem_singleton] at hmem
      exact ⟨child, hmem ▸ hc, hp⟩
  have hnodup : (cs ++ [t.len]).Nodup := by
    refine List.Nodup.append ?_ (List.nodup_singleton _) ?_
    · exact (t.wf.children_sorted p cs hcs).imp fun h => Nat.ne_of_lt h
    · intro c hmem hlen
      rw [List.mem_singleton] at hlen
      obtain ⟨r, hget, -⟩ := (t.wf.mem_children p cs hcs c).mp hmem
      exact absurd (Tree.lt_len_of_get hget) (hlen ▸ Nat.lt_irrefl _)
  have hle := (List.subperm_of_subset hnodup hsub).length_le
  rw [List.length_append, List.length_singleton] at hle
  rw [t.wf.children_count p q cs hq hcs, T.wf.children_count p record Cs hr hCs]
  exact hle

/-- The first rows of a tree, as the rows after position `n` of a rebuild. -/
structure RowsOf (T : Tree F) (n : Nat) (rows : List (Row F)) : Prop where
  image : ∀ (i : Nat) (row : Row F), rows[i]? = some row → T.images[n + i]? = some row.image
  nodeId : ∀ (i : Nat) (row : Row F), rows[i]? = some row → row.nodeId = n + i

theorem RowsOf.tail {n : Nat} (h : RowsOf T n (row :: rows)) : RowsOf T (n + 1) rows := by
  refine ⟨fun i r hr => ?_, fun i r hr => ?_⟩
  · rw [Nat.add_assoc, Nat.add_comm 1]
    exact h.image (i + 1) r hr
  · rw [Nat.add_assoc, Nat.add_comm 1]
    exact h.nodeId (i + 1) r hr

/-- A tree with the first nodes of another one, none of them marked yet. -/
structure Partial (T t : Tree F) : Prop where
  images : t.images = T.images.take t.len
  fresh : ∀ i < t.len, t.statusOf i = some .frontier

/-- The next row of a rebuild is the next node of the tree. -/
theorem Partial.insert (h : Partial T t) (himage : T.images[t.len]? = some row.image) :
    ∃ parent t', row.parentNodeId = some parent ∧
      t.insertChild parent (payloadFromStore row) = .ok (t.len, t') ∧ t'.len = t.len + 1 ∧
      Partial T t' := by
  rw [Tree.getElem?_images, Option.map_eq_some_iff] at himage
  obtain ⟨child, hchild, hrow⟩ := himage
  obtain ⟨p, record, hp, hlt, hrecord, hdepth⟩ := T.wf.parent t.len child hchild t.len_pos
  obtain ⟨q, hq⟩ := Tree.get_of_lt_len hlt
  have hqimage : q.image = record.image := by
    have hT : T.images[p]? = some record.image := by
      rw [Tree.getElem?_images, Core.Tree.get, hrecord]
      rfl
    have ht : t.images[p]? = some q.image := by
      rw [Tree.getElem?_images, hq]
      rfl
    rw [h.images, List.getElem?_take_of_lt hlt, hT] at ht
    exact (Option.some.inj ht).symm
  have hqdepth : q.depth = record.depth := congrArg NodeImage.depth hqimage
  have hroom : Tree.Room t.records p q := by
    refine ⟨hq, ?_, ?_⟩
    · rw [hqdepth, ← hdepth]
      exact (T.wf.bounded t.len child hchild).1
    · have := children_lt h.images hq hrecord hchild hp
      have := (T.wf.bounded p record hrecord).2
      omega
  refine ⟨p, t.push p q hroom (payloadFromStore row), ?_, Tree.insertChild_of_room hroom _,
    Tree.len_push .., ?_, fun i hi => ?_⟩
  · exact (congrArg NodeImage.parent hrow).symm.trans hp
  · have hchildImage : T.images[t.len]? =
        some ((payloadFromStore row).image (some p) (q.depth + 1)) := by
      rw [Tree.getElem?_images, hchild, Option.map_some, hrow, hqdepth, ← hdepth, ← hp]
      exact congrArg some (by
        rw [show child.parent = row.parentNodeId from congrArg NodeImage.parent hrow,
          show child.depth = row.depth from congrArg NodeImage.depth hrow]
        rfl)
    rw [Tree.images_push, Tree.len_push, List.take_add_one, ← h.images, hchildImage]
    rfl
  · rw [Tree.statusOf_push]
    split
    · rfl
    · rw [Tree.len_push] at hi
      exact h.fresh i (by lia)

theorem rebuildFrom_ok (h : Partial T t) (hrows : RowsOf T t.len rows) :
    ∃ t', rebuildFrom t rows = .ok t' ∧ t'.len = t.len + rows.length ∧ Partial T t' := by
  induction rows generalizing t with
  | nil => exact ⟨t, rfl, rfl, h⟩
  | cons row rest ih =>
    obtain ⟨parent, t₁, hparent, hinsert, hlen, h₁⟩ := h.insert (hrows.image 0 row rfl)
    obtain ⟨t', ht', hlen', h'⟩ := ih h₁ (hlen ▸ hrows.tail)
    refine ⟨t', ?_, ?_, h'⟩
    · have hid : t.len = row.nodeId := (hrows.nodeId 0 row rfl).symm
      simp only [rebuildFrom, hparent, hinsert, if_pos hid, ht']
    · rw [hlen', hlen, List.length_cons, Nat.add_assoc, Nat.add_comm 1]

theorem rebuildTree_ok (hrows : RowsOf T 0 rows) (hne : rows ≠ []) :
    ∃ t, rebuildTree rows = .ok t ∧ t.len = rows.length ∧ Partial T t := by
  cases rows with
  | nil => exact absurd rfl hne
  | cons row rest =>
    have hid : row.nodeId = NodeId.root := hrows.nodeId 0 row rfl
    have himage := hrows.image 0 row rfl
    rw [Tree.getElem?_images, Option.map_eq_some_iff] at himage
    obtain ⟨root, hroot, hrow⟩ := himage
    obtain ⟨hparent, hdepth⟩ := T.wf.root root hroot
    have hpart : Partial T (.fromRoot (payloadFromStore row)) := by
      refine ⟨?_, fun i hi => ?_⟩
      · have hT : T.images[0]? = some row.image := by
          rw [Tree.getElem?_images, hroot, Option.map_some, hrow]
        have : T.images.take 1 = [row.image] := by
          rw [List.take_add_one, hT]
          rfl
        refine Eq.trans ?_ this.symm
        have hp : row.parentNodeId = none := (congrArg NodeImage.parent hrow).symm.trans hparent
        have hd : row.depth = 0 := (congrArg NodeImage.depth hrow).symm.trans hdepth
        simp only [Tree.images, Tree.fromRoot, List.map_cons, List.map_nil, Row.image, hp, hd]
        rfl
      · obtain rfl : i = 0 := Nat.lt_one_iff.mp hi
        rfl
    obtain ⟨t', ht', hlen, h'⟩ := rebuildFrom_ok hpart hrows.tail
    refine ⟨t', ?_, ?_, h'⟩
    · simp only [rebuildTree, if_pos hid, ht']
    · rw [hlen, List.length_cons, Nat.add_comm]
      rfl

/-! ### The adoption -/

theorem visitTimes_same (id : NodeId) (n : Nat) (t : Tree F) :
    (visitTimes id n t).images = t.images ∧
      ∀ i, (visitTimes id n t).statusOf i = t.statusOf i := by
  induction n generalizing t with
  | zero => exact ⟨rfl, fun _ => rfl⟩
  | succ n ih =>
    obtain ⟨himages, hstatus⟩ := okOr_visit t id
    obtain ⟨himages', hstatus'⟩ := ih (okOr t ((t.incrementVisits id).map (·.2)))
    exact ⟨himages'.trans himages, fun i => (hstatus' i).trans (hstatus i)⟩

theorem adoptSeen_tree (h : adoptSeen cp row a = some a') : a'.tree = a.tree := by
  unfold adoptSeen at h
  split at h
  · rw [Option.map_eq_some_iff] at h
    obtain ⟨mirror, -, rfl⟩ := h
    rfl
  · cases h
    rfl

theorem adoptWeights_tree (entry : Option FrontierEntry) (id : NodeId) (a : Adoption F) :
    (adoptWeights entry id a).tree.images = a.tree.images ∧
      ∀ i, (adoptWeights entry id a).tree.statusOf i = a.tree.statusOf i := by
  cases entry with
  | none => exact ⟨rfl, fun _ => rfl⟩
  | some entry => exact visitTimes_same id entry.visits a.tree

/-- The row's status reaches the tree. -/
theorem adoptStatus_tree (cp : Checkpoint F) (row : Row F) (a : Adoption F)
    (hfresh : a.tree.statusOf row.nodeId = some .frontier) :
    (adoptStatus cp row a).tree.images = a.tree.images ∧
      ∀ i, (adoptStatus cp row a).tree.statusOf i =
        if i = row.nodeId then some row.status else a.tree.statusOf i := by
  obtain ⟨record, hget, hstatus⟩ : ∃ record, a.tree.get row.nodeId = some record ∧
      record.status = .frontier := by
    simpa [Tree.statusOf, Option.map_eq_some_iff] using hfresh
  have hgoal : record.goal = false := by
    rw [Bool.eq_false_iff, ne_eq, a.tree.wf.goal_iff row.nodeId record hget, hstatus]
    exact NodeStatus.noConfusion
  have marked : ∀ {t : Tree F} {status : NodeStatus} (f : NodeRecord F → NodeRecord F)
      (hf : Tree.Keeps f), t = a.tree.update row.nodeId f hf → (f record).status = status →
      t.images = a.tree.images ∧
        ∀ i, t.statusOf i = if i = row.nodeId then some status else a.tree.statusOf i := by
    rintro t status f hf rfl hfs
    refine ⟨Tree.images_update _ _ _ hf, fun i => ?_⟩
    rw [Tree.statusOf_update]
    split
    · rename_i hi
      rw [hi, hget, Option.map_some, hfs]
    · rfl
  cases hs : row.status with
  | frontier =>
    obtain ⟨himages, hsame⟩ := adoptWeights_tree (cp.frontier.reverse.find? (·.node = row.nodeId))
      row.nodeId { a with frontier := okOr a.frontier (a.frontier.insert row.nodeId) }
    simp only [adoptStatus, hs]
    refine ⟨himages, fun i => (hsame i).trans ?_⟩
    split
    · rename_i hi
      exact hi ▸ hfresh
    · rfl
  | goal =>
    simp only [adoptStatus, hs]
    refine marked Tree.setGoal Tree.setGoal_keeps ?_ rfl
    simp [Tree.markGoal, hget, hstatus, okOr]
  | expanded =>
    simp only [adoptStatus, hs]
    refine marked Tree.setExpanded Tree.setExpanded_keeps ?_ ?_
    · simp [Tree.markExpanded, hget, okOr]
    · simp [Tree.setExpanded, NodeRecord.expandedStatus, hgoal, hstatus]
  | pruned =>
    simp only [adoptStatus, hs]
    refine marked Tree.setPruned Tree.setPruned_keeps ?_ rfl
    simp [Tree.markPruned, hget, hstatus, hgoal, okOr]

/-- **The adopted tree.** The adoption of rows with different ids writes their statuses and
leaves the rest of the tree as it was. -/
theorem adoptRows_tree (h : adoptRows cp rows a = some a')
    (hdistinct : rows.Pairwise (·.nodeId ≠ ·.nodeId))
    (hfresh : ∀ row ∈ rows, a.tree.statusOf row.nodeId = some .frontier) :
    a'.tree.images = a.tree.images ∧
      (∀ row ∈ rows, a'.tree.statusOf row.nodeId = some row.status) ∧
      ∀ i, (∀ row ∈ rows, row.nodeId ≠ i) → a'.tree.statusOf i = a.tree.statusOf i := by
  induction rows generalizing a with
  | nil =>
    cases h
    exact ⟨rfl, by simp, fun _ _ => rfl⟩
  | cons row rest ih =>
    simp only [adoptRows] at h
    split at h
    · cases h
    · rename_i a₁ hseen
      have htree := adoptSeen_tree hseen
      obtain ⟨himages, hstatus⟩ := adoptStatus_tree cp row a₁
        (htree ▸ hfresh row List.mem_cons_self)
      obtain ⟨hne, hrest⟩ := List.pairwise_cons.mp hdistinct
      obtain ⟨himages', hrows', hothers'⟩ := ih h hrest (fun row' hmem => by
        refine (hstatus row'.nodeId).trans ?_
        rw [if_neg (Ne.symm (hne row' hmem)), htree]
        exact hfresh row' (List.mem_cons_of_mem _ hmem))
      refine ⟨himages'.trans (himages.trans (by rw [htree])), fun row' hmem => ?_, fun i hi => ?_⟩
      · rcases List.mem_cons.mp hmem with rfl | hmem
        · refine (hothers' _ fun r hr => (hne r hr).symm).trans ((hstatus _).trans ?_)
          rw [if_pos rfl]
        · exact hrows' row' hmem
      · refine (hothers' i fun r hr => hi r (List.mem_cons_of_mem _ hr)).trans
          ((hstatus i).trans ?_)
        rw [if_neg (Ne.symm (hi row List.mem_cons_self)), htree]

/-! ### The seen map, the frontier and the goals -/

theorem adoptStatus_seen (cp : Checkpoint F) (row : Row F) (a : Adoption F) :
    (adoptStatus cp row a).seen = a.seen ∧
      (adoptStatus cp row a).postCheckpoint = a.postCheckpoint := by
  unfold adoptStatus adoptWeights
  split
  · split <;> exact ⟨rfl, rfl⟩
  all_goals exact ⟨rfl, rfl⟩

/-- The status of a row brings nothing but its own id. -/
theorem adoptStatus_ids (cp : Checkpoint F) (row : Row F) (a : Adoption F) :
    (∀ id ∈ (adoptStatus cp row a).frontier.entries, id ∈ a.frontier.entries ∨ id = row.nodeId) ∧
      ∀ id ∈ (adoptStatus cp row a).goalNodes, id ∈ a.goalNodes ∨ id = row.nodeId := by
  have hinsert : ∀ id ∈ (okOr a.frontier (a.frontier.insert row.nodeId)).entries,
      id ∈ a.frontier.entries ∨ id = row.nodeId := by
    intro id hid
    cases hf : a.frontier.insert row.nodeId with
    | error e =>
      rw [hf] at hid
      exact .inl hid
    | ok frontier =>
      rw [hf] at hid
      exact (Frontier.mem_insert hf id).mp hid
  unfold adoptStatus adoptWeights
  split
  · split <;> exact ⟨hinsert, fun _ => .inl⟩
  · refine ⟨fun _ => .inl, fun id hid => ?_⟩
    dsimp only at hid
    split at hid
    · exact .inl hid
    · rwa [List.mem_append, List.mem_singleton] at hid
  · exact ⟨fun _ => .inl, fun _ => .inl⟩
  · exact ⟨fun _ => .inl, fun _ => .inl⟩

/-- What an adoption knows comes from the checkpoint or from a row. -/
structure Adoption.From (cp : Checkpoint F) (rows : List (Row F)) (a : Adoption F) : Prop where
  seen : ∀ hash id, a.seen.get hash = some id →
    (hash, id) ∈ cp.seen ∨ ∃ row ∈ rows, row.nodeId = id ∧ row.attrs.stateHash = hash
  frontier : ∀ id ∈ a.frontier.entries, ∃ row ∈ rows, row.nodeId = id
  goals : ∀ id ∈ a.goalNodes, ∃ row ∈ rows, row.nodeId = id

theorem Adoption.From.adoptSeen (h : a.From cp rows) (hrow : row ∈ rows)
    (ha : adoptSeen cp row a = some a') : a'.From cp rows := by
  unfold Server.adoptSeen at ha
  split at ha
  · rw [Option.map_eq_some_iff] at ha
    obtain ⟨mirror, -, rfl⟩ := ha
    refine ⟨fun hash id hid => ?_, h.frontier, h.goals⟩
    rw [SeenMap.get_insert] at hid
    split at hid
    · rename_i hnew hh
      simp only [Bool.and_eq_true, Option.isNone_iff_eq_none] at hnew
      rw [hnew.2] at hid
      cases hid
      exact .inr ⟨row, hrow, rfl, hh.symm⟩
    · exact h.seen hash id hid
  · cases ha
    exact h

theorem adoptRows_from {rest : List (Row F)} (hadopt : adoptRows cp rest a = some a')
    (hsub : rest ⊆ rows) (h : a.From cp rows) : a'.From cp rows := by
  induction rest generalizing a with
  | nil =>
    cases hadopt
    exact h
  | cons row rest ih =>
    simp only [adoptRows] at hadopt
    split at hadopt
    · cases hadopt
    · rename_i a₁ hseen
      have hrow : row ∈ rows := hsub List.mem_cons_self
      have h₁ := h.adoptSeen hrow hseen
      obtain ⟨hfrontier, hgoals⟩ := adoptStatus_ids cp row a₁
      refine ih hadopt (fun _ hm => hsub (List.mem_cons_of_mem _ hm))
        ⟨fun hash id hid => h₁.seen hash id ((adoptStatus_seen cp row a₁).1 ▸ hid),
          fun id hid => ?_, fun id hid => ?_⟩
      · rcases hfrontier id hid with hid | rfl
        · exact h₁.frontier id hid
        · exact ⟨row, hrow, rfl⟩
      · rcases hgoals id hid with hid | rfl
        · exact h₁.goals id hid
        · exact ⟨row, hrow, rfl⟩

theorem adoptionStart_from (cp : Checkpoint F) (rows : List (Row F)) (tree : Tree F)
    {r : Runner F} (hgoals : r.goalNodes = []) : (adoptionStart cp tree r).From cp rows := by
  refine ⟨fun hash id hid => .inl ?_, fun id hid => (by cases hid), fun id hid => ?_⟩
  · exact (SeenMap.get_foldl_insert_mem hid).resolve_left (by simp)
  · rw [show (adoptionStart cp tree r).goalNodes = [] from hgoals] at hid
    cases hid

theorem mem_mergeGoal (goals : List NodeId) (goal id : NodeId) :
    id ∈ mergeGoal goals goal ↔ id ∈ goals ∨ goal = id := by
  unfold mergeGoal
  split
  · rename_i hmem
    rw [List.contains_iff_mem] at hmem
    constructor
    · exact .inl
    · rintro (hid | rfl)
      · exact hid
      · exact hmem
  · rw [List.mem_append, List.mem_singleton, eq_comm]

theorem nodup_mergeGoal {goals : List NodeId} (h : goals.Nodup) (goal : NodeId) :
    (mergeGoal goals goal).Nodup := by
  unfold mergeGoal
  split
  · exact h
  · rename_i hnot
    rw [List.contains_iff_mem] at hnot
    exact List.nodup_append.mpr ⟨h, List.nodup_singleton goal, fun a ha b hb hab =>
      hnot (List.mem_singleton.mp hb ▸ hab ▸ ha)⟩

theorem mem_foldl_mergeGoal (goals start : List NodeId) (id : NodeId) :
    id ∈ goals.foldl mergeGoal start ↔ id ∈ start ∨ id ∈ goals := by
  induction goals generalizing start with
  | nil => simp
  | cons goal rest ih => rw [List.foldl_cons, ih, mem_mergeGoal, List.mem_cons, or_assoc, eq_comm]

theorem nodup_foldl_mergeGoal {goals start : List NodeId} (h : start.Nodup) :
    (goals.foldl mergeGoal start).Nodup := by
  induction goals generalizing start with
  | nil => exact h
  | cons goal rest ih => exact ih (nodup_mergeGoal h goal)

theorem mem_goalNodes_installAdoption (cp : Checkpoint F) (a : Adoption F) (r : Runner F)
    (id : NodeId) :
    id ∈ (installAdoption cp a r).goalNodes ↔ id ∈ a.goalNodes ∨ id ∈ cp.goalNodes := by
  simp only [installAdoption, List.mem_insertionSort, mem_foldl_mergeGoal]

/-- What an adoption has seen: the checkpoint's hashes and those it reports to the scorer. -/
def Adoption.Reports (cp : Checkpoint F) (a : Adoption F) : Prop :=
  ∀ hash, a.seen.contains hash = true ↔
    cp.seen.any (·.1 = hash) = true ∨ ∃ c ∈ a.postCheckpoint, hash = c.stateHash

theorem adoptionStart_reports (cp : Checkpoint F) (tree : Tree F) (r : Runner F) :
    (adoptionStart cp tree r).Reports cp := by
  intro hash
  rw [show (adoptionStart cp tree r).seen = .fromSortedEntries cp.seen from rfl,
    SeenMap.fromSortedEntries, SeenMap.contains_foldl_insert]
  simp [adoptionStart, SeenMap.contains]

theorem Adoption.Reports.adoptSeen (h : a.Reports cp) (ha : adoptSeen cp row a = some a')
    (hroot : row.nodeId = NodeId.root → cp.seen.any (·.1 = row.attrs.stateHash) = true) :
    a'.Reports cp ∧ a'.seen.contains row.attrs.stateHash = true ∧
      ∀ hash, a.seen.contains hash = true → a'.seen.contains hash = true := by
  unfold Server.adoptSeen at ha
  split at ha
  · rename_i hnew
    simp only [Bool.and_eq_true, Bool.not_eq_true'] at hnew
    rw [Option.map_eq_some_iff] at ha
    obtain ⟨mirror, -, rfl⟩ := ha
    have hne : row.nodeId ≠ NodeId.root := by
      intro hr
      rw [hroot hr] at hnew
      cases hnew.1
    refine ⟨fun hash => ?_, ?_, fun hash hh => ?_⟩
    · rw [SeenMap.contains_insert, h hash, if_neg hne]
      simp [or_assoc, or_and_right, exists_or]
    · rw [SeenMap.contains_insert]
      exact .inr rfl
    · rw [SeenMap.contains_insert]
      exact .inl hh
  · rename_i hold
    cases ha
    refine ⟨h, ?_, fun _ hh => hh⟩
    simp only [Bool.and_eq_true, Bool.not_eq_true', not_and_or, Bool.not_eq_false] at hold
    rcases hold with hold | hold
    · exact (h _).mpr (.inl hold)
    · simpa [SeenMap.contains, Option.isSome_iff_ne_none] using hold

/-- **The adopted seen map** has the checkpoint's hashes and those reported to the scorer, and
with them the hash of every row. -/
theorem adoptRows_reports (hadopt : adoptRows cp rows a = some a') (h : a.Reports cp)
    (hroot : ∀ row ∈ rows, row.nodeId = NodeId.root →
      cp.seen.any (·.1 = row.attrs.stateHash) = true) :
    a'.Reports cp ∧ (∀ hash, a.seen.contains hash = true → a'.seen.contains hash = true) ∧
      ∀ row ∈ rows, a'.seen.contains row.attrs.stateHash = true := by
  induction rows generalizing a with
  | nil =>
    cases hadopt
    exact ⟨h, fun _ hh => hh, fun row hm => (by cases hm)⟩
  | cons row rest ih =>
    simp only [adoptRows] at hadopt
    split at hadopt
    · cases hadopt
    · rename_i a₁ hseen
      obtain ⟨h₁, hrow, hmono⟩ := h.adoptSeen hseen (hroot row List.mem_cons_self)
      obtain ⟨hs, hp⟩ := adoptStatus_seen cp row a₁
      have h₂ : (adoptRuntime row (adoptStatus cp row a₁)).Reports cp := by
        intro hash
        rw [show (adoptRuntime row (adoptStatus cp row a₁)).seen = a₁.seen from hs,
          show (adoptRuntime row (adoptStatus cp row a₁)).postCheckpoint = a₁.postCheckpoint
            from hp]
        exact h₁ hash
      obtain ⟨h', hmono', hrows'⟩ := ih hadopt h₂ fun r hm => hroot r (List.mem_cons_of_mem _ hm)
      have hlater : ∀ hash, a₁.seen.contains hash = true → a'.seen.contains hash = true :=
        fun hash hh => hmono' hash (hs.symm ▸ hh)
      refine ⟨h', fun hash hh => hlater hash (hmono hash hh), fun r hm => ?_⟩
      rcases List.mem_cons.mp hm with rfl | hm
      · exact hlater _ hrow
      · exact hrows' r hm

end Orchestrator.Server
