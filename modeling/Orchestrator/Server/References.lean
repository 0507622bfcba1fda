import Orchestrator.Server.StoreInvariant

/-! # Server — What a checkpoint refers to

A commit changes the memory before it writes the rows, and a run that fails still writes a
final checkpoint from its memory. The memory itself is always in order: its seen map, its
frontier and its goals speak of nodes of its tree, and the store holds the first of these
nodes. A checkpoint can refer to missing rows only after a commit that was cut off between
its change of the tree and its last row.

* `Reach.references`: the memory, and how far the store is behind it.
* `checkpoint_refers_to_rows`: what every checkpoint refers to.
-/

namespace Orchestrator.Server

open Core Services Lib

variable {F : Type} [Float64 F] {exp : Experiment F}

/-! ### The memory of a runner -/

/-- Whether the runner has the tree of the experiment in memory. -/
def Point.live : Point F → Bool
  | .start | .ended | .fresh | .bootstrapped _ | .rootReady _ _ | .found _ _ | .resuming _
  | .collecting _ _ _ _ | .loaded _ _ => false
  | _ => true

/-- The goal of the commit under way. -/
def Point.goal : Point F → Option NodeId
  | .storing _ _ _ _ goal | .replaying _ _ _ goal | .acting _ _ _ _ goal _
  | .parentDue _ _ _ goal | .updated _ _ _ goal | .settling _ _ goal | .settled _ _ goal => goal
  | _ => none

/-- The seen map, the frontier and the goals speak of nodes of the tree. -/
structure Remembers (r : Runner F) (goal : Option NodeId) : Prop where
  sound : r.commitState.Sound []
  goals : ∀ id ∈ r.goalNodes, id < r.commitState.tree.len
  goal : ∀ id, goal = some id → id < r.commitState.tree.len

/-- What the memory is at a point: before a resume has read the rows there are no goals. -/
def Recalls (r : Runner F) (p : Point F) : Prop :=
  if p.live then Remembers r p.goal else p ≠ .ended → r.goalNodes = []

variable {p p' : Point F} {r r' : Runner F} {goal : Option NodeId} {s : Store F} {t : Tree F}
  {op : Op F} {a : Ans F op} {w w' : World F}

theorem Point.live_onError (h : p.onError.live = true) : p.live = true ∧ p.onError.goal = none := by
  cases p with
  | «at» c | completed c _ | began c | archived c _ | truncating c _ _ =>
    cases c <;> simp_all [Point.live, Point.onError, Rest.onError, Point.goal]
  | _ => simp_all [Point.live, Point.onError, Point.goal]

theorem Point.onError_of_not_live (h : p.onError.live = false) : p.onError = .ended := by
  cases p with
  | «at» c | completed c _ | began c | archived c _ | truncating c _ _ =>
    cases c <;> simp_all [Point.live, Point.onError, Rest.onError]
  | _ => simp_all [Point.live, Point.onError]

theorem Recalls.onError (h : Recalls r p) : Recalls r p.onError := by
  unfold Recalls
  split
  · rename_i hlive
    obtain ⟨hp, hgoal⟩ := Point.live_onError hlive
    rw [Recalls, if_pos hp] at h
    rw [hgoal]
    exact ⟨h.sound, h.goals, fun id hid => (by cases hid)⟩
  · rename_i hlive
    exact fun hne => absurd (Point.onError_of_not_live (by simpa using hlive)) hne

variable {goal' : Option NodeId} {s' : Store F} {cp : Checkpoint F} {id : NodeId}
  {archive : ArchiveSnapshot}

/-- A commit, whatever its end: the tree has grown and the rest still speaks of it. -/
theorem Remembers.grown {s : CommitState F} (h : Remembers r goal)
    (hs : s.Sound r.commitState.tree.images) (hgoal : ∀ id, goal' = some id → id < s.tree.len) :
    Remembers { r with commitState := s } goal' := by
  refine ⟨⟨List.nil_prefix, hs.seen, hs.frontier⟩, fun id hid => ?_, hgoal⟩
  have hle : r.commitState.tree.len ≤ s.tree.len := by simpa using hs.images.length_le
  exact Nat.lt_of_lt_of_le (h.goals id hid) hle

theorem Remembers.own (h : Remembers r goal) : r.commitState.Sound r.commitState.tree.images :=
  ⟨List.prefix_rfl, h.sound.seen, h.sound.frontier⟩

theorem Remembers.settle (h : Remembers r goal) :
    Remembers { addGoal goal r with current := none } goal := by
  refine ⟨?_, fun id hid => ?_, fun id hid => ?_⟩
  · change (addGoal goal r).commitState.Sound []
    rw [addGoal_commitState]
    exact h.sound
  · change id < (addGoal goal r).commitState.tree.len
    rw [addGoal_commitState]
    have hid : id ∈ (addGoal goal r).goalNodes := hid
    unfold addGoal at hid
    split at hid
    · exact h.goals id hid
    · rename_i node
      split at hid
      · exact h.goals id hid
      · rcases List.mem_append.mp hid with hid | hid
        · exact h.goals id hid
        · exact h.goal id (congrArg some (List.mem_singleton.mp hid).symm)
  · change id < (addGoal goal r).commitState.tree.len
    rw [addGoal_commitState]
    exact h.goal id hid

theorem Remembers.of_core (h : Remembers r goal) (hstate : r'.commitState = r.commitState)
    (hgoals : r'.goalNodes = r.goalNodes) (hgoal : goal' = goal) : Remembers r' goal' := by
  refine ⟨hstate ▸ h.sound, ?_, ?_⟩
  · rw [hstate, hgoals]
    exact h.goals
  · rw [hstate, hgoal]
    exact h.goal

theorem Local.recalls (hl : Local exp p r p' r') (h : Recalls r p) : Recalls r' p' := by
  cases hl with
  | @touch p r r' hsame =>
    unfold Recalls at h ⊢
    split at h
    · rw [if_pos ‹_›]
      exact h.of_core hsame.commitState hsame.goalNodes rfl
    · rw [if_neg ‹_›]
      exact fun hne => hsame.goalNodes.trans (h hne)
  | fail => exact h.onError
  | adoptGeneration | collect | loaded => exact fun _ => h (by simp)
  | @truncated c covered =>
    have h : Remembers r none := h
    cases c <;> exact h.of_core rfl rfl rfl
  | @commit c d results r outcome s hc =>
    have h : Remembers r none := h
    exact h.grown ((commitBatch_sound _ _ _).ok h.own hc) fun id hid => commitBatch_goal hc hid
  | commitFailed hc =>
    have h : Remembers r none := h
    exact h.grown ((commitBatch_sound _ _ _).error h.own hc) fun id hid => (by cases hid)
  | @adoptChild d it rest states goal r id record ha =>
    have h : Remembers r goal := h
    refine ⟨h.sound, h.goals, fun i hi => ?_⟩
    simp only [Point.goal] at hi
    split at hi
    · cases hi
      exact Tree.lt_len_of_get (adoptable_record ha).1
    · exact h.goal i hi
  | @replayChild d it rest states goal r score action s hc =>
    have h : Remembers r goal := h
    have hs : s.Sound r.commitState.tree.images :=
      (replayChild_sound _ _ _ _).ok h.own hc
    have hle : r.commitState.tree.len ≤ s.tree.len := by simpa using hs.images.length_le
    exact h.grown hs fun id hid => Nat.lt_of_lt_of_le (h.goal id hid) hle
  | replayChildFailed hc =>
    have h : Remembers r _ := h
    exact h.grown ((replayChild_sound _ _ _ _).error h.own hc) fun id hid => (by cases hid)
  | @replayParent d states goal r allDuplicate evicted s hc =>
    have h : Remembers r goal := h
    have hs : s.Sound r.commitState.tree.images :=
      (replayParent_sound _ _ _).ok h.own hc
    have hle : r.commitState.tree.len ≤ s.tree.len := by simpa using hs.images.length_le
    exact h.grown hs fun id hid => Nat.lt_of_lt_of_le (h.goal id hid) hle
  | replayParentFailed hc =>
    have h : Remembers r _ := h
    exact h.grown ((replayParent_sound _ _ _).error h.own hc) fun id hid => (by cases hid)
  | @rebin c d goal r =>
    have h : Remembers r goal := h
    refine ⟨framed_sound [] r.commitState _ rfl rfl rfl h.sound, h.goals, h.goal⟩
  | settle => exact Remembers.settle h
  | _ => exact Remembers.of_core h rfl rfl rfl

/-! ### The rows a checkpoint refers to -/

/-- The nodes a checkpoint names have rows, with the hashes the seen map has for them. -/
structure RefersToRows (s : Store F) (cp : Checkpoint F) : Prop where
  seen : ∀ hash id, (hash, id) ∈ cp.seen →
    ∃ row, s.rows[id]? = some row ∧ row.attrs.stateHash = hash
  frontier : ∀ entry ∈ cp.frontier, entry.node ∈ s.rows
  goals : ∀ id ∈ cp.goalNodes, id ∈ s.rows

/-- The checkpoint in the store refers to rows. -/
def CheckpointSound (s : Store F) : Prop :=
  ∀ cp g, s.checkpoint = some (cp, g) → RefersToRows s cp

theorem RefersToRows.later (h : RefersToRows s cp) (hext : s.Extends s') : RefersToRows s' cp := by
  refine ⟨fun hash id hid => ?_, fun entry he => hext.mem (h.frontier entry he),
    fun id hid => hext.mem (h.goals id hid)⟩
  obtain ⟨row, hrow, hhash⟩ := h.seen hash id hid
  obtain ⟨row', hrow', hnode⟩ := hext id row hrow
  have hattrs : row'.node.attrs.stateHash = row.node.attrs.stateHash := by rw [hnode]
  exact ⟨row', hrow', hattrs.trans hhash⟩

theorem frontierEntries_node {s : CommitState F} {ids : List NodeId} {entries : List FrontierEntry}
    (h : frontierEntries s ids = some entries) {entry : FrontierEntry} (he : entry ∈ entries) :
    entry.node ∈ ids := by
  induction ids generalizing entries with
  | nil =>
    cases h
    cases he
  | cons id rest ih =>
    simp only [frontierEntries] at h
    split at h
    · rename_i first others hfirst hothers
      cases h
      rcases List.mem_cons.mp he with rfl | he
      · simp only [frontierEntry, Option.map_eq_some_iff] at hfirst
        obtain ⟨record, -, rfl⟩ := hfirst
        exact List.mem_cons_self
      · exact List.mem_cons_of_mem _ (ih hothers he)
    · cases h

theorem mem_rows_of_lt_len (h : s.Holds t.images) (hid : id < t.len) : id ∈ s.rows := by
  rw [h.mem_iff, t.length_images]
  exact hid

/-- A checkpoint built while the store holds the tree in memory refers to its rows. -/
theorem refersToRows_of_build {value : Checkpoint F} (h : Remembers r goal)
    (hholds : s.Holds r.commitState.tree.images) (hv : buildCheckpoint exp r archive = some value) :
    RefersToRows s value := by
  rw [buildCheckpoint, Option.map_eq_some_iff] at hv
  obtain ⟨frontier, hfrontier, rfl⟩ := hv
  refine ⟨fun hash id hid => ?_, fun entry he => ?_, fun id hid => ?_⟩
  · have hget : r.commitState.seen.get hash = some id :=
      Std.ExtTreeMap.mem_toList_iff_getElem?_eq_some.mp hid
    obtain ⟨image, himage, hhash⟩ := h.sound.seen hash id hget
    have hrow := hholds.image id
    rw [himage, Option.map_eq_some_iff] at hrow
    obtain ⟨row, hrow, hi⟩ := hrow
    exact ⟨row, hrow, (congrArg NodeImage.stateHash hi).trans hhash⟩
  · have hnode := frontierEntries_node hfrontier he
    rw [List.mem_insertionSort] at hnode
    exact mem_rows_of_lt_len hholds (h.sound.frontier _ hnode)
  · exact mem_rows_of_lt_len hholds (h.goals id hid)

/-- The memory a resume makes of a checkpoint that refers to rows. -/
theorem remembers_adoption {tree : Tree F} {a : Adoption F} (hs : Synced s a.tree)
    (hcp : RefersToRows s cp) (hgoals : r.goalNodes = [])
    (ha : adoptRows cp s.queryNodes (adoptionStart cp tree r) = some a) :
    Remembers (installAdoption cp a r) none := by
  have hfrom := adoptRows_from ha (List.Subset.refl _) (adoptionStart_from cp _ tree hgoals)
  have hquery : ∀ row ∈ s.queryNodes, s.rows[row.nodeId]? = some row := by
    intro row hrow
    obtain ⟨i, hi⟩ := List.mem_iff_getElem?.mp hrow
    rw [hs.holds.getElem?_queryNodes] at hi
    rw [hs.holds.nodeId i row hi]
    exact hi
  have hmem : ∀ {id : NodeId}, id ∈ s.rows → id < a.tree.len := by
    intro id hid
    rwa [hs.holds.mem_iff, a.tree.length_images] at hid
  have hof : ∀ {id : NodeId}, (∃ row ∈ s.queryNodes, row.nodeId = id) → id < a.tree.len := by
    rintro id ⟨row, hrow, rfl⟩
    exact hmem (Std.ExtTreeMap.mem_iff_isSome_getElem?.mpr (by rw [hquery row hrow]; rfl))
  refine ⟨⟨List.nil_prefix, fun hash id hid => ?_, fun id hid => hof (hfrom.frontier id hid)⟩,
    fun id hid => ?_, fun id hid => (by cases hid)⟩
  · obtain ⟨row, hrow, hhash⟩ : ∃ row, s.rows[id]? = some row ∧ row.attrs.stateHash = hash := by
      rcases hfrom.seen hash id hid with hid | ⟨row, hrow, rfl, hhash⟩
      · exact hcp.seen hash id hid
      · exact ⟨row, hquery row hrow, hhash⟩
    have himage := hs.holds.image id
    rw [hrow] at himage
    exact ⟨row.image, himage.symm, hhash⟩
  · rcases (mem_goalNodes_installAdoption cp a r id).mp hid with hid | hid
    · exact hof (hfrom.goals id hid)
    · exact hmem (hcp.goals id hid)

theorem Next.recalls (hn : Next exp p r op a p' r') (ha : env exp op w a w')
    (hreach : Reaches exp p r w) (hcp : CheckpointSound w.store) (h : Recalls r p) :
    Recalls r' p' := by
  have hassert := hreach.refines.2
  cases hn with
  | quiet _ => exact h
  | failed _ => exact h.onError
  | noCheckpoint | foundCheckpoint | bootstrap | stale | collected | missed =>
    exact fun _ => h (by simp)
  | rootScored => exact fun _ => h (by simp)
  | @rootCreated root result r bringup =>
    have hgoals : r.goalNodes = [] := h (by simp)
    refine ⟨?_, by simp [hgoals], fun id hid => (by cases hid)⟩
    rw [hassert.2.2]
    exact CommitState.fromRoot_sound _
  | @adopt cp intents r rows tree a ht hadopt =>
    obtain ⟨-, rfl, rfl⟩ := env_queryNodes_ok ha
    obtain ⟨⟨cp', g⟩, hckpt, rfl⟩ := Option.map_eq_some_iff.mp (hreach.current rfl)
    exact remembers_adoption (hreach.refines.1.adopt ht hadopt) (hcp _ g hckpt) (h (by simp)) hadopt
  | @createReplayed d it rest states goal action r id status a bringup hact hans =>
    have h : Remembers r goal := h
    refine ⟨h.sound, h.goals, fun i hi => ?_⟩
    simp only [Assert, hact] at hassert
    simp only [Point.goal] at hi
    cases action with
    | kept id' status' =>
      cases hact
      simp only [ReplayAction.goalAfter] at hi
      split at hi
      · cases hi
        rw [hassert.2.1]
        exact Nat.lt_succ_self _
      · exact h.goal i hi
    | _ => exact h.goal i hi
  | @committed c d goal r =>
    have h : Remembers r goal := h
    exact ⟨h.sound, h.goals, fun id hid => (by cases hid)⟩
  | _ => exact Remembers.of_core h rfl rfl rfl

/-! ### How far the store is behind -/

/-- The store holds the first nodes of the tree. -/
def Behind (s : Store F) (t : Tree F) : Prop := ∃ n, s.Holds (t.images.take n)

theorem Behind.of_holds (h : s.Holds t.images) : Behind s t :=
  ⟨t.images.length, by rwa [List.take_length]⟩

/-- A tree that has grown from one the store holds. -/
theorem Behind.of_grown {cs : CommitState F} (h : s.Holds t.images) (hs : cs.Sound t.images) :
    Behind s cs.tree := by
  refine ⟨t.images.length, ?_⟩
  rw [← List.prefix_iff_eq_take.mp hs.images]
  exact h

/-- A store behind a tree that has all its ids holds it. -/
theorem Behind.holds (h : Behind s t) (hall : ∀ id < t.len, id ∈ s.rows) : s.Holds t.images := by
  obtain ⟨n, hn⟩ := h
  have hle : t.images.length ≤ n := by
    rcases Nat.lt_or_ge n t.len with hlt | hge
    · have hmem := hall n hlt
      rw [hn.mem_iff, List.length_take] at hmem
      lia
    · rwa [t.length_images]
  rwa [List.take_of_length_le hle] at hn

/-- After an error: a torn commit has stored some of its nodes, and a failed run is one whose
nodes are all stored. -/
def Reflected (s : Store F) (t : Tree F) : Point F → Prop
  | .torn _ => Behind s t
  | .at .failed | .began .failed | .archived .failed _ | .truncating .failed _ _ =>
    s.Holds t.images
  | _ => True

theorem Acting.behind {parent : NodeId} {it : Item F} {created : Option (NodeId × NodeStatus)}
    (h : Acting s t parent it created) : Behind s t := by
  cases created with
  | none => exact .of_holds h.holds
  | some created => exact ⟨created.1, h.1⟩

theorem Reflected.onError (ha : Assert exp r s p) (h : Reflected s r.commitState.tree p) :
    Reflected s r.commitState.tree p.onError := by
  cases p with
  | «at» c | began c | archived c _ | truncating c _ _ =>
    cases c with
    | booted => trivial
    | failed => exact h
    | _ => exact (ha (by simp)).holds
  | completed c _ =>
    cases c with
    | booted => trivial
    | _ => exact ha.holds
  | filling | selecting | dispatching | requested | offered | proposed | walled | submitted
  | sent => exact ha.holds
  | storing c d rest states goal =>
    obtain ⟨n, hholds, -, -⟩ := ha
    exact ⟨n, hholds⟩
  | acting d it rest states goal action => exact Acting.behind ha
  | parentDue => exact .of_holds ha.1
  | torn => exact h
  | taken | answered | scored | owned | replayTaken | replayScored | replaying | updated
  | settling => exact .of_holds ha.holds
  | _ => trivial

theorem Reflected.of_rows (h : Reflected s t p) (hrows : s'.rows = s.rows) : Reflected s' t p := by
  unfold Reflected at h ⊢
  split at h
  · obtain ⟨n, hn⟩ := h
    exact ⟨n, hn.of_rows hrows⟩
  · exact h.of_rows hrows
  · exact h.of_rows hrows
  · exact h.of_rows hrows
  · exact h.of_rows hrows
  · trivial

theorem Local.reflected (hl : Local exp p r p' r') (ha : Assert exp r s p) (hr : Recalls r p)
    (h : Reflected s r.commitState.tree p) : Reflected s r'.commitState.tree p' := by
  cases hl with
  | touch hsame =>
    rw [hsame.commitState]
    exact h
  | fail => exact h.onError ha
  | @truncated c covered =>
    cases c with
    | failed => exact h
    | _ => trivial
  | commitFailed hc =>
    exact .of_grown ha.holds ((commitBatch_sound _ _ _).error (Remembers.own hr) hc)
  | replayChildFailed hc =>
    exact .of_grown ha.holds ((replayChild_sound _ _ _ _).error (Remembers.own hr) hc)
  | replayParentFailed hc =>
    exact .of_grown ha.holds ((replayParent_sound _ _ _).error (Remembers.own hr) hc)
  | _ => trivial

/-- A call that failed, with its effect or without it. -/
theorem Issues.reflected {w₁ : World F} (hi : Issues exp p r op) (happ : Applied op w w₁)
    (ha : Assert exp r w.store p) (h : Reflected w.store r.commitState.tree p) :
    Reflected w₁.store r.commitState.tree p.onError := by
  have hrows : op.writesRows = false → w₁.store.rows = w.store.rows := by
    intro hop
    cases happ with
    | createNode | updateNode => cases hop
    | putCheckpoint hput => rw [(Store.putCheckpoint_ok hput).2.2]; rfl
    | deleteWal hdel => rw [Store.deleteWal_ok hdel]; rfl
    | _ => rfl
  cases hi with
  | createRoot => trivial
  | create bringup hid hr =>
    cases happ with
    | createNode hc =>
      obtain ⟨n, hholds, -, -⟩ := Storing.create ha hid hr hc
      exact ⟨n, hholds⟩
  | route hid hroute =>
    cases happ with
    | updateNode hu =>
      obtain ⟨n, hholds, -, -⟩ := ha
      exact ⟨n, hholds.update hu⟩
  | createReplayed bringup hact =>
    cases happ with
    | createNode hc =>
      simp only [Assert, hact] at ha
      exact .of_holds (Acting.create ha hc).holds
  | routeReplayed hact =>
    cases happ with
    | updateNode hu =>
      obtain ⟨n, hholds⟩ := Acting.behind ha
      exact ⟨n, hholds.update hu⟩
  | parent hr =>
    cases happ with
    | updateNode hu => exact .of_holds (ha.1.update hu)
  | _ => exact (h.onError ha).of_rows (hrows rfl)

/-- Whether a commit that ended with an error had stored every node of the tree it left. -/
def Entry.complete (e : Entry F) : Bool :=
  match e.event with
  | .aborted _ r => (List.range r.commitState.tree.len).all (e.store.rows.contains ·)
  | _ => true

theorem Next.reflected (hn : Next exp p r op a p' r') (he : env exp op w a w')
    (hclean : ∀ e ∈ w'.log, e.complete = true) (ha : Assert exp r w.store p)
    (h : Reflected w.store r.commitState.tree p) : Reflected w'.store r'.commitState.tree p' := by
  cases hn with
  | quiet hq => exact h.of_rows (env_rows he (by cases op <;> simp_all [Op.quiet, Op.writesRows]))
  | failed hi =>
    exact env_induct (P := fun x => Reflected x.store r.commitState.tree p.onError) he
      (h.onError ha) (fun w₁ happ => hi.reflected happ ha h) fun _ _ h => h
  | @aborted d =>
    obtain rfl := env_record he
    have hentry := hclean ⟨.aborted d.seq r, w.store, w.scorer⟩
      (List.mem_append_right _ List.mem_cons_self)
    simp only [Entry.complete, List.all_eq_true, List.mem_range] at hentry
    exact Behind.holds h fun id hid => Std.ExtTreeMap.mem_iff_contains.mpr (hentry id hid)
  | @began c | @archived c | @archivedAgain c | @put c | @truncated c =>
    have h := h.of_rows (env_rows he rfl)
    cases c with
    | failed => exact h
    | _ => trivial
  | @committed c d goal =>
    have hholds : w'.store.Holds r.commitState.tree.images := (ha.of_rows (env_rows he rfl)).holds
    cases c.afterCommit exp goal with
    | failed => exact hholds
    | _ => trivial
  | _ => trivial

/-- The store holds the tree in memory when a checkpoint is put. -/
theorem Reflected.holds_archived {c : Rest}
    (h : Reflected s r.commitState.tree (.archived c archive))
    (ha : Assert exp r s (.archived c archive)) : s.Holds r.commitState.tree.images := by
  cases c with
  | failed => exact h
  | _ => exact (ha (by simp)).holds

theorem Next.checkpointSound (hn : Next exp p r op a p' r') (he : env exp op w a w')
    (ha : Assert exp r w.store p) (hr : Recalls r p)
    (hreflected : Reflected w.store r.commitState.tree p) (h : CheckpointSound w.store) :
    CheckpointSound w'.store := by
  by_cases hop : op.writesCheckpoint = false
  · intro cp g hcp
    rw [env_checkpoint he hop] at hcp
    exact (h cp g hcp).later (env_extends he)
  · rcases hn.issues with hi | ⟨-, hnot⟩
    · refine env_induct (P := fun x => CheckpointSound x.store) he h (fun w₁ happ => ?_)
        fun _ _ h => h
      cases hi with
      | put hv =>
        cases happ with
        | putCheckpoint hput =>
          obtain ⟨-, -, rfl⟩ := Store.putCheckpoint_ok hput
          intro cp g hcp
          cases hcp
          have hholds := hreflected.holds_archived ha
          exact (refersToRows_of_build hr hholds hv).later (.of_rows rfl)
      | _ => exact absurd rfl hop
    · exact absurd hnot hop

/-- **The memory and the store.** As long as every commit that ended with an error had stored
its nodes: the checkpoint refers to rows, the memory speaks of nodes of its tree, and after
an error the store holds these nodes. -/
theorem Reach.references (h : Reaches exp p r w) (hclean : ∀ e ∈ w.log, e.complete = true) :
    CheckpointSound w.store ∧ Recalls r p ∧ Reflected w.store r.commitState.tree p := by
  induction h with
  | init hw =>
    subst hw
    exact ⟨fun cp g hcp => (by cases hcp), fun _ => rfl, trivial⟩
  | restart _ _ ih => exact ⟨(ih hclean).1, fun _ => rfl, trivial⟩
  | loc h hl ih =>
    obtain ⟨hcp, hr, hreflected⟩ := ih hclean
    exact ⟨hcp, hl.recalls hr, hl.reflected h.refines.2 hr hreflected⟩
  | @call p r w op a w' p' r' h hn he ih =>
    obtain ⟨hcp, hr, hreflected⟩ := ih fun e hmem => hclean e ((env_log he).1.subset hmem)
    exact ⟨hn.checkpointSound he h.refines.2 hr hreflected hcp, hn.recalls he h hcp hr,
      hn.reflected he hclean h.refines.2 hreflected⟩

/-! ### Whole runs -/

/-- **What a checkpoint refers to.** In every run in which each commit that ended with an error
had stored all nodes of the tree it left, the checkpoint in the store refers to rows with the
recorded hashes, and the seen map of every process that has started to nodes of its tree. -/
theorem checkpoint_refers_to_rows (exp : Experiment F) {s : Solo (Op F) (Ans F) (World F)}
    (h : Solo.Steps (env exp) (boot exp) ⟨.empty, none⟩ s)
    (hclean : ∀ e ∈ s.world.log, e.complete = true) :
    CheckpointSound s.world.store ∧
      ∀ e ∈ s.world.log, ∀ r, e.event = .started r → ∀ hash id,
        r.commitState.seen.get hash = some id →
          ∃ record, r.commitState.tree.get id = some record ∧ record.payload.stateHash = hash := by
  obtain ⟨p, r, hreach⟩ := reaches_of_steps h
  refine ⟨(hreach.references hclean).1, fun e he r₀ hev hash id hid => ?_⟩
  obtain ⟨i, hi⟩ := List.mem_iff_getElem?.mp he
  obtain ⟨p₀, r', w₀, p₁, r₁, h₀, hnext, -, -, hle, -⟩ := hreach.entry_noted hi (by rw [hev]; rfl)
  have hclean₀ : ∀ e ∈ w₀.log, e.complete = true := fun e he =>
    hclean e (hle.subset (List.mem_append_left _ he))
  have hrecalls := (h₀.references hclean₀).2.1
  rw [hev] at hnext
  cases hnext with
  | quiet hq => cases hq
  | failed hi => cases hi
  | started => exact (Remembers.sound hrecalls).seen hash id hid |>.record

/-- A call that fails for good without an effect. -/
def lost : Choice := .fault (.new .unavailable "connection lost") false

/-- The update of the parent's row fails, after every row of the batch was created. -/
def lostUpdate : List (List Choice) :=
  [List.replicate 34 .answer ++ lost :: List.replicate 20 .answer]

theorem checkpoint_refers_to_rows_lostUpdate :
    ((evaluate sample lostUpdate).log.all (·.complete) = true ∧
      (evaluate sample lostUpdate).store.checkpoint.map (·.1.batchSeq) = some 1) ∧
      CheckpointSound (evaluate sample lostUpdate).store := by
  have hclean : (evaluate sample lostUpdate).log.all (·.complete) = true ∧
      (evaluate sample lostUpdate).store.checkpoint.map (·.1.batchSeq) = some 1 := by
    decide +kernel
  exact ⟨hclean, (checkpoint_refers_to_rows sample (steps_evaluate sample lostUpdate)
    (List.all_eq_true.mp hclean.1)).1⟩

/-- The row of the first child cannot be created. -/
def lostCreate : List (List Choice) :=
  [List.replicate 32 .answer ++ lost :: List.replicate 20 .answer]

/-- Whether a store's checkpoint has seen a node that has no row. -/
def seesMissing (s : Store F) (hash : StateHash) (id : NodeId) : Bool :=
  s.rows[id]?.isNone && s.checkpoint.any fun cp => cp.1.seen.contains (hash, id)

theorem not_checkpointSound_of_seesMissing {hash : StateHash} (h : seesMissing s hash id = true) :
    ¬ CheckpointSound s := by
  intro hsound
  obtain ⟨hnone, hany⟩ := (Bool.and_eq_true _ _).mp h
  obtain ⟨⟨cp, g⟩, hcp, hseen⟩ := (Option.any_eq_true _ _).mp hany
  obtain ⟨row, hrow, -⟩ := (hsound cp g hcp).seen hash id (List.contains_iff_mem.mp hseen)
  rw [hrow] at hnone
  cases hnone

/-- The final checkpoint of a run whose first child was never stored has seen node 1, while
the store holds the root only. -/
theorem checkpoint_refers_to_missing_row :
    Solo.Steps (env sample) (boot sample) ⟨.empty, none⟩ ⟨evaluate sample lostCreate, none⟩ ∧
      seesMissing (evaluate sample lostCreate).store 10 1 = true ∧
      ¬ CheckpointSound (evaluate sample lostCreate).store := by
  have hmissing : seesMissing (evaluate sample lostCreate).store 10 1 = true := by decide +kernel
  exact ⟨steps_evaluate sample lostCreate, hmissing, not_checkpointSound_of_seesMissing hmissing⟩

end Orchestrator.Server
