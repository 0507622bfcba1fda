import Orchestrator.Server.Phases
import Orchestrator.Server.Rebuild

/-! # Server — The store refines the tree

Rows are created one call at a time after the commit in memory, and a process can stop
between any two of them. What the store holds is nevertheless always the beginning of a
tree: a commit creates its rows in the order of their ids, and a resume starts from the tree
of the rows it finds.

* `Reach.durable`: the rows are always the first nodes of some tree.
* `Reach.asserted`: how the rows and the tree in memory compare at every point.
-/

namespace Orchestrator.Server

open Core Services Lib

variable {F : Type} [Float64 F] {exp : Experiment F}

/-! ### Rows and tree -/

/-- The rows' statuses are the tree's, but for nodes of which only the tree knows that they
are exhausted. -/
def StatusesOf (s : Store F) (t : Tree F) (skip : NodeId → Prop) : Prop :=
  ∀ (id : NodeId) (row : Row F), s.rows[id]? = some row →
    t.statusOf id = some row.status ∨
      skip id ∧ row.status = .frontier ∧ t.statusOf id = some .expanded

/-- The store holds exactly the nodes of the tree, with their statuses. -/
structure Synced (s : Store F) (t : Tree F) : Prop where
  holds : s.Holds t.images
  status : StatusesOf s t fun _ => False

/-- The nodes from position `n` on are the committed children still to be stored. -/
def Pending (images : List (NodeImage F)) (parent : NodeId) :
    Nat → List (Item F × ChildCommit) → Prop
  | n, [] => n = images.length
  | n, (it, commit) :: rest =>
    match commit.nodeId with
    | none => Pending images parent n rest
    | some id => id = n ∧ (∃ depth, images[n]? = some (it.image parent depth)) ∧
        Pending images parent (n + 1) rest

variable {images : List (NodeImage F)} {parent : NodeId} {p p' : Point F} {r r' : Runner F}
  {s s' : Store F} {t : Tree F} {skip : NodeId → Prop} {rules : CommitRules F}
  {cs cs' : CommitState F} {it : Item F} {T : Tree F} {op : Op F} {a : Ans F op} {w w' : World F}
  {id : NodeId} {bringup : CompiledMap} {rest : List (Item F × ChildCommit)}

variable {mirror : CellMirror} {its : List (Item F)} {n : Nat} {t' : Tree F} {root : Capture}
  {depth : Nat} {req : CreateNodeRequest F} {status : NodeStatus} {record : NodeRecord F}

theorem pending_of_assigned {siblings : List StateHash} {commits : List ChildCommit}
    (h : Assigned images parent n (scoredChildren mirror siblings its) commits) :
    Pending images parent n (its.zip commits) := by
  induction its generalizing siblings commits n with
  | nil =>
    cases commits with
    | nil => exact h
    | cons _ _ => exact h.elim
  | cons it rest ih =>
    cases commits with
    | nil => exact h.elim
    | cons commit commits =>
      cases hid : commit.nodeId with
      | none =>
        simp only [scoredChildren, Assigned, hid] at h
        simp only [List.zip_cons_cons, Pending, hid]
        exact ih h
      | some id =>
        simp only [scoredChildren, Assigned, hid] at h
        simp only [List.zip_cons_cons, Pending, hid]
        exact ⟨h.1, h.2.1, ih h.2.2⟩

/-- A commit that has stored some of its children. -/
def Storing (s : Store F) (t : Tree F) (parent : NodeId) (rest : List (Item F × ChildCommit)) :
    Prop :=
  ∃ n, s.Holds (t.images.take n) ∧ Pending t.images parent n rest ∧ StatusesOf s t (· = parent)

/-- A replay that has decided about a child. -/
def Acting (s : Store F) (t : Tree F) (parent : NodeId) (it : Item F) :
    Option (NodeId × NodeStatus) → Prop
  | none => Synced s t
  | some (id, status) => s.Holds (t.images.take id) ∧ t.len = id + 1 ∧
      (∃ depth, t.images[id]? = some (it.image parent depth)) ∧ t.statusOf id = some status ∧
      StatusesOf s t fun _ => False

/-- The root every bootstrap of the experiment arrives at. -/
def rootImage (exp : Experiment F) : NodeImage F :=
  (rootPayload exp.bootstrap
    (Scorer.new.scoreStateInput (exp.scoreState (exp.bootstrap.featureBytes.getD [])))).image none 0

/-- What the store alone says at every instant: its rows are the first nodes of some tree,
and there is nothing but the root before the first checkpoint. -/
structure Durable (exp : Experiment F) (s : Store F) : Prop where
  tree : ∃ (images : List (NodeImage F)) (T : Tree F), s.Holds images ∧ images <+: T.images
  root : s.checkpoint.isSome = true → s.rows[NodeId.root]?.isSome = true
  fresh : s.checkpoint = none → ∀ (id : NodeId) (row : Row F), s.rows[id]? = some row →
    id = NodeId.root ∧ row.image = rootImage exp ∧ row.status = .frontier

/-- How the store and the runner's tree compare at a point. -/
def Assert (exp : Experiment F) (r : Runner F) (s : Store F) : Point F → Prop
  | .start | .ended | .fresh | .found _ _ | .resuming _ | .collecting _ _ _ _ | .loaded _ _
  | .torn _ => True
  | .bootstrapped root => root = exp.bootstrap
  | .rootReady root result => root = exp.bootstrap ∧
      (rootPayload root result).image none 0 = rootImage exp ∧
      r.commitState = .fromRoot (rootPayload root result)
  | .at c | .began c | .archived c _ | .truncating c _ _ =>
    c ≠ .failed → Synced s r.commitState.tree
  | .storing _ d rest _ _ => Storing s r.commitState.tree d.parent rest
  | .acting d it _ _ _ action => Acting s r.commitState.tree d.parent it action.created
  | .parentDue _ d _ _ =>
    s.Holds r.commitState.tree.images ∧ StatusesOf s r.commitState.tree (· = d.parent)
  | _ => Synced s r.commitState.tree

theorem Assert.of_commitState (h : Assert exp r s p) (hr : r'.commitState = r.commitState) :
    Assert exp r' s p := by
  unfold Assert at h ⊢
  rw [hr]
  exact h

theorem assert_onError (p : Point F) (r : Runner F) (s : Store F) : Assert exp r s p.onError := by
  cases p with
  | «at» c | completed c _ | began c | archived c _ | truncating c _ _ =>
    cases c <;> simp [Assert, Point.onError, Rest.onError]
  | _ => simp [Assert, Point.onError]

theorem StatusesOf.mono {skip' : NodeId → Prop} (h : StatusesOf s t skip) (hs : s.Holds t.images)
    (hg : t.Grows t' skip') (hle : ∀ id, skip id → skip' id) : StatusesOf s t' skip' := by
  intro id row hrow
  have hid : id < t.len := by
    have := (hs.mem_iff id).mp (Std.ExtTreeMap.mem_iff_isSome_getElem?.mpr (by rw [hrow]; rfl))
    rwa [t.length_images] at this
  rcases h id row hrow with hold | ⟨hskip, hfrontier, hexpanded⟩
  · rcases hg.status id hid with hsame | ⟨hskip, hfrontier, hexpanded⟩
    · exact .inl (hsame.trans hold)
    · exact .inr ⟨hskip, Option.some.inj (hold.symm.trans hfrontier), hexpanded⟩
  · rcases hg.status id hid with hsame | ⟨-, hfrontier', -⟩
    · exact .inr ⟨hle id hskip, hfrontier, hsame.trans hexpanded⟩
    · rw [hexpanded] at hfrontier'
      cases hfrontier'

theorem take_of_grows {touched : NodeId → Prop} (h : t.Grows t' touched) :
    t'.images.take t.len = t.images := by
  rw [← t.length_images]
  exact (List.prefix_iff_eq_take.mp h.images).symm

/-- The commit in memory is ahead of the store by the children to be stored. -/
theorem Synced.commit {outcome : BatchCommitOutcome} (h : Synced s cs.tree)
    (hc : commitBatch parent (scoredChildren mirror [] its) rules cs = .ok outcome cs') :
    Storing s cs'.tree parent (its.zip outcome.childCommits) := by
  obtain ⟨hg, ha⟩ := commitBatch_grows hc
  refine ⟨cs.tree.len, ?_, pending_of_assigned ha, h.status.mono h.holds hg fun _ => False.elim⟩
  rw [take_of_grows hg]
  exact h.holds

theorem Synced.replay {score : F} {action : ReplayAction} (h : Synced s cs.tree)
    (hc : replayChild parent score rules it cs = .ok action cs') :
    Acting s cs'.tree parent it action.created := by
  obtain ⟨hg, hcase⟩ := (replayChild_ok hc).grows
  have hstatus := h.status.mono h.holds hg fun _ => False.elim
  rcases hcase with ⟨hnone, himages⟩ | ⟨status, depth, hsome, himages, hst⟩
  · rw [hnone]
    exact ⟨himages ▸ h.holds, hstatus⟩
  · rw [hsome]
    have hlen : cs'.tree.len = cs.tree.len + 1 := by simpa using congrArg List.length himages
    refine ⟨take_of_grows hg ▸ h.holds, hlen, ⟨depth, ?_⟩, hst, hstatus⟩
    rw [himages, ← cs.tree.length_images]
    simp

theorem Synced.replayParent {allDuplicate : Bool} {evicted : Option FrontierEvictReason}
    (h : Synced s cs.tree) (hc : replayParent parent allDuplicate rules cs = .ok evicted cs') :
    s.Holds cs'.tree.images ∧ StatusesOf s cs'.tree (· = parent) := by
  obtain ⟨himages, hg⟩ := replayParent_grows hc
  exact ⟨himages ▸ h.holds, h.status.mono h.holds hg fun _ => False.elim⟩

theorem addGoal_commitState (goal : Option NodeId) (r : Runner F) :
    (addGoal goal r).commitState = r.commitState := by
  unfold addGoal
  split
  · rfl
  · split
    · rfl
    · rfl

theorem Local.asserted (hl : Local exp p r p' r') (h : Assert exp r s p) : Assert exp r' s p' := by
  cases hl with
  | touch hsame => exact h.of_commitState hsame.commitState
  | fail => exact assert_onError p r s
  | adoptGeneration | collect | loaded | commitFailed | replayChildFailed
  | replayParentFailed => trivial
  | pop | enterLoop | pausing | ending => exact fun _ => h (by simp)
  | fill => exact h (by simp)
  | unselected | filled => exact fun _ => h
  | @truncated c covered =>
    cases c with
    | booted => exact h (by simp)
    | failed => exact fun hne => absurd rfl hne
    | _ => exact fun _ => h (by simp)
  | commit hc => exact Synced.commit h hc
  | unrouted hid hroute =>
    obtain ⟨n, hholds, hpending, hstatus⟩ := h
    refine ⟨n, hholds, ?_, hstatus⟩
    simpa only [Pending, hid] using hpending
  | stored =>
    obtain ⟨n, hholds, hpending, hstatus⟩ := h
    rw [show n = _ from hpending, List.take_length] at hholds
    exact ⟨hholds, hstatus⟩
  | replayChild hc => exact Synced.replay h hc
  | acted hc hv =>
    simp only [Assert, hc] at h
    exact h
  | replayParent hc => exact Synced.replayParent h hc
  | @settle c d goal => exact h.of_commitState (addGoal_commitState goal r)
  | _ => exact h

/-! ### Calls that leave the rows and the checkpoint alone -/

theorem Assert.of_rows (h : Assert exp r s p) (hrows : s'.rows = s.rows) : Assert exp r s' p := by
  have hsynced : ∀ {t : Tree F}, Synced s t → Synced s' t := fun h =>
    ⟨h.holds.of_rows hrows, fun id row hrow => h.status id row (hrows ▸ hrow)⟩
  have hstatuses : ∀ {t : Tree F} {skip : NodeId → Prop}, StatusesOf s t skip →
      StatusesOf s' t skip := fun h id row hrow => h id row (hrows ▸ hrow)
  cases p with
  | storing c d rest states goal =>
    obtain ⟨n, hholds, hpending, hstatus⟩ := h
    exact ⟨n, hholds.of_rows hrows, hpending, hstatuses hstatus⟩
  | acting d it rest states goal action =>
    simp only [Assert] at h ⊢
    unfold Acting at h ⊢
    split at h
    · exact hsynced h
    · exact ⟨h.1.of_rows hrows, h.2.1, h.2.2.1, h.2.2.2.1, hstatuses h.2.2.2.2⟩
  | parentDue c d states goal => exact ⟨h.1.of_rows hrows, hstatuses h.2⟩
  | «at» | began | archived | truncating => exact fun hne => hsynced (h hne)
  | start | ended | fresh | found | resuming | collecting | loaded | torn | bootstrapped
  | rootReady => exact h
  | _ => exact hsynced h

theorem rootPayload_image {bytes : Bytes} (scorer : Scorer) (hroot : root = exp.bootstrap)
    (hb : root.featureBytes = some bytes) :
    (rootPayload root (scorer.scoreStateInput (exp.scoreState bytes))).image none 0 =
      rootImage exp := by
  subst hroot
  have hbytes : exp.bootstrap.featureBytes.getD [] = bytes := by rw [hb]; rfl
  rw [rootImage, hbytes]
  cases exp.scoreState bytes <;> rfl

theorem rowsOf_queryNodes (h : s.Holds images) (hpre : images <+: T.images) :
    RowsOf T 0 s.queryNodes := by
  refine ⟨fun i row hrow => ?_, fun i row hrow => ?_⟩ <;>
    rw [h.getElem?_queryNodes] at hrow <;> rw [Nat.zero_add]
  · have himage := h.image i
    rw [hrow] at himage
    obtain ⟨later, hlater⟩ := hpre
    rw [← hlater, List.getElem?_append_left (List.getElem?_eq_some_iff.mp himage.symm).1]
    exact himage.symm
  · exact h.nodeId i row hrow

/-- **The rebuild of a resume.** Rows that are the first nodes of a tree give these nodes. -/
theorem rebuild_queryNodes (h : s.Holds images) (hpre : images <+: T.images) (hne : images ≠ []) :
    ∃ t, rebuildTree s.queryNodes = .ok t ∧ t.images = images ∧
      ∀ i < t.len, t.statusOf i = some .frontier := by
  have hlength := h.length_queryNodes
  have hrows : s.queryNodes ≠ [] := fun hnil => by
    rw [hnil] at hlength
    exact hne (List.length_eq_zero_iff.mp hlength.symm)
  obtain ⟨t, ht, hlen, hpart⟩ := rebuildTree_ok (rowsOf_queryNodes h hpre) hrows
  refine ⟨t, ht, ?_, hpart.fresh⟩
  rw [hpart.images, hlen, hlength, ← List.prefix_iff_eq_take.mp hpre]

theorem Durable.adopt {cp : Checkpoint F} {tree : Tree F} {a : Adoption F} (h : Durable exp s)
    (ht : rebuildTree s.queryNodes = .ok tree)
    (ha : adoptRows cp s.queryNodes (adoptionStart cp tree r) = some a) : Synced s a.tree := by
  obtain ⟨images, T, hholds, hpre⟩ := h.tree
  have hrows := rowsOf_queryNodes hholds hpre
  have hne : images ≠ [] := by
    rintro rfl
    rw [List.length_eq_zero_iff.mp hholds.length_queryNodes] at ht
    cases ht
  obtain ⟨t, ht', himages, hfresh⟩ := rebuild_queryNodes hholds hpre hne
  obtain rfl : t = tree := by
    rw [ht'] at ht
    cases ht
    rfl
  have hlen : s.queryNodes.length = t.len := by
    rw [hholds.length_queryNodes, ← himages, t.length_images]
  have hmarked : ∀ row ∈ s.queryNodes, t.statusOf row.nodeId = some .frontier := by
    intro row hmem
    obtain ⟨i, hi⟩ := List.mem_iff_getElem?.mp hmem
    rw [hrows.nodeId i row hi, Nat.zero_add]
    exact hfresh i (hlen ▸ (List.getElem?_eq_some_iff.mp hi).1)
  have hdistinct : s.queryNodes.Pairwise (·.nodeId ≠ ·.nodeId) := by
    rw [List.pairwise_iff_getElem]
    intro i j hi hj hij heq
    have hi' := hrows.nodeId i _ (List.getElem?_eq_getElem hi)
    have hj' := hrows.nodeId j _ (List.getElem?_eq_getElem hj)
    lia
  obtain ⟨himg, hst, -⟩ := adoptRows_tree ha hdistinct hmarked
  refine ⟨?_, fun id row hrow => .inl ?_⟩
  · rw [himg, show (adoptionStart cp t r).tree = t from rfl, himages]
    exact hholds
  · have hmem : row ∈ s.queryNodes :=
      List.mem_iff_getElem?.mpr ⟨id, (hholds.getElem?_queryNodes id).trans hrow⟩
    have := hst row hmem
    rwa [hholds.nodeId id row hrow] at this

theorem Next.asserted_frame (hn : Next exp p r op a p' r') (ha : env exp op w a w')
    (hrows : op.writesRows = false) (hckpt : op.writesCheckpoint = false) (hd : Durable exp w.store)
    (h : Assert exp r w.store p) : Assert exp r' w'.store p' := by
  have h := h.of_rows (env_rows ha hrows)
  cases hn with
  | quiet _ => exact h
  | failed _ => exact assert_onError p r w'.store
  | noCheckpoint | foundCheckpoint | stale | collected | missed => trivial
  | aborted => exact fun hne => absurd rfl hne
  | bootstrap => exact (env_bootstrap_ok ha).1
  | rootScored hb =>
    obtain ⟨hresults, -⟩ := env_scoreBatch_ok ha
    have hresult := (List.cons.inj hresults).1
    exact ⟨h, hresult ▸ rootPayload_image w.scorer h hb, rfl⟩
  | adopt ht hadopt =>
    obtain ⟨-, rfl, rfl⟩ := env_queryNodes_ok ha
    exact hd.adopt ht hadopt
  | rootCreated | create | route | createReplayed | routeReplayed | parent => cases hrows
  | put => cases hckpt
  | started | rootReplayed | committed => exact fun _ => h
  | buildReplay => exact h (by simp)
  | completed hc => exact h (by rintro rfl; cases hc)
  | truncated => exact h
  | began => exact h
  | _ => exact h

/-! ### Calls that write rows -/

/-- The depth of a row is the depth of the node it is the row of. -/
theorem depth_of_parent {image : NodeImage F} (hholds : s.Holds (t.images.take n))
    (himage : t.images[n]? = some image) (hparent : image.parent = some parent)
    (hreq : req.parentNodeId = some parent) (hdepth : s.depthOfNew req = .ok depth) :
    depth = image.depth := by
  obtain ⟨row, hrow, rfl⟩ := Store.depthOfNew_child hreq hdepth
  rw [Tree.getElem?_images, Option.map_eq_some_iff] at himage
  obtain ⟨record, hrecord, rfl⟩ := himage
  have hpos : 0 < n := by
    rcases Nat.eq_zero_or_pos n with rfl | hpos
    · rw [show record.image.parent = record.parent from rfl,
        (t.wf.root record hrecord).1] at hparent
      cases hparent
    · exact hpos
  obtain ⟨p, rp, hp, hlt, hrp, hd⟩ := t.wf.parent n record hrecord hpos
  obtain rfl : p = parent := Option.some.inj (hp.symm.trans hparent)
  have hrowImage : row.image = rp.image := by
    have := hholds.image p
    rw [hrow, List.getElem?_take_of_lt hlt, Tree.getElem?_images, Core.Tree.get, hrp] at this
    exact Option.some.inj this
  rw [show record.image.depth = record.depth from rfl, hd,
    show row.depth = rp.depth from congrArg NodeImage.depth hrowImage]

/-- The row of the next node of the tree. -/
theorem Holds.createChild (hholds : s.Holds (t.images.take id))
    (himage : t.images[id]? = some (it.image parent depth)) (hstatus : StatusesOf s t skip)
    (hst : t.statusOf id = some status)
    (hc : s.createNode (childRequest exp bringup id parent it status) = .ok s') :
    s'.Holds (t.images.take (id + 1)) ∧ StatusesOf s' t skip := by
  have hlen : (t.images.take id).length = id :=
    List.length_take_of_le (Nat.le_of_lt (List.getElem?_eq_some_iff.mp himage).1)
  obtain ⟨d, hdepth, hrows, hholds'⟩ := hholds.create hlen.symm hc
  obtain rfl := depth_of_parent hholds himage rfl rfl hdepth
  refine ⟨?_, fun i row hrow => ?_⟩
  · rw [List.take_add_one, himage]
    exact hholds'
  · rw [hrows, getElem?_insert_if] at hrow
    split at hrow
    · rename_i hi
      cases hrow
      exact .inl (hi ▸ hst)
    · exact hstatus i row hrow

theorem Storing.create {commit : ChildCommit} (h : Storing s t parent ((it, commit) :: rest))
    (hid : commit.nodeId = some id) (hr : t.get id = some record)
    (hc : s.createNode (childRequest exp bringup id parent it record.status) = .ok s') :
    Storing s' t parent rest := by
  obtain ⟨n, hholds, hpending, hstatus⟩ := h
  simp only [Pending, hid] at hpending
  obtain ⟨rfl, ⟨depth, himage⟩, hpending⟩ := hpending
  have hst : t.statusOf id = some record.status := by rw [Tree.statusOf, hr]; rfl
  obtain ⟨hholds', hstatus'⟩ := Holds.createChild hholds himage hstatus hst hc
  exact ⟨id + 1, hholds', hpending, hstatus'⟩

/-- The row of the next child is never there yet. -/
theorem Storing.absent {commit : ChildCommit} (h : Storing s t parent ((it, commit) :: rest))
    (hid : commit.nodeId = some id) : s.rows[id]? = none := by
  obtain ⟨n, hholds, hpending, -⟩ := h
  simp only [Pending, hid] at hpending
  obtain ⟨rfl, -, -⟩ := hpending
  exact hholds.getElem?_eq_none (List.length_take_le _ _)

theorem Acting.create (h : Acting s t parent it (some (id, status)))
    (hc : s.createNode (childRequest exp bringup id parent it status) = .ok s') : Synced s' t := by
  obtain ⟨hholds, hlen, ⟨depth, himage⟩, hst, hstatus⟩ := h
  obtain ⟨hholds', hstatus'⟩ := Holds.createChild hholds himage hstatus hst hc
  rw [← hlen, ← t.length_images, List.take_length] at hholds'
  exact ⟨hholds', hstatus'⟩

theorem StatusesOf.route {existing : NodeId} (h : StatusesOf s t skip)
    (hu : s.updateNode (routeUpdate existing) = .ok s') : StatusesOf s' t skip := by
  obtain ⟨old, hold, rfl⟩ := Store.updateNode_ok hu
  intro id row hrow
  rw [getElem?_insert_if] at hrow
  split at hrow
  · rename_i hid
    subst hid
    cases hrow
    exact h _ old hold
  · exact h id row hrow

/-- The update of the parent's row brings its status up to date. -/
theorem synced_parent (h : s.Holds t.images ∧ StatusesOf s t (· = parent))
    (hr : t.get parent = some record)
    (hu : s.updateNode (parentUpdate parent record.status) = .ok s') : Synced s' t := by
  refine ⟨h.1.update hu, ?_⟩
  obtain ⟨old, hold, rfl⟩ := Store.updateNode_ok hu
  intro id row hrow
  rw [getElem?_insert_if] at hrow
  split at hrow
  · rename_i hid
    cases hrow
    rw [show id = parent from hid, Tree.statusOf, hr]
    exact .inl rfl
  · rename_i hid
    rcases h.2 id row hrow with hold | ⟨hskip, -⟩
    · exact .inl hold
    · exact absurd hskip hid

/-! ### The invariant -/

theorem Durable.of_rows (h : Durable exp s) (hrows : s'.rows = s.rows)
    (hckpt : s'.checkpoint = s.checkpoint) : Durable exp s' := by
  obtain ⟨images, T, hholds, hpre⟩ := h.tree
  refine ⟨⟨images, T, hholds.of_rows hrows, hpre⟩, ?_, ?_⟩
  · rw [hrows, hckpt]
    exact h.root
  · rw [hrows, hckpt]
    exact h.fresh

/-- Rows added while a checkpoint exists. -/
theorem Durable.extend (h : Durable exp s) (hext : s.Extends s')
    (hsome : s.checkpoint.isSome = true) (hckpt : s'.checkpoint = s.checkpoint)
    (hholds : s'.Holds images) (hpre : images <+: T.images) : Durable exp s' := by
  refine ⟨⟨images, T, hholds, hpre⟩, fun _ => ?_, fun hnone => ?_⟩
  · obtain ⟨row, hrow⟩ := Option.isSome_iff_exists.mp (h.root hsome)
    obtain ⟨row', hrow', -⟩ := hext _ row hrow
    rw [hrow']
    rfl
  · rw [hckpt] at hnone
    rw [hnone] at hsome
    cases hsome

theorem Durable.update {u : NodeUpdate} (h : Durable exp s) (hsome : s.checkpoint.isSome = true)
    (hu : s.updateNode u = .ok s') : Durable exp s' := by
  obtain ⟨images, T, hholds, hpre⟩ := h.tree
  refine h.extend (Store.extends_updateNode hu) hsome ?_ (hholds.update hu) hpre
  obtain ⟨_, -, rfl⟩ := Store.updateNode_ok hu
  rfl

theorem createNode_checkpoint (h : s.createNode req = .ok s') : s'.checkpoint = s.checkpoint := by
  rcases Store.createNode_ok h with ⟨-, -, -, rfl⟩ | ⟨-, -, -, rfl⟩
  · rfl
  · rfl

/-- The root's row: a bootstrap finds none, or its own. -/
theorem Durable.createRoot {result : ScoreResult F} (h : Durable exp s)
    (hnone : s.checkpoint = none) (himage : (rootPayload root result).image none 0 = rootImage exp)
    (hc : s.createNode (rootRequest exp bringup root result) = .ok s') :
    Durable exp s' ∧ Synced s' (Tree.fromRoot (rootPayload root result)) := by
  have hckpt := createNode_checkpoint hc
  have himages : (Tree.fromRoot (rootPayload root result)).images = [rootImage exp] := by
    rw [← himage]
    rfl
  -- the rows are the root's alone, with the image every bootstrap gives it
  suffices hrow : s'.Holds [rootImage exp] ∧ ∀ (id : NodeId) (row : Row F),
      s'.rows[id]? = some row → id = NodeId.root ∧ row.image = rootImage exp ∧
        row.status = .frontier by
    have hpre : [rootImage exp] <+: (Tree.fromRoot (rootPayload root result)).images :=
      himages.symm ▸ List.prefix_rfl
    refine ⟨⟨⟨_, _, hrow.1, hpre⟩, fun hsome => ?_, fun _ => hrow.2⟩, himages ▸ hrow.1,
      fun id row hr => .inl ?_⟩
    · rw [hckpt, hnone] at hsome
      cases hsome
    · obtain ⟨rfl, -, hst⟩ := hrow.2 id row hr
      rw [hst]
      rfl
  have hfresh := h.fresh hnone
  rcases Store.createNode_ok hc with ⟨row, hrow, -, rfl⟩ | ⟨hempty, depth, hdepth, rfl⟩
  · obtain ⟨images, T, hholds, -⟩ := h.tree
    refine ⟨⟨fun id => ?_, hholds.nodeId⟩, hfresh⟩
    cases hid : s'.rows[id]? with
    | some row' =>
      obtain ⟨rfl, hi, -⟩ := hfresh id row' hid
      rw [Option.map_some, hi]
      rfl
    | none =>
      have : id ≠ 0 := by
        rintro rfl
        rw [show s'.rows[0]? = some row from hrow] at hid
        cases hid
      rw [List.getElem?_eq_none (by simp; lia)]
      rfl
  · cases hdepth
    have hrows : ∀ id : NodeId, s.rows[id]? = none := by
      intro id
      cases hid : s.rows[id]? with
      | none => rfl
      | some row =>
        obtain ⟨rfl, -⟩ := hfresh id row hid
        rw [show s.rows[NodeId.root]? = none from hempty] at hid
        cases hid
    have hnew : ∀ (id : NodeId) (row : Row F),
        (s.rows.insert NodeId.root (Store.newRow (rootRequest exp bringup root result) 0))[id]? =
          some row → id = NodeId.root ∧
            row = Store.newRow (rootRequest exp bringup root result) 0 := by
      intro id row hr
      rw [getElem?_insert_if] at hr
      split at hr
      · rename_i hid
        exact ⟨hid, (Option.some.inj hr).symm⟩
      · rw [hrows id] at hr
        cases hr
    refine ⟨⟨fun id => ?_, fun id row hr => ?_⟩, fun id row hr => ?_⟩
    · change Option.map Row.image (s.rows.insert NodeId.root _)[id]? = _
      rw [getElem?_insert_if]
      split
      · rename_i hid
        rw [hid, ← himage]
        rfl
      · rename_i hid
        rw [hrows id, List.getElem?_eq_none]
        · rfl
        · exact Nat.pos_of_ne_zero hid
    · obtain ⟨rfl, rfl⟩ := hnew id row hr
      rfl
    · obtain ⟨rfl, rfl⟩ := hnew id row hr
      exact ⟨rfl, himage, rfl⟩

theorem Storing.durable (h : Storing s' t parent rest) (hd : Durable exp s) (hext : s.Extends s')
    (hsome : s.checkpoint.isSome = true) (hckpt : s'.checkpoint = s.checkpoint) :
    Durable exp s' := by
  obtain ⟨n, hholds, -, -⟩ := h
  exact hd.extend hext hsome hckpt hholds (List.take_prefix _ _)

/-- The effect of a call leaves the store durable. -/
theorem Issues.durable {w₁ : World F} (hi : Issues exp p r op) (happ : Applied op w w₁)
    (ho : p.Opened w.store.checkpoint.isSome) (hd : Durable exp w.store)
    (h : Assert exp r w.store p) : Durable exp w₁.store := by
  cases hi with
  | createRoot bringup =>
    cases happ with
    | createNode hc =>
      have hnone : w.store.checkpoint = none := by simpa [Point.Opened] using ho
      exact (hd.createRoot hnone h.2.1 hc).1
  | @create c d _ _ _ _ _ _ id record bringup hid hr =>
    cases happ with
    | createNode hc =>
      exact (Storing.create h hid hr hc).durable hd (Store.extends_createNode hc) ho.2
        (createNode_checkpoint hc)
  | createReplayed bringup hact =>
    cases happ with
    | createNode hc =>
      simp only [Assert, hact] at h
      have hs := Acting.create h hc
      exact hd.extend (Store.extends_createNode hc) ho (createNode_checkpoint hc) hs.holds
        List.prefix_rfl
  | route hid hroute =>
    cases happ with
    | updateNode hu => exact hd.update ho.2 hu
  | parent hr =>
    cases happ with
    | updateNode hu => exact hd.update ho.2 hu
  | routeReplayed hact =>
    cases happ with
    | updateNode hu => exact hd.update ho hu
  | @put c archive value hv =>
    cases happ with
    | putCheckpoint hput =>
      obtain ⟨-, -, rfl⟩ := Store.putCheckpoint_ok hput
      obtain ⟨images, T, hholds, hpre⟩ := hd.tree
      refine ⟨⟨images, T, hholds.of_rows rfl, hpre⟩, fun _ => ?_, fun hnone => by cases hnone⟩
      change w.store.rows[NodeId.root]?.isSome = true
      by_cases hc : c = .booted
      · have hs := (h (by rw [hc]; simp)).holds
        exact (Std.ExtTreeMap.mem_iff_isSome_getElem?).mp
          ((hs.mem_iff _).mpr (by rw [Tree.length_images]; exact Tree.len_pos _))
      · exact hd.root (by simpa [Point.Opened, hc] using ho)
  | truncate =>
    cases happ with
    | deleteWal hdel =>
      obtain rfl := Store.deleteWal_ok hdel
      exact hd.of_rows rfl rfl
  | propose => cases happ
  | _ =>
    cases happ
    exact hd.of_rows rfl rfl

theorem Next.asserted (hn : Next exp p r op a p' r') (ha : env exp op w a w')
    (ho : p.Opened w.store.checkpoint.isSome) (hd : Durable exp w.store)
    (h : Assert exp r w.store p) : Assert exp r' w'.store p' := by
  by_cases hop : op.writesRows = false ∧ op.writesCheckpoint = false
  · exact hn.asserted_frame ha hop.1 hop.2 hd h
  · cases hn with
    | quiet hq => cases op <;> simp_all [Op.quiet, Op.writesRows, Op.writesCheckpoint]
    | failed _ => exact assert_onError p r w'.store
    | rootCreated bringup =>
      obtain ⟨store, hc, rfl⟩ := env_createNode_ok ha
      have hnone : w.store.checkpoint = none := by simpa [Point.Opened] using ho
      have hs := (hd.createRoot hnone h.2.1 hc).2
      change Synced store r.commitState.tree
      rw [h.2.2]
      exact hs
    | create bringup hid hr hans =>
      rcases hans with rfl | ⟨e, rfl, hk⟩
      · obtain ⟨store, hc, rfl⟩ := env_createNode_ok ha
        exact Storing.create h hid hr hc
      · obtain ⟨row, hrow⟩ :=
          Store.createNode_alreadyExists (env_createNode_alreadyExists hk ha) hk
        have habsent : some row = none := hrow.symm.trans (Storing.absent h hid)
        cases habsent
    | createReplayed bringup hact hans =>
      simp only [Assert, hact] at h
      rcases hans with rfl | ⟨e, rfl, hk⟩
      · obtain ⟨store, hc, rfl⟩ := env_createNode_ok ha
        exact Acting.create h hc
      · obtain ⟨row, hrow⟩ :=
          Store.createNode_alreadyExists (env_createNode_alreadyExists hk ha) hk
        have habsent : some row = none :=
          hrow.symm.trans (h.1.getElem?_eq_none (List.length_take_le _ _))
        cases habsent
    | route hid hroute =>
      obtain ⟨store, hu, rfl⟩ := env_updateNode_ok ha
      obtain ⟨n, hholds, hpending, hstatus⟩ := h
      simp only [Pending, hid] at hpending
      exact ⟨n, hholds.update hu, hpending, hstatus.route hu⟩
    | @routeReplayed d it rest states goal action r existing hact =>
      obtain ⟨store, hu, rfl⟩ := env_updateNode_ok ha
      have hnone : action.created = none := by
        cases action <;> simp_all [ReplayAction.visited, ReplayAction.created]
      simp only [Assert, hnone] at h
      exact ⟨h.holds.update hu, h.status.route hu⟩
    | parent hr =>
      obtain ⟨store, hu, rfl⟩ := env_updateNode_ok ha
      exact synced_parent h hr hu
    | put hv =>
      obtain ⟨store, hput, rfl⟩ := env_putCheckpoint_ok ha
      obtain ⟨-, -, rfl⟩ := Store.putCheckpoint_ok hput
      exact fun hne => ⟨(h hne).holds.of_rows rfl, (h hne).status⟩
    | _ => exact absurd ⟨rfl, rfl⟩ hop

/-- A call that writes rows or the checkpoint is one whose failure is accounted for. -/
theorem Next.issues (hn : Next exp p r op a p' r') :
    Issues exp p r op ∨ op.writesRows = false ∧ op.writesCheckpoint = false := by
  cases hn with
  | quiet hq => cases op <;> simp_all [Op.quiet, Op.writesRows, Op.writesCheckpoint]
  | failed hi => exact .inl hi
  | rootCreated bringup => exact .inl (.createRoot bringup)
  | create bringup hid hr _ => exact .inl (.create bringup hid hr)
  | route hid hroute => exact .inl (.route hid hroute)
  | createReplayed bringup hact _ => exact .inl (.createReplayed bringup hact)
  | routeReplayed hact => exact .inl (.routeReplayed hact)
  | parent hr => exact .inl (.parent hr)
  | put hv => exact .inl (.put hv)
  | _ => exact .inr ⟨rfl, rfl⟩

theorem Next.durable (hn : Next exp p r op a p' r') (ha : env exp op w a w')
    (ho : p.Opened w.store.checkpoint.isSome) (hd : Durable exp w.store)
    (h : Assert exp r w.store p) : Durable exp w'.store := by
  rcases hn.issues with hi | ⟨hrows, hckpt⟩
  · exact env_induct (P := fun x => Durable exp x.store) ha hd
      (fun w₁ happ => hi.durable happ ho hd h) fun _ _ hd => hd
  · exact hd.of_rows (env_rows ha hrows) (env_checkpoint ha hckpt)

theorem durable_empty : Durable exp (World.empty : World F).store := by
  have hnone : ∀ id : NodeId, (World.empty : World F).store.rows[id]? = none := fun id =>
    Std.ExtTreeMap.getElem?_empty
  refine ⟨⟨[], (Runner.initial exp).commitState.tree, ⟨fun id => ?_, fun id row hrow => ?_⟩,
    List.nil_prefix⟩, fun h => (by cases h), fun _ id row hrow => ?_⟩
  · rw [hnone]
    rfl
  · rw [hnone] at hrow
    cases hrow
  · rw [hnone] at hrow
    cases hrow

/-- **The store refines the tree**, at every point of every run. -/
theorem Reach.refines (h : Reaches exp p r w) : Durable exp w.store ∧ Assert exp r w.store p := by
  induction h with
  | init hw =>
    subst hw
    exact ⟨durable_empty, trivial⟩
  | restart _ _ ih => exact ⟨ih.1, trivial⟩
  | loc _ hl ih => exact ⟨ih.1, hl.asserted ih.2⟩
  | call h hn ha ih =>
    exact ⟨hn.durable ha h.opened ih.1 ih.2, hn.asserted ha h.opened ih.1 ih.2⟩

/-! ### Whole runs -/

/-- The store holds exactly the nodes of a tree. -/
structure StoreRefines (s : Store F) (t : Tree F) : Prop where
  nodes : ∀ id : NodeId, id ∈ s.rows ↔ id < t.len
  node : ∀ (id : NodeId) (row : Row F) (record : NodeRecord F), s.rows[id]? = some row →
    t.get id = some record → row.parentNodeId = record.parent ∧
      row.attrs.stateHash = record.payload.stateHash ∧ row.attrs.cellKey = record.payload.cell ∧
      row.progressScore = record.payload.score ∧ row.snapshotRef = record.payload.snapshot ∧
      row.status = record.status

/-- The node ids of a store are the numbers below `n`, parents first, and the rebuild of a
resume gives every row its own id. -/
structure StoreDense (s : Store F) (n : Nat) : Prop where
  ids : ∀ id : NodeId, id ∈ s.rows ↔ id < n
  parent : ∀ (id : NodeId) (row : Row F), s.rows[id]? = some row → 0 < id →
    ∃ p, row.parentNodeId = some p ∧ p < id
  rebuild : 0 < n → ∃ t : Tree F, rebuildTree s.queryNodes = .ok t ∧ t.len = n ∧
    ∀ (id : NodeId) (row : Row F), s.rows[id]? = some row → row.nodeId = id ∧
      ∃ record, t.get id = some record ∧ record.parent = row.parentNodeId

/-- The runner at a moment between two batches: after a start, before a selection, after a
commit. -/
def Event.boundary : Event F → Option (Runner F)
  | .started r | .selecting r | .committed _ _ r => some r
  | _ => none

theorem Synced.refines (h : Synced s t) : StoreRefines s t := by
  refine ⟨fun id => ?_, fun id row record hrow hrecord => ?_⟩
  · rw [h.holds.mem_iff, t.length_images]
  · have himage := h.holds.image id
    rw [hrow, Tree.getElem?_images, hrecord] at himage
    have himage : row.image = record.image := Option.some.inj himage
    have hstatus := (h.status id row hrow).resolve_right fun hskip => hskip.1
    rw [Tree.statusOf, hrecord] at hstatus
    exact ⟨congrArg NodeImage.parent himage, congrArg NodeImage.stateHash himage,
      congrArg NodeImage.cell himage, congrArg NodeImage.score himage,
      congrArg NodeImage.snapshot himage, (Option.some.inj hstatus).symm⟩

theorem Durable.dense (h : Durable exp s) : ∃ n, StoreDense s n := by
  obtain ⟨images, T, hholds, hpre⟩ := h.tree
  have himage : ∀ {id : NodeId} {row : Row F}, s.rows[id]? = some row →
      T.images[id]? = some row.image := by
    intro id row hrow
    rw [← Nat.zero_add id]
    exact (rowsOf_queryNodes hholds hpre).image id row ((hholds.getElem?_queryNodes id).trans hrow)
  refine ⟨images.length, hholds.mem_iff, fun id row hrow hid => ?_, fun hpos => ?_⟩
  · have hT := himage hrow
    rw [Tree.getElem?_images, Option.map_eq_some_iff] at hT
    obtain ⟨record, hrecord, hr⟩ := hT
    obtain ⟨p, _, hp, hlt, -, -⟩ := T.wf.parent id record hrecord hid
    exact ⟨p, (congrArg NodeImage.parent hr).symm.trans hp, hlt⟩
  · obtain ⟨t, ht, himages, -⟩ := rebuild_queryNodes hholds hpre (List.length_pos_iff.mp hpos)
    refine ⟨t, ht, by rw [← t.length_images, himages], fun id row hrow => ?_⟩
    refine ⟨hholds.nodeId id row hrow, ?_⟩
    have htimage := hholds.image id
    rw [hrow, ← himages, Tree.getElem?_images] at htimage
    obtain ⟨record, hrecord, hr⟩ := Option.map_eq_some_iff.mp htimage.symm
    exact ⟨record, hrecord, congrArg NodeImage.parent hr⟩

theorem env_extends (he : env exp op w a w') : w.store.Extends w'.store := by
  by_cases hop : op.writesRows = false
  · exact .of_rows (env_rows he hop)
  · refine env_induct (P := fun x => w.store.Extends x.store) he (.refl _) (fun w₁ happ => ?_)
      fun _ _ h => h
    cases happ with
    | createNode hc => exact Store.extends_createNode hc
    | updateNode hu => exact Store.extends_updateNode hu
    | _ => exact absurd rfl hop

/-- Rows outlive every process: a run only ever adds nodes. -/
theorem steps_extends {s s' : Solo (Op F) (Ans F) (World F)}
    (h : Solo.Steps (env exp) (boot exp) s s') : s.world.store.Extends s'.world.store := by
  induction h with
  | refl => exact .refl _
  | more _ hstep ih =>
    cases hstep with
    | boot w n => exact ih
    | call ha => exact ih.trans (env_extends ha)
    | stop w p => exact ih

theorem Reach.boundary {r₀ : Runner F} (h : Reaches exp p r w) {e : Entry F} (he : e ∈ w.log)
    (hb : e.event.boundary = some r₀) : Synced e.store r₀.commitState.tree := by
  have hn : e.event.noted = true := by
    cases hev : e.event <;> simp_all [Event.boundary, Event.noted, Event.runner]
  obtain ⟨i, hi⟩ := List.mem_iff_getElem?.mp he
  obtain ⟨p₀, r', w₀, p₁, r₁, h₀, hnext, hstore, -, -⟩ := h.entry_noted hi hn
  have hassert := h₀.refines.2
  rw [← hstore] at hassert
  generalize hev : e.event = ev at hnext hb
  cases hnext with
  | quiet hq => cases hq
  | failed hi => cases hi
  | started =>
    cases hb
    exact hassert
  | select | committed =>
    cases hb
    exact hassert
  | scored | aborted | began => cases hb

/-- **The store refines the tree.** In every run, with any kills, resumes and failing calls:
at every instant the node ids are the numbers below some `n`, parents first, and the rebuild
of a resume succeeds with every node under its stored id; between batches the store holds
exactly the nodes of the tree in memory; and a node id is never used for another node. -/
theorem store_refines_tree (exp : Experiment F) {s : Solo (Op F) (Ans F) (World F)}
    (h : Solo.Steps (env exp) (boot exp) ⟨.empty, none⟩ s) :
    (∃ n, StoreDense s.world.store n) ∧
      (∀ e ∈ s.world.log, ∀ r, e.event.boundary = some r →
        StoreRefines e.store r.commitState.tree) ∧
      ∀ s', Solo.Steps (env exp) (boot exp) s s' → s.world.store.Extends s'.world.store := by
  obtain ⟨p, r, hreach⟩ := reaches_of_steps h
  refine ⟨hreach.refines.1.dense, fun e he r₀ hb => ?_, fun s' h' => steps_extends h'⟩
  exact (hreach.boundary he hb).refines

/-- A process killed between the row of a child and the update of its parent, and the next
one, which replays the batch and goes on. -/
def killedInCommit : List (List Choice) := [List.replicate 33 .answer, List.replicate 70 .answer]

theorem store_refines_tree_killedInCommit :
    (evaluate sample killedInCommit).store.rows.size = 4 ∧
      ∃ n, StoreDense (evaluate sample killedInCommit).store n :=
  ⟨by decide +kernel, (store_refines_tree sample (steps_evaluate sample killedInCommit)).1⟩

end Orchestrator.Server
