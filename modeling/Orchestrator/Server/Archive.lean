import Orchestrator.Server.References

/-! # Server — What the scorer has been told

The scorer's archive and the runner's seen map are two records of one set of hashes. The
archive is told of a batch in one call at the end of its commit, it is set back to a
checkpoint by a resume, and it is caught up with the rows the checkpoint does not know. At
every point the runner has seen what the archive has and what is still to be reported.

* `Reach.inStep`: the invariant.
* `scorer_agrees_with_runner`: the two records between batches, and the scorer's verdicts.
-/

namespace Orchestrator.Server

open Core Services Lib

variable {F : Type} [Float64 F] {exp : Experiment F}

/-! ### The two records -/

/-- Whether the runner's seen map is that of the experiment, with no commit cut off. -/
def Point.tracked : Point F → Bool
  | .start | .ended | .fresh | .bootstrapped _ | .found _ _ | .resuming _ | .collecting _ _ _ _
  | .loaded _ _ | .torn _ => false
  | _ => true

def hashesOf (states : List CommittedState) : List StateHash := states.map (·.stateHash)

/-- The hashes the runner has seen and the scorer has not been told of. -/
def Point.unreported : Point F → List StateHash
  | .rootReady _ result | .rootStored result => [result.stateHash]
  | .adopted _ _ post | .restored _ _ post => hashesOf post
  | .storing _ _ rest states _ => hashesOf states ++ committedHashes (·.result.stateHash) rest
  | .replaying _ _ states _ | .parentDue _ _ states _ | .updated _ _ states _ => hashesOf states
  | .acting _ it _ states _ action => hashesOf (states ++ action.states it)
  | _ => []

/-- The archive a point is about: a resume is going to restore its checkpoint's. -/
def Point.archive (seen : Std.ExtTreeSet StateHash) : Point F → Std.ExtTreeSet StateHash
  | .adopted cp _ _ => cp.scorerArchiveRef.seenHashes
  | _ => seen

/-- The runner has seen what the archive has and what is to be reported, and all its nodes. -/
structure InStep (s : CommitState F) (archive : Std.ExtTreeSet StateHash)
    (unreported : List StateHash) : Prop where
  knows : s.Knows
  agrees : ∀ hash, s.seen.contains hash = true ↔ hash ∈ archive ∨ hash ∈ unreported

/-- How the scorer's verdict on an item came about. -/
def Verdict (seen : Std.ExtTreeSet StateHash) (result : ScoreResult F) : Prop :=
  if result.error.isSome then result.stateHash = 0 ∧ result.duplicate = false
  else result.duplicate = seen.contains result.stateHash

/-- What a point adds: the root's hash, the verdicts just given, the archive just saved. -/
def Told (exp : Experiment F) (seen : Std.ExtTreeSet StateHash) : Point F → Prop
  | .rootReady _ result | .rootStored result => result.stateHash = (rootImage exp).stateHash
  | .answered _ _ results => ∀ result ∈ results, Verdict seen result
  | .archived _ archive => archive.seenHashes = seen
  | _ => True

/-- The two records at a point. -/
def TrackedAt (exp : Experiment F) (r : Runner F) (seen : Std.ExtTreeSet StateHash)
    (p : Point F) : Prop :=
  p.tracked = true → InStep r.commitState (p.archive seen) p.unreported ∧ Told exp seen p

variable {p p' : Point F} {r r' : Runner F} {w w' : World F} {op : Op F} {a : Ans F op}
  {e : Entry F}

theorem Point.tracked_onError (exp : Experiment F) (h : p.onError.tracked = true) :
    p.tracked = true ∧ p.unreported = [] ∧ p.onError.unreported = [] ∧
      ∀ seen, p.archive seen = seen ∧ p.onError.archive seen = seen ∧ Told exp seen p.onError := by
  cases p with
  | «at» c | completed c _ | began c | archived c _ | truncating c _ _ =>
    cases c <;>
      simp_all [Point.tracked, Point.onError, Rest.onError, Point.unreported, Point.archive, Told]
  | _ => simp_all [Point.tracked, Point.onError, Point.unreported, Point.archive, Told]

variable {seen : Std.ExtTreeSet StateHash} {r₀ : Runner F}

theorem TrackedAt.onError (h : TrackedAt exp r seen p) : TrackedAt exp r seen p.onError := by
  intro ht
  obtain ⟨hp, hnone, hnone', harchive⟩ := Point.tracked_onError exp ht
  obtain ⟨hin, -⟩ := h hp
  rw [hnone, (harchive seen).1] at hin
  rw [hnone', (harchive seen).2.1]
  exact ⟨hin, (harchive seen).2.2⟩

theorem InStep.of_mem {s : CommitState F} {archive archive' : Std.ExtTreeSet StateHash}
    {unreported unreported' : List StateHash} (h : InStep s archive unreported)
    (hmem : ∀ hash, hash ∈ archive' ∨ hash ∈ unreported' ↔ hash ∈ archive ∨ hash ∈ unreported) :
    InStep s archive' unreported' :=
  ⟨h.knows, fun hash => (h.agrees hash).trans (hmem hash).symm⟩

theorem mem_hashesOf {states : List CommittedState} {hash : StateHash} :
    hash ∈ hashesOf states ↔ ∃ c ∈ states, hash = c.stateHash := by
  simp [hashesOf, eq_comm]

theorem committedHashes_scoredChildren (mirror : CellMirror) (siblings : List StateHash)
    (its : List (Item F)) (commits : List ChildCommit) :
    committedHashes (·.payload.stateHash) ((scoredChildren mirror siblings its).zip commits) =
      committedHashes (·.result.stateHash) (its.zip commits) := by
  induction its generalizing siblings commits with
  | nil => rfl
  | cons it rest ih =>
    cases commits with
    | nil => rfl
    | cons commit commits =>
      have ih := ih (it.result.stateHash :: siblings) commits
      simp only [committedHashes] at ih
      simp only [committedHashes, scoredChildren, List.zip_cons_cons, List.filterMap_cons, ih]
      rfl

theorem Local.trackedAt (hl : Local exp p r p' r') (h : TrackedAt exp r seen p) :
    TrackedAt exp r' seen p' := by
  cases hl with
  | touch hsame =>
    intro ht
    rw [hsame.commitState]
    exact h ht
  | fail => exact h.onError
  | adoptGeneration | collect | loaded | commitFailed | replayChildFailed
  | replayParentFailed => exact fun ht => (by cases ht)
  | @truncated c covered => cases c <;> exact fun _ => h rfl
  | nothingToScore => exact fun _ => ⟨(h rfl).1, fun result hm => (by cases hm)⟩
  | @commit c d results r outcome s hc =>
    obtain ⟨hin, -⟩ := h rfl
    refine fun _ => ⟨⟨commitBatch_knows hc hin.knows, fun hash => ?_⟩, trivial⟩
    rw [commitBatch_contains_seen hc hash, committedHashes_scoredChildren, hin.agrees hash]
    simp [Point.archive, Point.unreported, hashesOf]
  | unrouted hid hroute =>
    refine fun _ => ⟨(h rfl).1.of_mem fun hash => ?_, trivial⟩
    simp [Point.archive, Point.unreported, committedHashes, hid]
  | stored =>
    refine fun _ => ⟨(h rfl).1.of_mem fun hash => ?_, trivial⟩
    simp [Point.archive, Point.unreported, committedHashes]
  | @adoptChild d it rest states goal r id record ha =>
    obtain ⟨hin, -⟩ := h rfl
    obtain ⟨hget, hhash⟩ := adoptable_record ha
    -- a node of the tree is known, so reporting its hash once more adds nothing
    have hknown : r.commitState.seen.contains it.result.stateHash = true := by
      rw [← hhash]
      refine hin.knows record.image (List.mem_iff_getElem?.mpr ⟨id, ?_⟩)
      rw [Tree.getElem?_images, hget]
      rfl
    refine fun _ => ⟨⟨hin.knows, fun hash => ?_⟩, trivial⟩
    have hagrees := hin.agrees hash
    simp only [Point.archive, Point.unreported, hashesOf, List.map_append, List.mem_append,
      List.map_singleton, List.mem_singleton] at hagrees ⊢
    rw [← or_assoc, ← hagrees]
    constructor
    · exact .inl
    · rintro (hh | rfl)
      · exact hh
      · exact hknown
  | @replayChild d it rest states goal r score action s hc =>
    obtain ⟨hin, -⟩ := h rfl
    have hstep := replayChild_ok hc
    refine fun _ => ⟨⟨hstep.knows hin.knows, fun hash => ?_⟩, trivial⟩
    rw [hstep.contains_seen hash, hin.agrees hash]
    simp only [Point.archive, Point.unreported, hashesOf, List.map_append, List.mem_append,
      ReplayAction.states]
    split <;> simp_all [or_assoc]
  | acted hc hv =>
    refine fun _ => ⟨(h rfl).1.of_mem fun hash => ?_, trivial⟩
    simp [Point.archive, Point.unreported, ReplayAction.states, hc]
  | @replayParent d states goal r allDuplicate evicted s hc =>
    obtain ⟨hin, -⟩ := h rfl
    refine fun _ => ⟨⟨fun image himage => ?_, fun hash => ?_⟩, trivial⟩
    · rw [replayParent_seen hc]
      exact hin.knows image ((replayParent_grows hc).1 ▸ himage)
    · rw [replayParent_seen hc]
      exact hin.agrees hash
  | settle =>
    intro _
    rw [addGoal_commitState]
    exact h rfl
  | rebin => exact fun _ => ⟨⟨(h rfl).1.knows, (h rfl).1.agrees⟩, trivial⟩
  | _ => exact fun _ => h rfl

/-! ### What the store and the scorer have -/

/-- The archive a checkpoint refers to has the checkpoint's hashes, the root's among them. -/
structure FiledIn (s : Store F) (cp : Checkpoint F) : Prop where
  same : ∀ hash, hash ∈ cp.scorerArchiveRef.seenHashes ↔ cp.seen.any (·.1 = hash) = true
  root : ∀ row, s.rows[NodeId.root]? = some row →
    cp.seen.any (·.1 = row.attrs.stateHash) = true

/-- The checkpoint is filed, and before the first one the scorer has been told of the root at
most. -/
structure Filed (exp : Experiment F) (w : World F) : Prop where
  checkpoint : ∀ cp g, w.store.checkpoint = some (cp, g) → FiledIn w.store cp
  fresh : w.store.checkpoint = none → ∀ hash ∈ w.scorer.archive.seenHashes,
    hash = (rootImage exp).stateHash

/-- The memory a resume makes of a filed checkpoint. -/
theorem inStep_adoption {cp : Checkpoint F} {tree : Tree F} {a : Adoption F}
    (h : FiledIn w.store cp) (hs : Synced w.store a.tree)
    (ha : adoptRows cp w.store.queryNodes (adoptionStart cp tree r) = some a) :
    InStep (installAdoption cp a r).commitState cp.scorerArchiveRef.seenHashes
      (hashesOf a.postCheckpoint) := by
  have hrow : ∀ {id : NodeId} {row : Row F}, w.store.queryNodes[id]? = some row →
      w.store.rows[id]? = some row := by
    intro id row hrow
    rwa [hs.holds.getElem?_queryNodes] at hrow
  obtain ⟨hreports, -, hrows⟩ := adoptRows_reports ha (adoptionStart_reports cp tree r)
    (fun row hm hid => by
      obtain ⟨i, hi⟩ := List.mem_iff_getElem?.mp hm
      have hi := hrow hi
      rw [← hs.holds.nodeId i row hi, hid] at hi
      exact h.root row hi)
  refine ⟨fun image himage => ?_, fun hash => ?_⟩
  · obtain ⟨id, hid⟩ := List.mem_iff_getElem?.mp himage
    have hid : a.tree.images[id]? = some image := hid
    rw [← hs.holds.image id, Option.map_eq_some_iff] at hid
    obtain ⟨row, hget, rfl⟩ := hid
    exact hrows row (List.mem_iff_getElem?.mpr ⟨id, (hs.holds.getElem?_queryNodes id).trans hget⟩)
  · rw [h.same, mem_hashesOf]
    exact hreports hash

theorem inStep_fromRoot {root : Capture} {result : ScoreResult F} (h : Filed exp w)
    (hnone : w.store.checkpoint = none) (hroot : result.stateHash = (rootImage exp).stateHash) :
    InStep (.fromRoot (rootPayload root result)) w.scorer.archive.seenHashes
      [result.stateHash] := by
  have hseen : ∀ hash, (CommitState.fromRoot (rootPayload root result)).seen.contains hash = true ↔
      hash = result.stateHash := by
    intro hash
    rw [show (CommitState.fromRoot (rootPayload root result)).seen =
      SeenMap.new.insert result.stateHash NodeId.root from rfl, SeenMap.contains_insert]
    simp [SeenMap.contains]
  refine ⟨fun image himage => ?_, fun hash => ?_⟩
  · obtain rfl : image = (rootPayload root result).image none 0 := List.mem_singleton.mp himage
    exact (hseen _).mpr rfl
  · rw [hseen, List.mem_singleton]
    constructor
    · exact .inr
    · rintro (hh | hh)
      · exact (h.fresh hnone hash hh).trans hroot.symm
      · exact hh

theorem verdict_scoreStateInput (s : Scorer) (score : Except ItemErrorKind (StateScore F)) :
    Verdict s.archive.seenHashes (s.scoreStateInput score) := by
  cases score with
  | error e => exact ⟨rfl, rfl⟩
  | ok score => rfl

/-- A call that tells the scorer nothing. -/
theorem Next.trackedAt_frame (hn : Next exp p r op a p' r') (he : env exp op w a w')
    (hreach : Reaches exp p r w) (hop : op.writesArchive = false)
    (hgood : ∀ seq r, op ≠ .record (.aborted seq r)) (hf : Filed exp w)
    (h : TrackedAt exp r w.scorer.archive.seenHashes p) :
    TrackedAt exp r' w'.scorer.archive.seenHashes p' := by
  have hassert := hreach.refines.2
  rw [env_seen he hop]
  cases hn with
  | quiet _ => exact h
  | failed _ => exact h.onError
  | noCheckpoint | foundCheckpoint | bootstrap | stale | collected | missed =>
    exact fun ht => (by cases ht)
  | @rootScored r root bytes seq result others hb =>
    have hnone : w.store.checkpoint = none := by simpa [Point.Opened] using hreach.opened
    obtain ⟨hresults, -⟩ := env_scoreBatch_ok he
    have hresult : result = w.scorer.scoreStateInput (exp.scoreState bytes) :=
      (List.cons.inj hresults).1
    have hroot : result.stateHash = (rootImage exp).stateHash := by
      rw [hresult]
      exact congrArg NodeImage.stateHash (rootPayload_image w.scorer hassert hb)
    exact fun _ => ⟨inStep_fromRoot hf hnone hroot, hroot⟩
  | adopt ht hadopt =>
    obtain ⟨-, rfl, rfl⟩ := env_queryNodes_ok he
    obtain ⟨⟨cp, g⟩, hcp, rfl⟩ := Option.map_eq_some_iff.mp (hreach.current rfl)
    have hs := hreach.refines.1.adopt ht hadopt
    exact fun _ => ⟨inStep_adoption (hf.checkpoint _ g hcp) hs hadopt, trivial⟩
  | rootReplayed | restored | caughtUp | replayed => cases hop
  | score =>
    obtain ⟨hresults, -⟩ := env_scoreBatch_ok he
    refine fun _ => ⟨(h rfl).1, fun result hm => ?_⟩
    rw [hresults] at hm
    obtain ⟨bytes, -, rfl⟩ := List.mem_map.mp hm
    exact verdict_scoreStateInput _ _
  | @create c d it commit rest states goal r id record a bringup hid hr hans =>
    obtain ⟨n, -, hpending, -⟩ := hassert
    simp only [Pending, hid] at hpending
    obtain ⟨rfl, ⟨depth, himage⟩, -⟩ := hpending
    rw [Tree.getElem?_images, hr] at himage
    have hhash : record.payload.stateHash = it.result.stateHash :=
      congrArg NodeImage.stateHash (Option.some.inj himage)
    refine fun _ => ⟨(h rfl).1.of_mem fun hash => ?_, trivial⟩
    simp [Point.archive, Point.unreported, committedHashes, hashesOf, hid, hhash]
  | route hid hroute =>
    refine fun _ => ⟨(h rfl).1.of_mem fun hash => ?_, trivial⟩
    simp [Point.archive, Point.unreported, committedHashes, hid]
  | @routeReplayed d it rest states goal action r existing hact =>
    have hnone : action.created = none := by
      cases action <;> simp_all [ReplayAction.visited, ReplayAction.created]
    refine fun _ => ⟨(h rfl).1.of_mem fun hash => ?_, trivial⟩
    simp [Point.archive, Point.unreported, ReplayAction.states, hnone]
  | aborted => exact absurd rfl (hgood _ _)
  | archived | archivedAgain =>
    exact fun _ => ⟨(h rfl).1, env_checkpointArchive_ok he⟩
  | rootCreated => exact fun _ => h rfl
  | _ => exact fun _ => ⟨(h rfl).1, trivial⟩

theorem Next.trackedAt (hn : Next exp p r op a p' r') (he : env exp op w a w')
    (hreach : Reaches exp p r w) (hgood : ∀ seq r, op ≠ .record (.aborted seq r)) (hf : Filed exp w)
    (h : TrackedAt exp r w.scorer.archive.seenHashes p) :
    TrackedAt exp r' w'.scorer.archive.seenHashes p' := by
  by_cases hop : op.writesArchive = false
  · exact hn.trackedAt_frame he hreach hop hgood hf h
  · cases hn with
    | quiet hq => cases op <;> simp_all [Op.quiet, Op.writesArchive]
    | failed hi =>
      cases hi with
      | replayRoot | restore | catchUp | replayStates => exact fun ht => (by cases ht)
      | _ => exact absurd rfl hop
    | rootReplayed =>
      refine fun _ => ⟨(h rfl).1.of_mem fun hash => ?_, trivial⟩
      simp [Point.archive, Point.unreported, env_replayCommits_ok he hash]
    | restored =>
      refine fun _ => ⟨(h rfl).1.of_mem fun hash => ?_, trivial⟩
      simp [Point.archive, Point.unreported, env_restoreArchive_ok he]
    | caughtUp | replayed =>
      refine fun _ => ⟨(h rfl).1.of_mem fun hash => ?_, trivial⟩
      simp [Point.archive, Point.unreported, env_replayCommits_ok he hash, mem_hashesOf]
    | _ => exact absurd rfl hop

/-- Before the first checkpoint only the root is ever reported. -/
theorem Next.fresh (hn : Next exp p r op a p' r') (he : env exp op w a w')
    (hreach : Reaches exp p r w) (hnone : w.store.checkpoint = none)
    (h : TrackedAt exp r w.scorer.archive.seenHashes p)
    (hfresh : ∀ hash ∈ w.scorer.archive.seenHashes, hash = (rootImage exp).stateHash) :
    ∀ hash ∈ w'.scorer.archive.seenHashes, hash = (rootImage exp).stateHash := by
  have hopened := hreach.opened
  rw [hnone] at hopened
  by_cases hop : op.writesArchive = false
  · rw [env_seen he hop]
    exact hfresh
  · have hroot : ∀ {result : ScoreResult F}, p = .rootStored result →
        op = .replayCommits [⟨result.stateHash, result.cellKey⟩] →
        ∀ hash ∈ w'.scorer.archive.seenHashes, hash = (rootImage exp).stateHash := by
      rintro result rfl rfl
      refine env_induct (P := fun x => ∀ hash ∈ x.scorer.archive.seenHashes,
        hash = (rootImage exp).stateHash) he hfresh (fun w₁ happ hash hh => ?_) fun _ _ h => h
      cases happ with
      | replayCommits hreplay =>
        rcases (Scorer.mem_replayCommits hreplay hash).mp hh with hh | ⟨c, hc, rfl⟩
        · exact hfresh hash hh
        · rw [List.mem_singleton.mp hc]
          exact (h rfl).2
    cases hn with
    | quiet hq => cases op <;> simp_all [Op.quiet, Op.writesArchive]
    | failed hi =>
      cases hi with
      | replayRoot => exact hroot rfl rfl
      | restore | catchUp | replayStates => simp [Point.Opened] at hopened
      | _ => exact absurd rfl hop
    | rootReplayed => exact hroot rfl rfl
    | restored | caughtUp | replayed => simp [Point.Opened] at hopened
    | _ => exact absurd rfl hop

/-- A checkpoint put between batches is filed. -/
theorem filed_put {c : Rest} {archive : ArchiveSnapshot} {value : Checkpoint F}
    (h : TrackedAt exp r w.scorer.archive.seenHashes (.archived c archive))
    (hholds : w.store.Holds r.commitState.tree.images)
    (hv : buildCheckpoint exp r archive = some value) : FiledIn w.store value := by
  obtain ⟨hin, harchive⟩ := h rfl
  rw [buildCheckpoint, Option.map_eq_some_iff] at hv
  obtain ⟨frontier, -, rfl⟩ := hv
  have hany : ∀ hash, r.commitState.seen.sortedEntries.any (·.1 = hash) = true ↔
      r.commitState.seen.contains hash = true := by
    intro hash
    rw [List.any_eq_true, SeenMap.contains_iff]
    constructor
    · rintro ⟨⟨h', id⟩, hm, hh⟩
      obtain rfl : h' = hash := of_decide_eq_true hh
      exact ⟨id, Std.ExtTreeMap.mem_toList_iff_getElem?_eq_some.mp hm⟩
    · rintro ⟨id, hid⟩
      exact ⟨(hash, id), Std.ExtTreeMap.mem_toList_iff_getElem?_eq_some.mpr hid,
        decide_eq_true rfl⟩
  refine ⟨fun hash => ?_, fun row hrow => ?_⟩
  · rw [show archive.seenHashes = _ from harchive]
    refine Iff.trans ?_ (hany hash).symm
    rw [hin.agrees hash]
    simp [Point.archive, Point.unreported]
  · refine (hany _).mpr (hin.knows row.image (List.mem_iff_getElem?.mpr ⟨NodeId.root, ?_⟩))
    rw [← hholds.image, hrow]
    rfl

theorem Next.filed (hn : Next exp p r op a p' r') (he : env exp op w a w')
    (hreach : Reaches exp p r w) (hreflected : Reflected w.store r.commitState.tree p)
    (h : TrackedAt exp r w.scorer.archive.seenHashes p) (hf : Filed exp w) : Filed exp w' := by
  have hfresh : w'.store.checkpoint = none → ∀ hash ∈ w'.scorer.archive.seenHashes,
      hash = (rootImage exp).stateHash := by
    intro hnone'
    cases hckpt : w.store.checkpoint with
    | some entry =>
      have := env_checkpoint_isSome he (by rw [hckpt]; rfl)
      rw [hnone'] at this
      cases this
    | none => exact hn.fresh he hreach hckpt h (hf.fresh hckpt)
  by_cases hop : op.writesCheckpoint = false
  · have hckpt := env_checkpoint he hop
    refine ⟨fun cp g hcp => ?_, hfresh⟩
    rw [hckpt] at hcp
    refine ⟨(hf.checkpoint cp g hcp).same, fun row' hrow' => ?_⟩
    -- the root's row was there, and is the same node
    obtain ⟨row, hrow⟩ := Option.isSome_iff_exists.mp (hreach.refines.1.root (by rw [hcp]; rfl))
    obtain ⟨later, hlater, hnode⟩ := env_extends he _ row hrow
    obtain rfl : later = row' := Option.some.inj (hlater.symm.trans hrow')
    have hhash : later.node.attrs.stateHash = row.node.attrs.stateHash := by rw [hnode]
    rw [show later.attrs.stateHash = row.attrs.stateHash from hhash]
    exact (hf.checkpoint cp g hcp).root row hrow
  · rcases hn.issues with hi | ⟨-, hnot⟩
    · refine ⟨?_, hfresh⟩
      refine env_induct (P := fun x => ∀ cp g, x.store.checkpoint = some (cp, g) →
        FiledIn x.store cp) he hf.checkpoint (fun w₁ happ => ?_) fun _ _ h => h
      cases hi with
      | put hv =>
        cases happ with
        | putCheckpoint hput =>
          obtain ⟨-, -, rfl⟩ := Store.putCheckpoint_ok hput
          intro cp g hcp
          cases hcp
          have hfiled := filed_put h (hreflected.holds_archived hreach.refines.2) hv
          exact ⟨hfiled.same, hfiled.root⟩
      | _ => exact absurd rfl hop
    · exact absurd hnot hop

/-- Whether a commit ended with an error. -/
def Event.aborts : Event F → Bool
  | .aborted _ _ => true
  | _ => false

theorem Entry.complete_of_not_aborts (h : e.event.aborts = false) : e.complete = true := by
  unfold Entry.complete
  split
  · rename_i hev
    rw [hev] at h
    cases h
  · rfl

/-- **The two records.** In a run in which no commit ended with an error, the runner has seen
at every point what the archive has and what is still to be reported. -/
theorem Reach.inStep (h : Reaches exp p r w) (hgood : ∀ e ∈ w.log, e.event.aborts = false) :
    Filed exp w ∧ TrackedAt exp r w.scorer.archive.seenHashes p := by
  induction h with
  | init hw =>
    subst hw
    refine ⟨⟨fun cp g hcp => (by cases hcp), fun _ hash hh => ?_⟩, fun ht => (by cases ht)⟩
    exact absurd hh Std.ExtTreeSet.not_mem_empty
  | restart _ _ ih => exact ⟨(ih hgood).1, fun ht => (by cases ht)⟩
  | loc _ hl ih => exact ⟨(ih hgood).1, hl.trackedAt (ih hgood).2⟩
  | @call p r w op a w' p' r' h hn he ih =>
    have hgood₀ : ∀ e ∈ w.log, e.event.aborts = false := fun e hmem =>
      hgood e ((env_log he).1.subset hmem)
    obtain ⟨hf, htracked⟩ := ih hgood₀
    have hreflected :=
      (h.references fun e hmem => Entry.complete_of_not_aborts (hgood₀ e hmem)).2.2
    refine ⟨hn.filed he h hreflected htracked hf, hn.trackedAt he h (fun seq r₀ hop => ?_) hf
      htracked⟩
    subst hop
    obtain rfl := env_record he
    cases hgood ⟨.aborted seq r₀, w.store, w.scorer⟩ (List.mem_append_right _ List.mem_cons_self)

/-! ### Whole runs -/

/-- The two records at a moment the runner put on the log. -/
theorem Reach.inStep_entry (h : Reaches exp p r w) (hgood : ∀ e ∈ w.log, e.event.aborts = false)
    (he : e ∈ w.log) (hn : e.event.noted = true) :
    ∃ p₀ r₀ p₁ r₁, Next exp p₀ r₀ (.record e.event) () p₁ r₁ ∧
      TrackedAt exp r₀ e.scorer.archive.seenHashes p₀ := by
  obtain ⟨i, hi⟩ := List.mem_iff_getElem?.mp he
  obtain ⟨p₀, r₀, w₀, p₁, r₁, h₀, hnext, -, hscorer, hle, -⟩ := h.entry_noted hi hn
  have hgood₀ : ∀ e ∈ w₀.log, e.event.aborts = false := fun e he =>
    hgood e (hle.subset (List.mem_append_left _ he))
  exact ⟨p₀, r₀, p₁, r₁, hnext, hscorer ▸ (h₀.inStep hgood₀).2⟩

theorem Reach.boundary_inStep (h : Reaches exp p r w) (hgood : ∀ e ∈ w.log, e.event.aborts = false)
    (he : e ∈ w.log) (hb : e.event.boundary = some r₀) :
    InStep r₀.commitState e.scorer.archive.seenHashes [] := by
  have hn : e.event.noted = true := by
    cases hev : e.event <;> simp_all [Event.boundary, Event.noted, Event.runner]
  obtain ⟨p₀, r', p₁, r₁, hnext, htracked⟩ := h.inStep_entry hgood he hn
  generalize e.event = ev at hnext hb
  cases hnext with
  | quiet hq => cases hq
  | failed hi => cases hi
  | started | select | committed =>
    cases hb
    exact (htracked rfl).1
  | scored | aborted | began => cases hb

theorem Reach.scored_inStep {results : List (ScoreResult F)} (h : Reaches exp p r w)
    (hgood : ∀ e ∈ w.log, e.event.aborts = false) (he : e ∈ w.log)
    (hev : e.event = .scored r₀ results) :
    InStep r₀.commitState e.scorer.archive.seenHashes [] ∧
      ∀ result ∈ results, Verdict e.scorer.archive.seenHashes result := by
  obtain ⟨p₀, r', p₁, r₁, hnext, htracked⟩ := h.inStep_entry hgood he (by rw [hev]; rfl)
  rw [hev] at hnext
  cases hnext with
  | quiet hq => cases hq
  | failed hi => cases hi
  | scored => exact htracked rfl

/-- **The scorer and the runner.** In every run in which no commit ended with an error, the
archive has between batches exactly the hashes the runner has seen; and the verdict on an item
of a fresh batch is membership in the runner's seen map, unless the scorer could not decode the
item and the placeholder hash of such items has been seen. -/
theorem scorer_agrees_with_runner (exp : Experiment F) {s : Solo (Op F) (Ans F) (World F)}
    (h : Solo.Steps (env exp) (boot exp) ⟨.empty, none⟩ s)
    (hgood : ∀ e ∈ s.world.log, e.event.aborts = false) :
    (∀ e ∈ s.world.log, ∀ r, e.event.boundary = some r → ∀ hash,
      hash ∈ e.scorer.archive.seenHashes ↔ r.commitState.seen.contains hash = true) ∧
    ∀ e ∈ s.world.log, ∀ r results, e.event = .scored r results → ∀ result ∈ results,
      (result.duplicate = r.commitState.seen.contains result.stateHash ↔
        ¬ (result.error.isSome = true ∧ r.commitState.seen.contains 0 = true)) := by
  obtain ⟨p, r, hreach⟩ := reaches_of_steps h
  refine ⟨fun e he r₀ hb hash => ?_, fun e he r₀ results hev result hm => ?_⟩
  · have hin := hreach.boundary_inStep hgood he hb
    rw [hin.agrees hash]
    simp
  · obtain ⟨hin, hverdicts⟩ := hreach.scored_inStep hgood he hev
    have hverdict := hverdicts result hm
    unfold Verdict at hverdict
    split at hverdict
    · rename_i herror
      rw [hverdict.1, hverdict.2]
      simp [herror]
    · rename_i herror
      have hsame : r₀.commitState.seen.contains result.stateHash =
          e.scorer.archive.seenHashes.contains result.stateHash := by
        rw [Bool.eq_iff_iff, hin.agrees, ← Std.ExtTreeSet.mem_iff_contains]
        simp
      rw [hverdict, hsame]
      simp [herror]

/-- A process killed between the row of a child and the report to the scorer, and the next
one, which catches the scorer up. -/
theorem scorer_agrees_with_runner_killedInCommit :
    (evaluate sample killedInCommit).log.all (fun e => !e.event.aborts) = true ∧
      ∀ e ∈ (evaluate sample killedInCommit).log, ∀ r, e.event.boundary = some r → ∀ hash,
        hash ∈ e.scorer.archive.seenHashes ↔ r.commitState.seen.contains hash = true := by
  have hgood : (evaluate sample killedInCommit).log.all (fun e => !e.event.aborts) = true := by
    decide +kernel
  exact ⟨hgood, (scorer_agrees_with_runner sample (steps_evaluate sample killedInCommit)
    fun e he => by simpa using List.all_eq_true.mp hgood e he).1⟩

/-- Every job arrives at a state the scorer cannot decode. -/
def undecodable : Experiment Int :=
  { sample with execute := fun batch => batch.bursts.map fun burst => sampleJob burst.burstId [] }

/-- Two batches are scored. -/
def twoBatches : List (List Choice) := [List.replicate 60 .answer]

/-- Whether an entry is the scoring of a fresh batch with a wrong verdict on some item. -/
def Entry.misjudged (e : Entry F) : Bool :=
  match e.event with
  | .scored r results => results.any fun result =>
      result.duplicate != r.commitState.seen.contains result.stateHash
  | _ => false

theorem Entry.exists_of_misjudged (h : e.misjudged = true) :
    ∃ r results, e.event = .scored r results ∧
      ∃ result ∈ results, result.duplicate ≠ r.commitState.seen.contains result.stateHash := by
  unfold Entry.misjudged at h
  split at h
  · rename_i r results hev
    obtain ⟨result, hm, hne⟩ := List.any_eq_true.mp h
    exact ⟨r, results, hev, result, hm, by simpa using hne⟩
  · cases h

/-- The item of the second batch has the placeholder hash of the first one's, which has been
committed, and is not reported as a duplicate. No call has failed. -/
theorem scorer_misjudges_undecodable :
    Solo.Steps (env undecodable) (boot undecodable) ⟨.empty, none⟩
        ⟨evaluate undecodable twoBatches, none⟩ ∧
      (∀ e ∈ (evaluate undecodable twoBatches).log,
        e.event.aborts = false ∧ e.event.fails = false) ∧
      ∃ e ∈ (evaluate undecodable twoBatches).log, ∃ r results, e.event = .scored r results ∧
        ∃ result ∈ results, result.duplicate ≠ r.commitState.seen.contains result.stateHash := by
  have hgood : (evaluate undecodable twoBatches).log.all
      (fun e => decide (e.event.aborts = false ∧ e.event.fails = false)) = true := by
    decide +kernel
  have hany : (evaluate undecodable twoBatches).log.any (·.misjudged) = true := by
    decide +kernel
  obtain ⟨e, he, hmisjudged⟩ := List.any_eq_true.mp hany
  refine ⟨steps_evaluate undecodable twoBatches, fun e he => ?_, e, he,
    Entry.exists_of_misjudged hmisjudged⟩
  exact of_decide_eq_true (List.all_eq_true.mp hgood e he)

end Orchestrator.Server
