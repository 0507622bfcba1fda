import Orchestrator.Server.Refinement

/-! # Server — Environment

What the answers of the environment say about the services, read off `respond` once: the
effect each call can have on the world, whether or not it is acknowledged, and what an
acknowledged call did.

* `env_induct`: a property of worlds that every effect of a call keeps.
* `env_createNode`, `env_putCheckpoint`, …: what an answer tells.
-/

namespace Orchestrator.Server

open Core Services Lib

variable {F : Type} [Float64 F] {exp : Experiment F}

/-- The effect of a call on the world, when it has one. -/
inductive Applied : Op F → World F → World F → Prop where
  | putCheckpoint {w expected value g store}
      (h : w.store.putCheckpoint expected value = .ok (g, store)) :
      Applied (.putCheckpoint expected value) w
        ((w.setStore store).record (.checkpointed value.batchSeq))
  | putWal {w i} : Applied (.putWal i) w
      ((w.setStore (w.store.putWal i.seq i)).record (.walWritten i.seq))
  | deleteWal {w seq store} (h : w.store.deleteWal seq = .ok store) :
      Applied (.deleteWal seq) w ((w.setStore store).record (.walDeleted seq))
  | createNode {w req store} (h : w.store.createNode req = .ok store) :
      Applied (.createNode req) w (w.setStore store)
  | updateNode {w update store} (h : w.store.updateNode update = .ok store) :
      Applied (.updateNode update) w (w.setStore store)
  | buildPropose {w i spec replay} :
      Applied (.buildPropose i spec replay) w (w.record (.proposed i replay))
  | loadFeatureMap {w hash layout rebin scorer}
      (h : w.scorer.loadFeatureMap hash layout rebin = .ok scorer) :
      Applied (.loadFeatureMap hash layout rebin) w (w.setScorer scorer)
  | loadScoringProgram {w hash scorer} (h : w.scorer.loadScoringProgram hash = .ok scorer) :
      Applied (.loadScoringProgram hash) w (w.setScorer scorer)
  | checkpointArchive {w id snapshot scorer}
      (h : w.scorer.checkpointArchive id = .ok (snapshot, scorer)) :
      Applied (.checkpointArchive id) w (w.setScorer scorer)
  | restoreArchive {w id archiveRef seq scorer}
      (h : w.scorer.restoreArchive id archiveRef = .ok (seq, scorer)) :
      Applied (.restoreArchive id archiveRef) w (w.setScorer scorer)
  | replayCommits {w states scorer} (h : w.scorer.replayCommits states = .ok scorer) :
      Applied (.replayCommits states) w (w.setScorer scorer)
  | submit {w batch} : Applied (.submit batch) w (w.record (.submitted batch.seq))
  | record {w e} : Applied (.record e) w (w.record e)

def Op.writesRows : Op F → Bool
  | .createNode _ | .updateNode _ => true
  | _ => false

def Op.writesCheckpoint : Op F → Bool
  | .putCheckpoint _ _ => true
  | _ => false

variable {op : Op F} {w : World F}

theorem Op.keeps_of_quiet {p : Point F} (h : op.quiet p = true) : op.writesCheckpoint = false := by
  cases op <;> simp_all [Op.quiet, Op.writesCheckpoint]

def Op.writesWal : Op F → Bool
  | .putWal _ | .deleteWal _ => true
  | _ => false

def Op.writesArchive : Op F → Bool
  | .restoreArchive _ _ | .replayCommits _ => true
  | _ => false

section

variable {P : World F → Prop} {w w' : World F}

variable {α : Type} {op : Op F} {e : ClientError} {run : Except ClientError (α × World F)}
  {c : Choice} {w₁ : World F} {a : Ans F op} {seq : Nat} {i : ExpansionIntent}

theorem failWith_induct (h : P w) (hfail : ∀ w e, P w → P (w.record (.rpcFailed e))) :
    P (failWith (α := α) op e w).2 := by
  unfold failWith
  dsimp only
  split
  · exact h
  · exact hfail w e h

theorem answered_induct (h : P w) (heffect : ∀ a w₁, run = .ok (a, w₁) → P w₁)
    (hfail : ∀ w e, P w → P (w.record (.rpcFailed e))) : P (answered op w run).2 := by
  match run with
  | .ok (a, w₁) => exact heffect a w₁ rfl
  | .error e => exact failWith_induct h hfail

theorem fallible_induct (h : P w) (heffect : ∀ a w₁, run = .ok (a, w₁) → P w₁)
    (hfail : ∀ w e, P w → P (w.record (.rpcFailed e))) : P (fallible op c w run).2 := by
  have hafter : P (afterEffect w run) := by
    match run with
    | .ok (a, w₁) => exact heffect a w₁ rfl
    | .error e => exact h
  unfold fallible
  split
  · split
    · refine failWith_induct ?_ hfail
      split
      · exact hafter
      · exact h
    · exact answered_induct h heffect hfail
  · exact answered_induct h heffect hfail

theorem fallible_ok {a : α} (h : fallible op c w run = (.ok a, w')) : run = .ok (a, w') := by
  have hanswered : answered op w run = (.ok a, w') → run = .ok (a, w') := by
    match run with
    | .ok (b, w₁) => exact fun h => by cases h; rfl
    | .error e => exact fun h => by cases h
  unfold fallible at h
  split at h
  · split at h
    · cases h
    · exact hanswered h
  · exact hanswered h

/-- An error no fault can be is the service's answer. -/
theorem fallible_error (he : ∀ applied, transient op e applied = false)
    (h : fallible op c w run = (.error e, w')) :
    run = .error e ∧ w' = (failWith (α := α) op e w).2 := by
  have hanswered : answered op w run = (.error e, w') →
      run = .error e ∧ w' = (failWith (α := α) op e w).2 := by
    match run with
    | .ok (b, w₁) => exact fun h => by cases h
    | .error e' => exact fun h => by cases h; exact ⟨rfl, rfl⟩
  unfold fallible at h
  split at h
  · rename_i e' applied
    split at h
    · rename_i ht
      cases h
      rw [he applied] at ht
      cases ht
    · exact hanswered h
  · exact hanswered h

theorem onStore_ok {x : Except ClientError (Store F)} {a : Unit} (h : onStore w x = .ok (a, w₁)) :
    ∃ store, x = .ok store ∧ w₁ = w.setStore store := by
  match x with
  | .ok store => cases h; exact ⟨store, rfl, rfl⟩
  | .error e => cases h

theorem onScorer_ok {x : Except ClientError Scorer} {a : Unit} (h : onScorer w x = .ok (a, w₁)) :
    ∃ scorer, x = .ok scorer ∧ w₁ = w.setScorer scorer := by
  match x with
  | .ok scorer => cases h; exact ⟨scorer, rfl, rfl⟩
  | .error e => cases h

theorem reading_ok {x : Except ClientError α} {a : α} (h : reading w x = .ok (a, w₁)) :
    x = .ok a ∧ w₁ = w := by
  match x with
  | .ok b => cases h; exact ⟨rfl, rfl⟩
  | .error e => cases h

/-- **The frame of a call.** What holds of the world before a call and after its effect, and
is kept by a failure on the log, holds after the call whatever the answer. -/
theorem env_induct (he : env exp op w a w') (h : P w) (heffect : ∀ w₁, Applied op w w₁ → P w₁)
    (hfail : ∀ w e, P w → P (w.record (.rpcFailed e))) : P w' := by
  obtain ⟨c, hc⟩ := he
  obtain rfl : (respond exp op c w).2 = w' := by rw [hc]
  clear hc
  have read : ∀ {α : Type} {op : Op F} {x : Except ClientError α},
      P (fallible op c w (reading w x)).2 := by
    intro α op x
    refine fallible_induct h (fun a w₁ hr => ?_) hfail
    obtain ⟨-, rfl⟩ := reading_ok hr
    exact h
  cases op with
  | getCheckpoint | getWal | queryNodes | scoreBatch => exact read
  | putCheckpoint expected value =>
    refine fallible_induct h (fun g w₁ hr => ?_) hfail
    split at hr
    · cases hr
    · rename_i store hput
      cases hr
      exact heffect _ (.putCheckpoint hput)
  | putWal i =>
    refine fallible_induct h (fun _ w₁ hr => ?_) hfail
    cases hr
    exact heffect _ .putWal
  | deleteWal seq =>
    refine fallible_induct h (fun _ w₁ hr => ?_) hfail
    split at hr
    · cases hr
    · rename_i store hdel
      cases hr
      exact heffect _ (.deleteWal hdel)
  | createNode req =>
    refine fallible_induct h (fun _ w₁ hr => ?_) hfail
    obtain ⟨store, hstore, rfl⟩ := onStore_ok hr
    exact heffect _ (.createNode hstore)
  | updateNode update =>
    refine fallible_induct h (fun _ w₁ hr => ?_) hfail
    obtain ⟨store, hstore, rfl⟩ := onStore_ok hr
    exact heffect _ (.updateNode hstore)
  | buildPropose i spec replay =>
    refine fallible_induct h (fun _ w₁ hr => ?_) hfail
    obtain ⟨-, rfl⟩ := reading_ok hr
    exact heffect _ .buildPropose
  | propose req =>
    have hpure : ∀ c, P (fallible (.propose req) c w (.ok (exp.propose req, w))).2 := by
      intro c
      refine fallible_induct h (fun _ w₁ hr => ?_) hfail
      cases hr
      exact h
    cases c with
    | proposes response => exact h
    | _ => exact hpure _
  | loadFeatureMap hash layout rebin =>
    refine fallible_induct h (fun _ w₁ hr => ?_) hfail
    obtain ⟨scorer, hscorer, rfl⟩ := onScorer_ok hr
    exact heffect _ (.loadFeatureMap hscorer)
  | loadScoringProgram hash =>
    refine fallible_induct h (fun _ w₁ hr => ?_) hfail
    obtain ⟨scorer, hscorer, rfl⟩ := onScorer_ok hr
    exact heffect _ (.loadScoringProgram hscorer)
  | synthBringup =>
    refine fallible_induct h (fun _ w₁ hr => ?_) hfail
    cases hr
    exact h
  | bootstrap =>
    refine fallible_induct h (fun _ w₁ hr => ?_) hfail
    cases hr
    exact h
  | checkpointArchive id =>
    refine fallible_induct h (fun _ w₁ hr => ?_) hfail
    split at hr
    · cases hr
    · rename_i scorer harch
      cases hr
      exact heffect _ (.checkpointArchive harch)
  | restoreArchive id archiveRef =>
    refine fallible_induct h (fun _ w₁ hr => ?_) hfail
    split at hr
    · cases hr
    · rename_i scorer hrest
      cases hr
      exact heffect _ (.restoreArchive hrest)
  | replayCommits states =>
    refine fallible_induct h (fun _ w₁ hr => ?_) hfail
    obtain ⟨scorer, hscorer, rfl⟩ := onScorer_ok hr
    exact heffect _ (.replayCommits hscorer)
  | submit batch =>
    refine fallible_induct h (fun _ w₁ hr => ?_) hfail
    cases hr
    exact heffect _ .submit
  | nextCompleted pending =>
    cases c with
    | fault e applied => exact failWith_induct h hfail
    | _ => cases pending <;> exact h
  | tryRecv | recv | checkpointTimeDue | wallClockSpent | shouldCrash => cases c <;> exact h
  | record e => exact heffect _ .record

/-! ### What a call leaves alone -/

theorem env_rows (he : env exp op w a w') (hop : op.writesRows = false) :
    w'.store.rows = w.store.rows := by
  refine env_induct (P := fun x => x.store.rows = w.store.rows) he rfl (fun w₁ h => ?_)
    fun _ _ h => h
  cases h with
  | createNode | updateNode => cases hop
  | putCheckpoint h => rw [(Store.putCheckpoint_ok h).2.2]; rfl
  | deleteWal h => rw [Store.deleteWal_ok h]; rfl
  | _ => rfl

theorem env_checkpoint (he : env exp op w a w') (hop : op.writesCheckpoint = false) :
    w'.store.checkpoint = w.store.checkpoint := by
  refine env_induct (P := fun x => x.store.checkpoint = w.store.checkpoint) he rfl
    (fun w₁ h => ?_) fun _ _ h => h
  cases h with
  | putCheckpoint => cases hop
  | createNode h =>
    rcases Store.createNode_ok h with ⟨-, -, -, rfl⟩ | ⟨-, -, -, rfl⟩
    · rfl
    · rfl
  | updateNode h => obtain ⟨-, -, rfl⟩ := Store.updateNode_ok h; rfl
  | deleteWal h => rw [Store.deleteWal_ok h]; rfl
  | _ => rfl

theorem env_checkpoint_isSome (he : env exp op w a w') (h : w.store.checkpoint.isSome = true) :
    w'.store.checkpoint.isSome = true := by
  by_cases hop : op.writesCheckpoint = false
  · rwa [env_checkpoint he hop]
  · refine env_induct (P := fun x => x.store.checkpoint.isSome = true) he h (fun w₁ happ => ?_)
      fun _ _ h => h
    cases happ with
    | putCheckpoint hput =>
      rw [(Store.putCheckpoint_ok hput).2.2]
      rfl
    | _ => exact absurd rfl hop

theorem env_wal (he : env exp op w a w') (hop : op.writesWal = false) :
    w'.store.wal = w.store.wal := by
  refine env_induct (P := fun x => x.store.wal = w.store.wal) he rfl (fun w₁ h => ?_)
    fun _ _ h => h
  cases h with
  | putWal | deleteWal => cases hop
  | createNode h =>
    rcases Store.createNode_ok h with ⟨-, -, -, rfl⟩ | ⟨-, -, -, rfl⟩
    · rfl
    · rfl
  | updateNode h => obtain ⟨-, -, rfl⟩ := Store.updateNode_ok h; rfl
  | putCheckpoint h => rw [(Store.putCheckpoint_ok h).2.2]; rfl
  | _ => rfl

theorem Applied.seen (h : Applied op w w') (hop : op.writesArchive = false) :
    w'.scorer.archive.seenHashes = w.scorer.archive.seenHashes := by
  cases h with
  | restoreArchive | replayCommits => cases hop
  | loadFeatureMap h => exact Scorer.loadFeatureMap_ok h
  | loadScoringProgram h => exact Scorer.loadScoringProgram_ok h
  | checkpointArchive h => exact (Scorer.checkpointArchive_ok h).2
  | _ => rfl

theorem env_seen (he : env exp op w a w') (hop : op.writesArchive = false) :
    w'.scorer.archive.seenHashes = w.scorer.archive.seenHashes :=
  env_induct (P := fun x => x.scorer.archive.seenHashes = w.scorer.archive.seenHashes) he rfl
    (fun _ happ => happ.seen hop) fun _ _ h => h

/-! ### What an answer tells -/

variable {g : Nat} {req : CreateNodeRequest F} {id : Nat}

theorem env_getCheckpoint_ok {cp : Checkpoint F} (he : env exp .getCheckpoint w (.ok (cp, g)) w') :
    w.store.checkpoint = some (cp, g) ∧ w' = w := by
  obtain ⟨c, hc⟩ := he
  obtain ⟨hget, rfl⟩ := reading_ok (fallible_ok hc)
  refine ⟨?_, rfl⟩
  unfold Store.getCheckpoint at hget
  split at hget
  · cases hget
  · rename_i entry hentry
    cases hget
    exact hentry

theorem not_transient_of_notFound (he : e.kind = .notFound) (applied : Bool) :
    transient op e applied = false := by
  cases op <;> simp [transient, ClientError.isRetryable, he]

theorem env_getCheckpoint_notFound (hk : e.kind = .notFound)
    (he : env exp .getCheckpoint w (.error e) w') : w.store.checkpoint = none ∧ w' = w := by
  obtain ⟨c, hc⟩ := he
  obtain ⟨hread, rfl⟩ := fallible_error (not_transient_of_notFound hk) hc
  refine ⟨?_, by simp [failWith, tolerated, hk]⟩
  unfold Store.getCheckpoint at hread
  split at hread
  · assumption
  · cases hread

theorem env_queryNodes_ok {rows : List (Row F)} (he : env exp .queryNodes w (.ok rows) w') :
    w.store.rows.isEmpty = false ∧ rows = w.store.queryNodes ∧ w' = w := by
  obtain ⟨c, hc⟩ := he
  obtain ⟨hread, rfl⟩ := reading_ok (fallible_ok hc)
  split at hread
  · cases hread
  · rename_i hempty
    cases hread
    exact ⟨Bool.eq_false_iff.mpr hempty, rfl, rfl⟩

theorem env_createNode_ok (he : env exp (.createNode req) w (.ok ()) w') :
    ∃ store, w.store.createNode req = .ok store ∧ w' = w.setStore store := by
  obtain ⟨c, hc⟩ := he
  exact onStore_ok (fallible_ok hc)

theorem env_createNode_alreadyExists (hk : e.kind = .alreadyExists)
    (he : env exp (.createNode req) w (.error e) w') : w.store.createNode req = .error e := by
  obtain ⟨c, hc⟩ := he
  have ht : ∀ applied, transient (.createNode req) e applied = false := by
    simp [transient, ClientError.isRetryable, hk]
  obtain ⟨hrun, -⟩ := fallible_error ht hc
  match hx : w.store.createNode req with
  | .ok store =>
    rw [hx] at hrun
    cases hrun
  | .error e' =>
    rw [hx] at hrun
    cases hrun
    rfl

theorem env_updateNode_ok {update : NodeUpdate}
    (he : env exp (.updateNode update) w (.ok ()) w') :
    ∃ store, w.store.updateNode update = .ok store ∧ w' = w.setStore store := by
  obtain ⟨c, hc⟩ := he
  exact onStore_ok (fallible_ok hc)

theorem env_putCheckpoint_ok {expected : Option Nat} {value : Checkpoint F}
    (he : env exp (.putCheckpoint expected value) w (.ok g) w') :
    ∃ store, w.store.putCheckpoint expected value = .ok (g, store) ∧
      w' = (w.setStore store).record (.checkpointed value.batchSeq) := by
  obtain ⟨c, hc⟩ := he
  have hrun := fallible_ok hc
  split at hrun
  · cases hrun
  · rename_i store hput
    cases hrun
    exact ⟨store, hput, rfl⟩

theorem env_getWal_ok (he : env exp (.getWal seq) w (.ok i) w') :
    w.store.wal[seq]? = some i ∧ w' = w := by
  obtain ⟨c, hc⟩ := he
  obtain ⟨hread, rfl⟩ := reading_ok (fallible_ok hc)
  refine ⟨?_, rfl⟩
  unfold Store.getWal at hread
  split at hread
  · cases hread
  · rename_i intent hintent
    cases hread
    exact hintent

theorem env_getWal_notFound (hk : e.kind = .notFound) (he : env exp (.getWal seq) w (.error e) w') :
    w.store.wal[seq]? = none := by
  obtain ⟨c, hc⟩ := he
  obtain ⟨hread, -⟩ := fallible_error (not_transient_of_notFound hk) hc
  cases hwal : w.store.wal[seq]? with
  | none => rfl
  | some i =>
    simp only [Store.getWal, hwal, reading] at hread
    cases hread

theorem env_putWal_ok (he : env exp (.putWal i) w (.ok ()) w') :
    w' = (w.setStore (w.store.putWal i.seq i)).record (.walWritten i.seq) := by
  obtain ⟨c, hc⟩ := he
  cases fallible_ok hc
  rfl

theorem env_buildPropose_ok {spec : BuildSpec} {replay : Bool} {request : ProposeRequest F}
    (he : env exp (.buildPropose i spec replay) w (.ok request) w') :
    buildProposeRequest w.store spec = .ok request := by
  obtain ⟨c, hc⟩ := he
  exact (reading_ok (fallible_ok hc)).1

/-- Once a delete is answered, with success or because there was nothing, the entry is gone. -/
theorem env_deleteWal_gone {a : Except ClientError Unit}
    (ha : a = .ok () ∨ ∃ e : ClientError, a = .error e ∧ e.kind = .notFound)
    (he : env exp (.deleteWal seq) w a w') (k : Nat) :
    w'.store.wal[k]? = if k = seq then none else w.store.wal[k]? := by
  obtain ⟨c, hc⟩ := he
  rcases ha with rfl | ⟨e, rfl, hk⟩
  · have hrun := fallible_ok hc
    split at hrun
    · cases hrun
    · rename_i store hdelete
      cases hrun
      rw [Store.deleteWal_ok hdelete]
      exact getElem?_erase_if _ _ _
  · obtain ⟨hrun, rfl⟩ := fallible_error (not_transient_of_notFound hk) hc
    have hstore : (failWith (α := Unit) (.deleteWal seq) e w).2 = w := by
      simp [failWith, tolerated, hk]
    rw [hstore]
    cases hwal : w.store.wal[seq]? with
    | some i =>
      simp only [Store.deleteWal, hwal] at hrun
      cases hrun
    | none =>
      split
      · rename_i heq
        rw [heq, hwal]
      · rfl

theorem env_bootstrap_ok {root : Capture} (he : env exp .bootstrap w (.ok root) w') :
    root = exp.bootstrap ∧ w' = w := by
  obtain ⟨c, hc⟩ := he
  have hrun := fallible_ok hc
  cases hrun
  exact ⟨rfl, rfl⟩

theorem env_scoreBatch_ok {states : List Bytes} {results : List (ScoreResult F)}
    (he : env exp (.scoreBatch states) w (.ok (seq, results)) w') :
    results = states.map (fun b => w.scorer.scoreStateInput (exp.scoreState b)) ∧ w' = w := by
  obtain ⟨c, hc⟩ := he
  obtain ⟨hread, rfl⟩ := reading_ok (fallible_ok hc)
  refine ⟨?_, rfl⟩
  unfold Scorer.scoreBatch at hread
  split at hread
  · cases hread
  · split at hread
    · cases hread
    · cases hread
      rfl

theorem env_checkpointArchive_ok {archive : ArchiveSnapshot}
    (he : env exp (.checkpointArchive id) w (.ok archive) w') :
    archive.seenHashes = w.scorer.archive.seenHashes := by
  obtain ⟨c, hc⟩ := he
  have hrun := fallible_ok hc
  split at hrun
  · cases hrun
  · rename_i scorer harchive
    cases hrun
    exact (Scorer.checkpointArchive_ok harchive).1

theorem env_restoreArchive_ok {archiveRef : ArchiveSnapshot}
    (he : env exp (.restoreArchive id archiveRef) w (.ok seq) w') :
    w'.scorer.archive.seenHashes = archiveRef.seenHashes := by
  obtain ⟨c, hc⟩ := he
  have hrun := fallible_ok hc
  split at hrun
  · cases hrun
  · rename_i scorer hrestore
    cases hrun
    exact Scorer.restoreArchive_ok hrestore

theorem env_replayCommits_ok {states : List CommittedState}
    (he : env exp (.replayCommits states) w (.ok ()) w') (hash : StateHash) :
    hash ∈ w'.scorer.archive.seenHashes ↔
      hash ∈ w.scorer.archive.seenHashes ∨ ∃ c ∈ states, hash = c.stateHash := by
  obtain ⟨c, hc⟩ := he
  obtain ⟨scorer, hreplay, rfl⟩ := onScorer_ok (fallible_ok hc)
  exact Scorer.mem_replayCommits hreplay hash

theorem env_record {e : Event F} {a : Unit} (he : env exp (.record e) w a w') :
    w' = w.record e := by
  obtain ⟨c, hc⟩ := he
  cases hc
  rfl

end

/-! ### Where the entries of the log come from -/

/-- What the protocol reaches from the empty world. -/
abbrev Reaches (exp : Experiment F) : Point F → Runner F → World F → Prop :=
  Reach exp (env exp) ⟨(World.empty = ·), True⟩

theorem reaches_of_steps {s : Solo (Op F) (Ans F) (World F)}
    (h : Solo.Steps (env exp) (boot exp) ⟨.empty, none⟩ s) : ∃ p r, Reaches exp p r s.world :=
  reach_of_steps rfl trivial h

theorem Applied.log {w₁ : World F} (h : Applied op w w₁) :
    w₁.log = w.log ∨ ∃ ev, w₁.log = w.log ++ [⟨ev, w₁.store, w₁.scorer⟩] := by
  cases h
  case putCheckpoint | putWal | deleteWal | buildPropose | submit | record => exact .inr ⟨_, rfl⟩
  all_goals exact .inl rfl

/-- An entry is a failure, or was made by the effect of a call. -/
def MadeBy (op : Op F) (w w' : World F) (e : Entry F) : Prop :=
  ∃ w₁, Applied op w w₁ ∧ w₁.log = w.log ++ [e] ∧ w₁.log <+: w'.log ∧ e.store = w₁.store ∧
    e.scorer = w₁.scorer

variable {w' : World F}

theorem MadeBy.mono {w'' : World F} {e : Entry F} (h : MadeBy op w w' e)
    (hpre : w'.log <+: w''.log) : MadeBy op w w'' e := by
  obtain ⟨w₁, happ, hlog, hle, hs⟩ := h
  exact ⟨w₁, happ, hlog, hle.trans hpre, hs⟩

theorem env_log {a : Ans F op} (he : env exp op w a w') :
    w.log <+: w'.log ∧ ∀ (i : Nat) (e : Entry F), w'.log[i]? = some e →
      w.log[i]? = some e ∨ (∃ err, e.event = .rpcFailed err) ∨
        i = w.log.length ∧ MadeBy op w w' e := by
  refine env_induct (P := fun x => w.log <+: x.log ∧ ∀ (i : Nat) (e : Entry F),
    x.log[i]? = some e → w.log[i]? = some e ∨ (∃ err, e.event = .rpcFailed err) ∨
      i = w.log.length ∧ MadeBy op w x e) he
    ⟨List.prefix_rfl, fun i e h => .inl h⟩ (fun w₁ happ => ?_) (fun x err h => ?_)
  · rcases happ.log with hlog | ⟨ev, hlog⟩
    · rw [hlog]
      exact ⟨List.prefix_rfl, fun i e h => .inl h⟩
    · refine ⟨hlog ▸ List.prefix_append _ _, fun i e h => ?_⟩
      rcases getElem?_concat_eq_some (hlog ▸ h) with h | ⟨hi, rfl⟩
      · exact .inl h
      · exact .inr (.inr ⟨hi, w₁, happ, hlog, List.prefix_rfl, rfl, rfl⟩)
  · have hpre : x.log <+: (x.record (.rpcFailed err)).log := List.prefix_append _ _
    refine ⟨h.1.trans hpre, fun i e hmem => ?_⟩
    rcases getElem?_concat_eq_some hmem with hmem | ⟨-, rfl⟩
    · rcases h.2 i e hmem with hold | hfail | ⟨hi, hmade⟩
      · exact .inl hold
      · exact .inr (.inl hfail)
      · exact .inr (.inr ⟨hi, hmade.mono hpre⟩)
    · exact .inr (.inl ⟨err, rfl⟩)

/-- An environment that only gives answers the services give, and starts in the empty world. -/
structure Within (exp : Experiment F) (A : Answers (Op F) (Ans F) (World F))
    (Initial : Starts (World F)) : Prop where
  answers : ∀ op w a w', A op w a w' → env exp op w a w'
  empty : ∀ w, Initial.first w → World.empty = w

theorem within_env (exp : Experiment F) : Within exp (env exp) ⟨(World.empty = ·), True⟩ :=
  ⟨fun _ _ _ _ h => h, fun _ h => h⟩

section

variable {A : Answers (Op F) (Ans F) (World F)} {Initial : Starts (World F)} {p : Point F}
  {r : Runner F} {w : World F}

theorem Reach.widen (h : Reach exp A Initial p r w) (hA : Within exp A Initial) :
    Reaches exp p r w := by
  induction h with
  | init hw => exact .init (hA.empty _ hw)
  | restart _ _ ih => exact ih.restart trivial
  | loc _ hl ih => exact ih.loc hl
  | call _ hn ha ih => exact ih.call hn (hA.answers _ _ _ _ ha)

variable {i : Nat} {e : Entry F}

/-- **The origin of an entry.** An entry of the log is a failure, or the protocol made a call
from a world whose log is the part before the entry. -/
theorem Reach.origin (h : Reach exp A Initial p r w) (hA : Within exp A Initial)
    (he : w.log[i]? = some e) :
    (∃ err, e.event = .rpcFailed err) ∨
      ∃ p₀ r₀ w₀ op a p₁ r₁, Reach exp A Initial p₀ r₀ w₀ ∧ Next exp p₀ r₀ op a p₁ r₁ ∧
        MadeBy op w₀ w e ∧ w₀.log.length = i := by
  induction h with
  | init hw =>
    obtain rfl := hA.empty _ hw
    cases he
  | restart _ _ ih => exact ih he
  | loc _ _ ih => exact ih he
  | @call p r w op a w' p' r' h hn ha ih =>
    obtain ⟨hpre, hlog⟩ := env_log (hA.answers _ _ _ _ ha)
    rcases hlog i e he with hold | hfail | ⟨hi, hmade⟩
    · rcases ih hold with hfail | ⟨p₀, r₀, w₀, op, a, p₁, r₁, h₀, hn₀, hmade, hi⟩
      · exact .inl hfail
      · exact .inr ⟨p₀, r₀, w₀, op, a, p₁, r₁, h₀, hn₀, hmade.mono hpre, hi⟩
    · exact .inl hfail
    · exact .inr ⟨p, r, w, op, a, p', r', h, hn, hmade, hi.symm⟩

theorem Reach.entry (h : Reaches exp p r w) (he : w.log[i]? = some e) :
    (∃ err, e.event = .rpcFailed err) ∨
      ∃ p₀ r₀ w₀ op a p₁ r₁, Reaches exp p₀ r₀ w₀ ∧ Next exp p₀ r₀ op a p₁ r₁ ∧
        MadeBy op w₀ w e ∧ w₀.log.length = i :=
  h.origin (within_env exp) he

/-- Whether a call failed for good. -/
def Event.fails : Event F → Bool
  | .rpcFailed _ => true
  | _ => false

/-- The runner an event puts on the log, rather than the effect of a call. -/
def Event.runner : Event F → Option (Runner F)
  | .started r | .selecting r | .scored r _ | .committed _ _ r | .aborted _ r
  | .checkpointBegan r => some r
  | _ => none

/-- Whether an event is put on the log by the runner. -/
def Event.noted (e : Event F) : Bool := e.runner.isSome

theorem Applied.noted {op : Op F} {w w₁ : World F} (h : Applied op w w₁)
    (hlog : w₁.log = w.log ++ [e]) (hn : e.event.noted = true) :
    op = .record e.event ∧ e.store = w.store ∧ e.scorer = w.scorer := by
  cases h
  case record =>
    cases List.append_cancel_left hlog
    exact ⟨rfl, rfl, rfl⟩
  case putCheckpoint | putWal | deleteWal | buildPropose | submit =>
    cases List.append_cancel_left hlog
    cases hn
  all_goals
    cases List.append_cancel_left ((List.append_nil _).trans hlog)

theorem Reach.origin_noted (h : Reach exp A Initial p r w) (hA : Within exp A Initial)
    (he : w.log[i]? = some e) (hn : e.event.noted = true) :
    ∃ p₀ r₀ w₀ p₁ r₁, Reach exp A Initial p₀ r₀ w₀ ∧
      Next exp p₀ r₀ (.record e.event) () p₁ r₁ ∧ e.store = w₀.store ∧ e.scorer = w₀.scorer ∧
      w₀.log ++ [e] <+: w.log ∧ w₀.log.length = i := by
  rcases h.origin hA he with ⟨err, herr⟩ |
    ⟨p₀, r₀, w₀, op, a, p₁, r₁, h₀, hnext, ⟨w₁, happ, hlog, hle, -⟩, hi⟩
  · rw [herr] at hn
    cases hn
  · obtain ⟨rfl, hs⟩ := happ.noted hlog hn
    exact ⟨p₀, r₀, w₀, p₁, r₁, h₀, hnext, hs.1, hs.2, hlog ▸ hle, hi⟩

theorem Reach.entry_noted (h : Reaches exp p r w) (he : w.log[i]? = some e)
    (hn : e.event.noted = true) :
    ∃ p₀ r₀ w₀ p₁ r₁, Reaches exp p₀ r₀ w₀ ∧ Next exp p₀ r₀ (.record e.event) () p₁ r₁ ∧
      e.store = w₀.store ∧ e.scorer = w₀.scorer ∧ w₀.log ++ [e] <+: w.log ∧
      w₀.log.length = i :=
  h.origin_noted (within_env exp) he hn

variable {r₀ : Runner F}

/-- The runner on the log is the one that was running. -/
theorem Next.runner {p p' : Point F} {r r' : Runner F} {e : Event F} {a : Unit}
    (h : Next exp p r (.record e) a p' r') (he : e.runner = some r₀) : r₀ = r := by
  cases h with
  | quiet h => cases h
  | failed h => cases h
  | _ => exact (Option.some.inj he).symm

/-- What holds of every runner the protocol reaches holds of every runner on the log. -/
theorem Reach.runner (h : Reach exp A Initial p r w) (hA : Within exp A Initial) (he : e ∈ w.log)
    (hr : e.event.runner = some r₀) : ∃ p₀ w₀, Reach exp A Initial p₀ r₀ w₀ := by
  obtain ⟨i, hi⟩ := List.mem_iff_getElem?.mp he
  obtain ⟨p₀, r, w₀, p₁, r₁, h₀, hnext, -⟩ := h.origin_noted hA hi (by simp [Event.noted, hr])
  obtain rfl := hnext.runner hr
  exact ⟨p₀, w₀, h₀⟩

end

/-- The checks of `validate_all` on those parts of the configuration an experiment reads. -/
structure Experiment.Accepted (exp : Experiment F) : Prop where
  windowN : 10 ≤ exp.windowN
  epsilonS : 0 < exp.epsilonS
  kPerExpansion : 1 ≤ exp.kPerExpansion ∧ exp.kPerExpansion ≤ 256
  maxVisits : 0 < exp.rules.maxVisitsPerNode
  exhaustAfter : 0 < exp.rules.exhaustAfterDupExpansions
  deterministic : exp.mode = .deterministic → exp.maxInflightBatches = 1
  fast : exp.mode = .fast → 0 < exp.maxInflightBatches
  everyCommits : 0 < exp.everyCommits
  everySeconds : 0 < exp.everySeconds

/-! ### A small experiment

Runs of it can be evaluated: a script of choices drives the processes, one choice a call. -/

/-- Reads a state as its hash, its cell, its score and its two flags. -/
def sampleScore : Bytes → Except ItemErrorKind (StateScore Int)
  | [hash, cell, score, goal, prune] =>
    .ok
      { progressScore := ⟨score, rfl⟩, stateHash := hash, cellKey := cell, goalHit := goal ≠ 0
        stage := 0, prune := prune ≠ 0, decoded := [] }
  | _ => .error .featureLenMismatch

/-- A job of burst `id` that was captured in a state. -/
def sampleJob (id : Nat) (state : Bytes) : JobOutcome :=
  .completed ⟨0, .ok, ⟨id, [], 7, 0⟩, some ⟨id, some state, 0, 1, 0, some id⟩, []⟩

/-- One burst an expansion; batch `n` arrives at a state of its own, with hash `10 + n`. -/
def sample : Experiment Int where
  mode := .deterministic
  maxInflightBatches := 1
  rules := ⟨.exhausted, 0, 64, 8⟩
  onGoal := .stop
  budgets := ⟨0, 0, 0, 0⟩
  everyCommits := 8
  everySeconds := 30
  kPerExpansion := 1
  windowN := 100
  epsilonS := 1
  maxLevel := .l4
  decodedFeatures := []
  lengthHint := fun _ => 1
  hotOverrides := []
  requestSeed := id
  pick := fun _ => .ok (some 0)
  compiledMap := fun passes => .ok ⟨passes, 0, []⟩
  featureMapHash := 1
  scoringProgramHash := 2
  bootstrap := ⟨0, some [1, 1, 1, 0, 0], 0, 0, 0, none⟩
  scoreState := sampleScore
  propose := fun request => ⟨[⟨request.seed, [], 7, 0⟩], 7, request.seed⟩
  execute := fun batch => batch.bursts.map fun burst =>
    sampleJob burst.burstId [10 + batch.seq, 10 + batch.seq, 10 + batch.seq, 0, 0]

/-- The world after processes were started one after the other, each stopped at the end of
its choices. -/
def evaluate (exp : Experiment Int) (scripts : List (List Choice)) : World Int :=
  Solo.script (respond exp) (boot exp) (scripts.map fun script => (script.length, script)) .empty

theorem steps_evaluate (exp : Experiment Int) (scripts : List (List Choice)) :
    Solo.Steps (env exp) (boot exp) ⟨.empty, none⟩ ⟨evaluate exp scripts, none⟩ :=
  Solo.steps_script (respond exp) _ _

end Orchestrator.Server
