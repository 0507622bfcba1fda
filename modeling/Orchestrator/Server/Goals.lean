import Orchestrator.Server.Coverage

/-! # Server — Reached goals

Whether a goal ends the search. With `on_goal` set to stop, a process that has committed a
goal drains what is in flight and dispatches nothing more. That the goal was reached is only
in the return value of the commit: a process that starts, or goes on after a pause, learns of
it only by committing the goal's batch again.

* `Final`: after a goal nothing is dispatched but what was already in the write-ahead log.
* `Stopping`: where a process can stand once a goal has been committed.
* `goal_is_final`: where every goal's batch is still to be replayed when a process starts or
  pauses, and comes out with a goal again, a goal is final.
-/

namespace Orchestrator.Server

open Core Services Lib

variable {F : Type} [Float64 F] {exp : Experiment F}

/-! ### The statement -/

/-- The batch that has been committed with a goal. -/
def Event.reaches : Event F → Option Nat
  | .committed seq (some _) _ => some seq
  | _ => none

/-- The batch that is dispatched. -/
def Event.dispatches : Event F → Option Nat
  | .walWritten seq | .submitted seq => some seq
  | _ => none

/-- The runner that goes on to replay or to select: one that starts, or pauses. -/
def Event.goesOn : Event F → Option (Runner F)
  | .started r => some r
  | .checkpointBegan r => if r.status = .paused then some r else none
  | _ => none

/-- The batch that has been committed without a goal. -/
def Event.misses : Event F → Option Nat
  | .committed seq none _ => some seq
  | _ => none

/-- Once a goal has been committed, only batches that had an intent then are dispatched. -/
def Final (log : List (Entry F)) : Prop :=
  log.Pairwise fun e e' => e.event.reaches.isSome = true →
    ∀ seq ∈ e'.event.dispatches, e.store.wal[seq]?.isSome = true

/-- A batch the runner will replay. -/
def Runner.Replays (r : Runner F) (seq : Nat) : Prop :=
  (∃ i ∈ r.replayQueue, i.seq = seq) ∨ r.current.map (·.seq) = some seq

/-- A runner that starts or pauses after a goal will replay the goal's batch, and a batch that
came out with a goal does so whenever it is committed. -/
def Heeded (log : List (Entry F)) : Prop :=
  log.Pairwise fun e e' => ∀ seq ∈ e.event.reaches,
    (∀ r ∈ e'.event.goesOn, r.Replays seq) ∧ e'.event.misses ≠ some seq

instance (r : Runner F) (seq : Nat) : Decidable (r.Replays seq) :=
  inferInstanceAs (Decidable (_ ∨ _))

instance (log : List (Entry F)) : Decidable (Final log) :=
  inferInstanceAs (Decidable (List.Pairwise _ log))

instance (log : List (Entry F)) : Decidable (Heeded log) :=
  inferInstanceAs (Decidable (List.Pairwise _ log))

/-! ### Where a process stands after a goal -/

/-- At rest after batch `seq` has come out with a goal. -/
def Rest.Stops (r : Runner F) (seq : Nat) : Rest → Prop
  | .loop => False
  | .replay | .popped _ => r.Replays seq
  | .booted | .pausing | .ending | .failed => True

/-- At a point after batch `seq` has come out with a goal: a process that starts does not know
of it, one that replays still has the batch before it, and no process selects. -/
def Point.Stops (r : Runner F) (seq : Nat) : Point F → Prop
  | .start | .ended | .fresh | .bootstrapped _ | .rootReady _ _ | .rootStored _ | .found _ _
  | .resuming _ | .collecting _ _ _ _ | .loaded _ _ | .adopted _ _ _ | .restored _ _ _
  | .ready _ _ | .starting | .torn _ => True
  | .at c | .completed c _ | .taken c _ | .answered c _ _ | .scored c _ _ | .owned c _ _
  | .storing c _ _ _ _ | .parentDue c _ _ _ | .updated c _ _ _ | .settling c _ _ =>
    c.Stops r seq
  | .began c | .archived c _ | .truncating c _ _ => c ≠ .pausing ∧ c.Stops r seq
  | .settled c d _ => c.Stops r seq ∨ seq = d.seq
  | .filling | .selecting _ | .dispatching _ | .requested false _ _ | .offered false _ _ _
  | .proposed false _ _ | .walled _ _ | .submitted _ => False
  | .requested true _ _ | .offered true _ _ _ | .proposed true _ _ | .sent _ | .replayTaken _
  | .replayScored _ _ | .replaying _ _ _ _ | .acting _ _ _ _ _ _ => r.Replays seq

/-- The intent that is replayed at a point. -/
def Point.replayed : Point F → Option ExpansionIntent
  | .at (.popped i) | .began (.popped i) | .archived (.popped i) _ | .truncating (.popped i) _ _
  | .requested true i _ | .offered true i _ _ | .proposed true i _ => some i
  | _ => none

/-- After a goal whose commit left the store `s`: what the runner may still replay and what a
later process may find were already there. -/
structure Stopping (p : Point F) (r : Runner F) (now s : Store F) (seq : Nat) : Prop where
  wal : ∀ k : Nat, now.wal[k]?.isSome = true → s.wal[k]?.isSome = true
  queue : ∀ i ∈ r.replayQueue, s.wal[i.seq]?.isSome = true
  replayed : ∀ i, p.replayed = some i → s.wal[i.seq]?.isSome = true
  stops : p.Stops r seq

section

variable {p p' : Point F} {r r' : Runner F} {now now' s : Store F} {seq : Nat}

theorem Point.stops_onError (p : Point F) (r : Runner F) (seq : Nat) : p.onError.Stops r seq := by
  cases p with
  | «at» c | completed c _ | began c | archived c _ | truncating c _ _ => cases c <;> trivial
  | _ => trivial

theorem Point.replayed_onError (p : Point F) : p.onError.replayed = none := by
  cases p with
  | «at» c | completed c _ | began c | archived c _ | truncating c _ _ => cases c <;> rfl
  | _ => rfl

theorem Point.Stops.congr (h : p.Stops r seq) (hq : r'.replayQueue = r.replayQueue)
    (hc : r'.current = r.current) : p.Stops r' seq := by
  unfold Point.Stops Rest.Stops Runner.Replays at h ⊢
  rw [hq, hc]
  exact h

/-- A step that leaves the replay queue and the intent at hand alone. -/
theorem Stopping.move (h : Stopping p r now s seq) (hq : r'.replayQueue = r.replayQueue)
    (hc : r'.current = r.current) (hr : p'.replayed = p.replayed ∨ p'.replayed = none)
    (hp : p.Stops r seq → p'.Stops r seq) : Stopping p' r' now s seq := by
  refine ⟨h.wal, hq ▸ h.queue, fun i hi => ?_, (hp h.stops).congr hq hc⟩
  rcases hr with hr | hr
  · exact h.replayed i (hr ▸ hi)
  · rw [hr] at hi
    cases hi

theorem Stopping.onError (h : Stopping p r now s seq) : Stopping p.onError r now s seq :=
  h.move rfl rfl (.inr p.replayed_onError) fun _ => p.stops_onError r seq

theorem Stopping.shrink (h : Stopping p r now s seq)
    (hw : ∀ k : Nat, now'.wal[k]?.isSome = true → now.wal[k]?.isSome = true) :
    Stopping p r now' s seq :=
  ⟨fun k hk => h.wal k (hw k hk), h.queue, h.replayed, h.stops⟩

/-! ### Steps without a call -/

theorem Local.stopping (hl : Local exp p r p' r') (hs : Sequenced p r now)
    (h : Stopping p r now s seq) : Stopping p' r' now s seq := by
  cases hl with
  | touch hsame => exact h.move hsame.replayQueue hsame.current (.inl rfl) id
  | fail => exact h.onError
  | @books cp intents =>
    -- what a resume loads is in the write-ahead log
    obtain ⟨top, hwin, hseqs⟩ := hs.tracks
    refine ⟨h.wal, fun i hi => h.wal _ ?_, by simp [Point.replayed], trivial⟩
    have hmem : i.seq ∈ intents.map (·.seq) := List.mem_map_of_mem hi
    rw [hseqs, List.mem_range'_1] at hmem
    exact (hwin.mem i.seq hmem.1).mpr (by omega)
  | @pop _ i rest hq =>
    have hqueue := h.queue
    rw [hq] at hqueue
    refine ⟨h.wal, fun j hj => hqueue j (List.mem_cons_of_mem i hj), fun j hj => ?_, ?_⟩
    · cases hj
      exact hqueue i List.mem_cons_self
    · rcases h.stops with ⟨j, hj, rfl⟩ | hcurrent
      · rw [hq] at hj
        rcases List.mem_cons.mp hj with rfl | hj
        · exact .inr rfl
        · exact .inl ⟨j, hj, rfl⟩
      · rw [hs.placed.2] at hcurrent
        cases hcurrent
  | enterLoop hq =>
    rcases h.stops with ⟨j, hj, -⟩ | hcurrent
    · rw [hq] at hj
      cases hj
    · rw [hs.placed.2] at hcurrent
      cases hcurrent
  | pausing | ending | fill | filled | selected | unselected | flight => exact h.stops.elim
  | @accepted replay =>
    cases replay with
    | true => exact h.move rfl rfl (.inl rfl) id
    | false => exact h.stops.elim
  | @take c =>
    obtain ⟨hc, -⟩ := hs.placed
    have hstops := h.stops
    cases c with
    | pausing | ending => exact ⟨h.wal, h.queue, by simp [Point.replayed], trivial⟩
    | loop => exact hstops.elim
    | _ => cases hc
  | @settle c d goal =>
    rw [addGoal_inflight]
    refine ⟨h.wal, h.queue, by simp [Point.replayed], ?_⟩
    have hplaced := hs.placed
    have hstops := h.stops
    cases c with
    | replay =>
      rcases hstops with hqueue | hcurrent
      · exact .inl (.inl hqueue)
      · exact .inr (Option.some.inj (hcurrent.symm.trans hplaced.2))
    | loop => exact hstops.elim
    | pausing | ending => exact .inl trivial
    | _ => cases hplaced
  | @truncated c =>
    obtain ⟨hne, hstops⟩ := h.stops
    cases c with
    | pausing => exact absurd rfl hne
    | popped i => exact ⟨h.wal, h.queue, h.replayed, hstops⟩
    | _ => exact ⟨h.wal, h.queue, by simp [Point.replayed, Rest.afterCheckpoint], hstops⟩
  | commitFailed | replayChildFailed | replayParentFailed =>
    exact h.move rfl rfl (.inr rfl) fun _ => trivial
  | _ => exact h.move rfl rfl (.inr rfl) id

end

/-! ### Calls -/

/-- Every goal so far is final, and the process is stopping after each of them. -/
structure Stopped (p : Point F) (r : Runner F) (w : World F) : Prop where
  final : Final w.log
  stopping : ∀ e ∈ w.log, ∀ seq, e.event.reaches = some seq → Stopping p r w.store e.store seq

section

variable {p p' : Point F} {r r' : Runner F} {w w₁ w' : World F}

variable {log : List (Entry F)} {op : Op F} {a : Ans F op}

theorem Final.concat {e : Entry F} (h : Final log)
    (he : ∀ x ∈ log, x.event.reaches.isSome = true → ∀ seq ∈ e.event.dispatches,
      x.store.wal[seq]?.isSome = true) : Final (log ++ [e]) :=
  List.pairwise_append.mpr ⟨h, List.pairwise_singleton _ _, fun x hx _ hy =>
    List.mem_singleton.mp hy ▸ he x hx⟩

theorem Heeded.of_prefix {log' : List (Entry F)} (h : Heeded log') (hpre : log <+: log') :
    Heeded log :=
  h.sublist hpre.sublist

/-- What the last entry of a heeded log says after a goal. -/
theorem Heeded.last {e x : Entry F} (h : Heeded (log ++ [e])) (hx : x ∈ log) {seq : Nat}
    (hseq : x.event.reaches = some seq) :
    (∀ r ∈ e.event.goesOn, r.Replays seq) ∧ e.event.misses ≠ some seq :=
  (List.pairwise_append.mp h).2.2 x hx e (List.mem_singleton.mpr rfl) seq hseq

theorem Stopped.mono (h : Stopped p r w)
    (hm : ∀ s seq, Stopping p r w.store s seq → Stopping p' r' w.store s seq) :
    Stopped p' r' w :=
  ⟨h.final, fun e he seq hseq => hm e.store seq (h.stopping e he seq hseq)⟩

/-- A step to a point that says the same of a goal. -/
theorem Stopped.move (h : Stopped p r w) (hq : r'.replayQueue = r.replayQueue)
    (hc : r'.current = r.current) (hr : p'.replayed = p.replayed ∨ p'.replayed = none)
    (hp : ∀ seq, p.Stops r seq → p'.Stops r seq) : Stopped p' r' w :=
  h.mono fun _ seq hs => hs.move hq hc hr (hp seq)

theorem Stopped.onError (h : Stopped p r w) : Stopped p.onError r w :=
  h.mono fun _ _ => Stopping.onError

theorem Stopped.setStore {store : Store F} (h : Stopped p r w)
    (hw : ∀ k : Nat, store.wal[k]?.isSome = true → w.store.wal[k]?.isSome = true) :
    Stopped p r (w.setStore store) :=
  ⟨h.final, fun e he seq hseq => (h.stopping e he seq hseq).shrink hw⟩

/-- An event that is no goal and dispatches only what there was at every goal. -/
theorem Stopped.record {e : Event F} (h : Stopped p r w) (hr : e.reaches = none)
    (hd : ∀ x ∈ w.log, x.event.reaches.isSome = true → ∀ k ∈ e.dispatches,
      x.store.wal[k]?.isSome = true) : Stopped p r (w.record e) := by
  refine ⟨h.final.concat hd, fun x hx seq hseq => ?_⟩
  rcases List.mem_append.mp hx with hx | hx
  · exact h.stopping x hx seq hseq
  · rw [List.mem_singleton.mp hx] at hseq
    cases hr.symm.trans hseq

/-- An event that is no goal and no dispatch. -/
theorem Stopped.note {e : Event F} (h : Stopped p r w) (hr : e.reaches = none)
    (hd : e.dispatches = none) : Stopped p r (w.record e) :=
  h.record hr fun _ _ _ _ hk => by cases hd.symm.trans hk

theorem Applied.stopped (happ : Applied op w w₁) (hop : op.marks = false) (h : Stopped p r w) :
    Stopped p r w₁ := by
  cases happ with
  | putCheckpoint | putWal | deleteWal | submit | record => cases hop
  | createNode hc =>
    refine h.setStore ?_
    rcases Store.createNode_ok hc with ⟨-, -, -, rfl⟩ | ⟨-, -, -, rfl⟩ <;> exact fun _ => id
  | updateNode hu =>
    obtain ⟨_, -, rfl⟩ := Store.updateNode_ok hu
    exact h.setStore fun _ => id
  | buildPropose => exact h.note rfl rfl
  | _ => exact ⟨h.final, h.stopping⟩

theorem Stopped.frame (h : Stopped p r w) (ha : env exp op w a w') (hop : op.marks = false) :
    Stopped p r w' :=
  env_induct ha h (fun _ happ => happ.stopped hop h) fun _ _ h => h.note rfl rfl

theorem Stopped.deleteWal {k : Nat} (h : Stopped p r w) (happ : Applied (.deleteWal k) w w₁) :
    Stopped p r w₁ := by
  cases happ with
  | deleteWal hdelete =>
    rw [Store.deleteWal_ok hdelete]
    refine (h.setStore fun j hj => ?_).note rfl rfl
    rw [getElem?_erase_if] at hj
    split at hj
    · cases hj
    · exact hj

theorem Issues.stopped (hi : Issues exp p r op) (happ : Applied op w w₁) (h : Stopped p r w) :
    Stopped p r w₁ := by
  -- a process that selects has no goal behind it
  have hselects : (∀ seq, ¬ p.Stops r seq) → ∀ x ∈ w.log, x.event.reaches.isSome = true → False :=
    fun hp x hx hreached => by
      obtain ⟨seq, hseq⟩ := Option.isSome_iff_exists.mp hreached
      exact hp seq (h.stopping x hx seq hseq).stops
  cases hi with
  | write =>
    cases happ with
    | putWal =>
      refine ⟨h.final.concat fun x hx hreached => (hselects (fun _ => id) x hx hreached).elim,
        fun x hx seq hseq => ?_⟩
      rcases List.mem_append.mp hx with hx | hx
      · exact (hselects (fun _ => id) x hx (by rw [hseq]; rfl)).elim
      · rw [List.mem_singleton.mp hx] at hseq
        cases hseq
  | submit =>
    cases happ with
    | submit => exact h.record rfl fun x hx hreached => (hselects (fun _ => id) x hx hreached).elim
  | submitReplay hseq =>
    cases happ with
    | submit =>
      refine h.record rfl fun x hx hreached k hk => ?_
      obtain ⟨seq, hreached⟩ := Option.isSome_iff_exists.mp hreached
      cases hk
      rw [hseq]
      exact (h.stopping x hx seq hreached).replayed _ rfl
  | put =>
    cases happ with
    | putCheckpoint hput =>
      rw [(Store.putCheckpoint_ok hput).2.2]
      exact Stopped.note (h.setStore fun _ => id) rfl rfl
  | truncate => exact h.deleteWal happ
  | _ => exact happ.stopped rfl h

theorem Stopped.issued (h : Stopped p r w) (hi : Issues exp p r op) (ha : env exp op w a w') :
    Stopped p r w' :=
  env_induct ha h (fun _ happ => hi.stopped happ h) fun _ _ h => h.note rfl rfl

/-- What is queued for replay is in the write-ahead log. -/
theorem Spans.queue_wal {s : Store F} {i : ExpansionIntent} (h : Spans r s r.batchSeq)
    (hn : Numbers r) (hi : i ∈ r.replayQueue) : s.wal[i.seq]?.isSome = true := by
  have hmem : i.seq ∈ r.replayQueue.map (·.seq) := List.mem_map_of_mem hi
  rw [hn.queue, List.mem_range'_1] at hmem
  have hle := hn.le
  obtain ⟨-, -, -, -, hwal⟩ := h.kept hmem.1 (by omega)
  exact hwal

/-- The end of a commit: a goal ends the run or the pause's drain, and without a goal the
batch is none that came out with one before. -/
theorem Stopped.committed {c : Rest} {d : BatchResult} {goal : Option NodeId}
    (h : Stopped (.settled c d goal) r w) (hstop : exp.onGoal = .stop)
    (hs : Sequenced (.settled c d goal) r w.store)
    (hlog : Heeded (w.record (.committed d.seq goal r)).log) :
    Stopped (.at (c.afterCommit exp goal)) r (w.record (.committed d.seq goal r)) := by
  obtain ⟨hc, -⟩ := hs.placed
  have hreplayed : (.at (c.afterCommit exp goal) : Point F).replayed = none := by
    cases c with
    | replay | loop =>
      simp only [Rest.afterCommit]
      split <;> rfl
    | pausing | ending => rfl
    | _ => cases hc
  have hgoal : goal.isSome = true → ∀ seq, (c.afterCommit exp goal).Stops r seq := by
    intro hsome seq
    cases c with
    | replay | loop =>
      rw [Rest.afterCommit, if_pos ⟨hsome, hstop⟩]
      trivial
    | pausing | ending => trivial
    | _ => cases hc
  have hnone : goal = none → c.afterCommit exp goal = c := by
    rintro rfl
    cases c <;> simp [Rest.afterCommit]
  refine ⟨h.final.concat (by simp [Event.dispatches]), fun x hx seq hseq => ?_⟩
  rcases List.mem_append.mp hx with hold | hnew
  · have hstopping := h.stopping x hold seq hseq
    refine ⟨hstopping.wal, hstopping.queue, by simp [hreplayed], ?_⟩
    cases goal with
    | some g => exact hgoal rfl seq
    | none =>
      rcases hstopping.stops with hstops | rfl
      · rw [hnone rfl]
        exact hstops
      · exact absurd rfl (Heeded.last hlog hold hseq).2
  · rw [List.mem_singleton.mp hnew] at hseq ⊢
    have hsome : goal.isSome = true := by
      cases goal with
      | none => cases hseq
      | some g => rfl
    exact ⟨fun _ => id, fun i hi => Spans.queue_wal hs.tracks hs.numbers hi, by simp [hreplayed],
      hgoal hsome seq⟩

theorem Next.stopped (hn : Next exp p r op a p' r') (hstop : exp.onGoal = .stop)
    (ha : env exp op w a w') (hs : Sequenced p r w.store) (hlog : Heeded w'.log)
    (h : Stopped p r w) : Stopped p' r' w' := by
  cases hn with
  | quiet hq => exact h.frame ha (by cases op <;> simp_all [Op.quiet, Op.marks])
  | failed hi => exact (h.issued hi ha).onError
  | stale => exact env_induct ha h (fun _ => h.deleteWal) fun _ _ h => h.note rfl rfl
  | started =>
    obtain rfl := env_record ha
    refine Stopped.note ⟨h.final, fun x hx seq hseq => ?_⟩ rfl rfl
    have hold := h.stopping x hx seq hseq
    exact ⟨hold.wal, hold.queue, by simp [Point.replayed],
      (Heeded.last hlog hx hseq).1 r rfl⟩
  | @began c _ hpaused =>
    obtain rfl := env_record ha
    refine Stopped.note ⟨h.final, fun x hx seq hseq => ?_⟩ rfl rfl
    have hold := h.stopping x hx seq hseq
    have hr : (.began c : Point F).replayed = (.at c : Point F).replayed := by cases c <;> rfl
    refine ⟨hold.wal, hold.queue, hr ▸ hold.replayed, ?_, hold.stops⟩
    rintro rfl
    -- a runner that pauses after its drain has nothing left to replay
    have hgoes : (.checkpointBegan r : Event F).goesOn = some r := if_pos (hpaused rfl)
    rcases (Heeded.last hlog hx hseq).1 r hgoes with ⟨i, hi, -⟩ | hcurrent
    · rw [hs.placed.1] at hi
      cases hi
    · rw [hs.placed.2] at hcurrent
      cases hcurrent
  | committed =>
    obtain rfl := env_record ha
    exact h.committed hstop hs hlog
  | select | scored | aborted =>
    obtain rfl := env_record ha
    refine Stopped.note ?_ rfl rfl
    exact h.move rfl rfl (.inr rfl) fun _ => id
  | written => exact (h.issued .write ha).move rfl rfl (.inr rfl) fun _ => id
  | submitted hseq hp hb =>
    exact (h.issued (.submit hseq hp hb) ha).move rfl rfl (.inr rfl) fun _ => id
  | submittedReplay hseq hp hb =>
    exact (h.issued (.submitReplay hseq hp hb) ha).move rfl rfl (.inr rfl) fun _ => id
  | @put c _ _ _ _ hv =>
    exact (h.issued (.put hv) ha).move rfl rfl (.inl (by cases c <;> rfl)) fun _ => id
  | @truncated c =>
    exact (h.issued .truncate ha).move rfl rfl (.inl (by cases c <;> rfl)) fun _ => id
  | @archived c | @archivedAgain c =>
    exact (h.frame ha rfl).move rfl rfl (.inl (by cases c <;> rfl)) fun _ => id
  | @offered replay => cases replay <;> exact (h.frame ha rfl).move rfl rfl (.inl rfl) fun _ => id
  | buildReplay => exact (h.frame ha rfl).move rfl rfl (.inl rfl) fun _ => id
  | checked | checkedReplay => exact h.frame ha rfl
  | rootReplayed => exact (h.frame ha rfl).move rfl rfl (.inr rfl) fun _ _ => trivial
  | _ => exact (h.frame ha rfl).move rfl rfl (.inr rfl) fun _ => id

end

theorem Reach.stopped {p : Point F} {r : Runner F} {w : World F} (h : Reaches exp p r w)
    (hstop : exp.onGoal = .stop) (hlog : Heeded w.log) : Stopped p r w := by
  induction h with
  | init hw =>
    subst hw
    exact ⟨List.Pairwise.nil, fun e he => by cases he⟩
  | restart _ _ ih =>
    have h := ih hlog
    exact ⟨h.final, fun e he seq hseq => ⟨(h.stopping e he seq hseq).wal, by simp [Runner.initial],
      by simp [Point.replayed], trivial⟩⟩
  | loc h hl ih =>
    have hold := ih hlog
    exact ⟨hold.final, fun e he seq hseq => hl.stopping h.sequenced (hold.stopping e he seq hseq)⟩
  | call h hn ha ih =>
    exact hn.stopped hstop ha h.sequenced hlog (ih (hlog.of_prefix (env_log ha).1))

/-! ### Whole runs -/

/-- **A goal is final.** With `on_goal` set to stop, in every run, with any completion order,
control messages, kills and failing calls, in which a runner that starts or pauses after a goal
still has the goal's batch to replay and that batch always comes out with a goal: once a goal
has been committed, nothing is dispatched that had no intent then. -/
theorem goal_is_final (exp : Experiment F) (hstop : exp.onGoal = .stop)
    {s : Solo (Op F) (Ans F) (World F)}
    (h : Solo.Steps (env exp) (boot exp) ⟨.empty, none⟩ s) (hlog : Heeded s.world.log) :
    Final s.world.log := by
  obtain ⟨p, r, hreach⟩ := reaches_of_steps h
  exact (hreach.stopped hstop hlog).final

/-- Every batch arrives at a goal. -/
def striking : Experiment Int :=
  { sample with
    execute := fun batch => batch.bursts.map fun burst =>
      sampleJob burst.burstId [10 + batch.seq, 10 + batch.seq, 10 + batch.seq, 1, 0] }

/-- A process killed after the checkpoint of its goal, and the next one, which selects. -/
def killedAfterGoalCheckpoint : List (List Choice) :=
  [List.replicate 47 .answer, List.replicate 40 .answer]

theorem goal_forgotten :
    striking.onGoal = .stop ∧
      ∃ s, Solo.Steps (env striking) (boot striking) ⟨.empty, none⟩ s ∧ ¬ Final s.world.log := by
  have hforgotten : ¬ Final (evaluate striking killedAfterGoalCheckpoint).log := by
    decide +kernel
  exact ⟨rfl, _, steps_evaluate striking killedAfterGoalCheckpoint, hforgotten⟩

/-- A process killed between its goal and the checkpoint of it, and the next one, which replays
the goal's batch and ends. -/
def killedBeforeGoalCheckpoint : List (List Choice) :=
  [List.replicate 38 .answer, List.replicate 60 .answer]

theorem goal_is_final_killedBeforeGoalCheckpoint :
    ((evaluate striking killedBeforeGoalCheckpoint).log.filterMap (·.event.reaches)) = [0, 0] ∧
      Final (evaluate striking killedBeforeGoalCheckpoint).log := by
  have hgoals : (evaluate striking killedBeforeGoalCheckpoint).log.filterMap (·.event.reaches) =
      [0, 0] := by
    decide +kernel
  have hheeded : Heeded (evaluate striking killedBeforeGoalCheckpoint).log := by
    decide +kernel
  have hsteps := steps_evaluate striking killedBeforeGoalCheckpoint
  generalize evaluate striking killedBeforeGoalCheckpoint = w at hgoals hheeded hsteps ⊢
  exact ⟨hgoals, goal_is_final striking rfl hsteps hheeded⟩

end Orchestrator.Server
