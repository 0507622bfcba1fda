import Orchestrator.Server.Window

/-! # Server — Coverage

What a checkpoint covers. A batch is open from the moment its intent is written, or queued by a
resume, until its commit has been applied. A checkpoint must not reach past an open batch, and
no intent of one may be deleted: the next process would not know of it.

The number a checkpoint stores is the head of the replay queue, or else the next number. It
knows nothing of the batches in flight, nor of the intent that was just taken from the queue.

* `outstanding`: the open batches after a log.
* `Covering`: an open batch is in the window of the store and in the runner's memory.
* `checkpoints_cover`: where no checkpoint begins with a batch in flight or at hand, every
  checkpoint spares the open batches.
-/

namespace Orchestrator.Server

open Core Services Lib

variable {F : Type} [Float64 F] {exp : Experiment F}

/-! ### Open batches -/

/-- The batches an event opens: their intent is written, they are submitted, or a start queues
them for replay. -/
def Event.opens : Event F → List Nat
  | .walWritten seq | .submitted seq => [seq]
  | .started r => r.replayQueue.map (·.seq)
  | _ => []

/-- The batch an event closes. -/
def Event.closes : Event F → Option Nat
  | .committed seq _ _ => some seq
  | _ => none

/-- The open batches after one more event. -/
def Event.owes (owed : List Nat) (e : Event F) : List Nat :=
  e.opens ++ owed.filter (e.closes ≠ some ·)

/-- The batches that were dispatched or queued for replay and have not been committed since. -/
def outstanding (log : List (Entry F)) : List Nat :=
  log.foldl (fun owed e => e.event.owes owed) []

/-- A checkpoint is at or below every open batch and leaves its intent for the next process; a
deleted intent is of no open batch. -/
def Entry.Spares (owed : List Nat) (e : Entry F) : Prop :=
  match e.event with
  | .checkpointed covered => ∀ seq ∈ owed, covered ≤ seq ∧ e.store.wal[seq]?.isSome = true
  | .walDeleted seq => seq ∉ owed
  | _ => True

/-- Every entry spares the batches that were open before it. -/
def Covered (log : List (Entry F)) : Prop :=
  ∀ (i : Nat) (e : Entry F), log[i]? = some e → e.Spares (outstanding (log.take i))

/-- No checkpoint begins with a batch in flight or at hand. -/
def Drained (log : List (Entry F)) : Prop :=
  ∀ e ∈ log, ∀ r, e.event = .checkpointBegan r → r.inflight = [] ∧ r.current = none

section

variable {log log' : List (Entry F)} {e : Entry F} {seq : Nat}

theorem outstanding_concat : outstanding (log ++ [e]) = e.event.owes (outstanding log) := by
  rw [outstanding, List.foldl_append]
  rfl

theorem Event.mem_owes {owed : List Nat} {ev : Event F} :
    seq ∈ ev.owes owed ↔ seq ∈ ev.opens ∨ seq ∈ owed ∧ ev.closes ≠ some seq := by
  simp [Event.owes]

theorem Covered.concat (h : Covered log) (he : e.Spares (outstanding log)) :
    Covered (log ++ [e]) := by
  intro i x hx
  rcases getElem?_concat_eq_some hx with hx | ⟨rfl, rfl⟩
  · rw [List.take_append_of_le_length (List.getElem?_eq_some_iff.mp hx).1.le]
    exact h i x hx
  · rw [List.take_left]
    exact he

theorem Drained.of_prefix (h : Drained log') (hpre : log <+: log') : Drained log :=
  fun e he => h e (hpre.mem he)

end

/-! ### Where an open batch is -/

/-- The store will hand the batch to the next process: its intent is in the window. -/
def Kept (s : Store F) (seq : Nat) : Prop :=
  ∃ cp g, s.checkpoint = some (cp, g) ∧ cp.batchSeq ≤ seq ∧ s.wal[seq]?.isSome = true

/-- The intents in a runner's memory: those to replay, those in flight and the one at hand. -/
def Runner.work (r : Runner F) : List ExpansionIntent :=
  r.replayQueue ++ r.inflight ++ r.current.toList

/-- A batch in the runner's memory. -/
def Runner.Works (r : Runner F) (seq : Nat) : Prop := ∃ i ∈ r.work, i.seq = seq

/-- A batch the runner has not committed. -/
def Runner.Holds (r : Runner F) (seq : Nat) : Prop := r.batchSeq ≤ seq ∨ r.Works seq

/-- What a point says of an open batch: a resume does not know it yet, and the number of a
settled one is only in the point. -/
def Point.Holds (r : Runner F) (seq : Nat) : Point F → Prop
  | .found _ _ | .resuming _ | .collecting _ _ _ _ | .loaded _ _ | .adopted _ _ _
  | .restored _ _ _ | .ready _ _ | .ended => True
  | .settled _ d _ => r.Holds seq ∨ seq = d.seq
  | _ => r.Holds seq

/-- A checkpoint in progress, before its put, has nothing in flight and nothing at hand. -/
def Point.Unladen (r : Runner F) : Point F → Prop
  | .began _ | .archived _ _ => r.inflight = [] ∧ r.current = none
  | _ => True

/-- The log spares the open batches, and the store keeps them and what the runner works on. -/
structure Spared (r : Runner F) (w : World F) : Prop where
  covered : Covered w.log
  kept : ∀ seq, seq ∈ outstanding w.log ∨ r.Works seq → Kept w.store seq

/-- An open batch is in the window of the store and in the runner's memory. -/
structure Covering (p : Point F) (r : Runner F) (w : World F) : Prop extends Spared r w where
  held : ∀ seq ∈ outstanding w.log, p.Holds r seq
  unladen : p.Unladen r

section

variable {p p' : Point F} {r r' : Runner F} {s : Store F} {w w₁ w' : World F} {seq : Nat}

theorem Runner.works_iff : r.Works seq ↔ (∃ i ∈ r.replayQueue, i.seq = seq) ∨
    (∃ i ∈ r.inflight, i.seq = seq) ∨ r.current.map (·.seq) = some seq := by
  simp only [Runner.Works, Runner.work, List.mem_append, Option.mem_toList, Option.map_eq_some_iff,
    or_and_right, exists_or, or_assoc]

theorem Point.Holds.onError (h : p.Holds r seq) : p.onError.Holds r seq := by
  cases p with
  | «at» c | completed c _ | began c | archived c _ | truncating c _ _ =>
    cases c with
    | booted => trivial
    | _ => exact h
  | found | resuming | collecting | loaded | adopted | restored | ready | ended | start | fresh
  | bootstrapped | rootReady | rootStored | starting | settled => trivial
  | _ => exact h

theorem Point.unladen_onError (p : Point F) (r : Runner F) : p.onError.Unladen r := by
  cases p with
  | «at» c | completed c _ | began c | archived c _ | truncating c _ _ => cases c <;> trivial
  | _ => trivial

theorem Spans.kept {top : Nat} (h : Spans r s top) (hle : effectiveCheckpointSeq r ≤ seq)
    (hlt : seq < top) : Kept s seq := by
  obtain ⟨cp, g, hcp, hlow, hwin⟩ := h
  have hseq := Nat.le_trans hlow hle
  exact ⟨cp, g, hcp, hseq, (hwin.mem seq hseq).mpr hlt⟩

theorem Kept.of_store {s' : Store F} (h : Kept s seq) (hw : s'.wal = s.wal)
    (hc : s'.checkpoint = s.checkpoint) : Kept s' seq := by
  obtain ⟨cp, g, hcp, hle, hwal⟩ := h
  exact ⟨cp, g, hc ▸ hcp, hle, hw ▸ hwal⟩

/-- A batch to replay or past the last number is not below what a checkpoint stores. -/
theorem Numbers.le_of_holds (hn : Numbers r) (hi : r.inflight = []) (hc : r.current = none)
    (h : r.Holds seq) : effectiveCheckpointSeq r ≤ seq := by
  rcases h with h | h
  · exact Nat.le_trans hn.le h
  · rcases Runner.works_iff.mp h with ⟨i, hi, rfl⟩ | ⟨i, hmem, -⟩ | h
    · have hmem : i.seq ∈ r.replayQueue.map (·.seq) := List.mem_map_of_mem hi
      rw [hn.queue] at hmem
      exact (List.mem_range'_1.mp hmem).1
    · rw [hi] at hmem
      cases hmem
    · rw [hc] at h
      cases h

/-! ### Steps without a call -/

theorem Covering.congr (h : Covering p r w) (hs : r'.batchSeq = r.batchSeq)
    (hw : r'.work = r.work) (hp : ∀ seq, p.Holds r seq → p'.Holds r seq) (hu : p'.Unladen r') :
    Covering p' r' w := by
  have hworks : ∀ seq, r'.Works seq ↔ r.Works seq := fun seq => by rw [Runner.Works, hw]; rfl
  have hholds : ∀ seq, p'.Holds r seq → p'.Holds r' seq := by
    intro seq hseq
    cases p' <;> simp only [Point.Holds, Runner.Holds, hs, hworks] at hseq ⊢ <;> exact hseq
  refine ⟨⟨h.covered, fun seq hseq => h.kept seq ?_⟩, fun seq hseq => ?_, hu⟩
  · rwa [hworks] at hseq
  · exact hholds seq (hp seq (h.held seq hseq))

theorem Covering.onError (h : Covering p r w) : Covering p.onError r w :=
  h.congr rfl rfl (fun _ => Point.Holds.onError) (p.unladen_onError r)

variable {cp : Checkpoint F} {i : ExpansionIntent} {d : BatchResult} {e : Event F}

/-- The books of a resume queue every open batch. -/
theorem Covering.books {intents : List ExpansionIntent} (h : Covering (.ready cp intents) r w)
    (hplaced : Rest.Placed r .replay) (hload : Loaded w.store cp intents)
    (hcp : w.store.checkpoint.map (·.1) = some cp) :
    Covering .starting (restoreBooks exp cp intents r) w := by
  obtain ⟨⟨hinflight, -⟩, hcurrent⟩ := hplaced
  obtain ⟨top, hwin, hseqs⟩ := hload
  obtain ⟨⟨cp, g⟩, hckpt, rfl⟩ := Option.map_eq_some_iff.mp hcp
  have hqueue : ∀ seq, (∃ i ∈ intents, i.seq = seq) ↔ Kept w.store seq := by
    intro seq
    have hmem : (∃ i ∈ intents, i.seq = seq) ↔ seq ∈ intents.map (·.seq) := by simp
    rw [hmem, hseqs, List.mem_range'_1, Nat.add_sub_cancel' hwin.le]
    constructor
    · rintro ⟨hle, hlt⟩
      exact ⟨_, g, hckpt, hle, (hwin.mem seq hle).mpr hlt⟩
    · rintro ⟨cp', g', hcp', hle, hwal⟩
      obtain rfl : _ = cp' := congrArg Prod.fst (Option.some.inj (hckpt.symm.trans hcp'))
      exact ⟨hle, (hwin.mem seq hle).mp hwal⟩
  have hworks : ∀ seq, (restoreBooks exp cp intents r).Works seq ↔ Kept w.store seq := by
    intro seq
    rw [← hqueue, Runner.works_iff]
    simp [restoreBooks, hinflight, hcurrent]
  refine ⟨⟨h.covered, fun seq hseq => ?_⟩, fun seq hseq => ?_, trivial⟩
  · rcases hseq with hseq | hseq
    · exact h.kept seq (.inl hseq)
    · exact (hworks seq).mp hseq
  · exact .inr ((hworks seq).mpr (h.kept seq (.inl hseq)))

/-- A dispatched batch is in flight, its intent in the window. -/
theorem Covering.flight (h : Covering (.submitted i) r w) (hi : i.seq = r.batchSeq) (hn : Numbers r)
    (hs : Spans r w.store (r.batchSeq + 1)) : Covering .filling (enterFlight i r) w := by
  have hworks : ∀ seq, (enterFlight i r).Works seq ↔ r.Works seq ∨ seq = i.seq := by
    intro seq
    rw [hn.enterFlight_eq hi, Runner.works_iff, Runner.works_iff]
    simp only [List.mem_append, List.mem_singleton, or_and_right, exists_or, exists_eq_left,
      eq_comm (a := seq), or_comm, or_left_comm]
  have hseq : (enterFlight i r).batchSeq = r.batchSeq + 1 := by rw [hn.enterFlight_eq hi]
  refine ⟨⟨h.covered, fun seq hopen => ?_⟩, fun seq hopen => ?_, trivial⟩
  · rcases hopen with hopen | hopen
    · exact h.kept seq (.inl hopen)
    · rcases (hworks seq).mp hopen with hopen | rfl
      · exact h.kept seq (.inr hopen)
      · exact hs.kept (by rw [hi]; exact hn.le) (by omega)
  · rcases h.held seq hopen with hle | hw
    · rcases Nat.eq_or_lt_of_le hle with heq | hlt
      · exact .inr ((hworks seq).mpr (.inr (by omega)))
      · exact .inl (by omega)
    · exact .inr ((hworks seq).mpr (.inl hw))

variable {c : Rest} {op : Op F} {a : Ans F op}

/-- A completed batch is taken from those in flight to hand. -/
theorem Covering.take (h : Covering (.completed c d) r w) (hc : r.current = none)
    (hi : r.inflight.find? (·.seq = d.seq) = some i) :
    Covering (.taken c d)
      { r with inflight := r.inflight.filter (·.seq ≠ d.seq), current := some i } w := by
  have hseq : i.seq = d.seq := by simpa using List.find?_some hi
  have hmem := List.mem_of_find?_eq_some hi
  have hworks : ∀ seq,
      { r with inflight := r.inflight.filter (·.seq ≠ d.seq), current := some i }.Works seq ↔
        r.Works seq := by
    intro seq
    rw [Runner.works_iff, Runner.works_iff, hc]
    simp only [List.mem_filter, decide_eq_true_eq, Option.map_some, Option.map_none, hseq]
    constructor
    · rintro (h | ⟨j, ⟨hj, -⟩, rfl⟩ | h)
      · exact .inl h
      · exact .inr (.inl ⟨j, hj, rfl⟩)
      · exact .inr (.inl ⟨i, hmem, hseq.trans (Option.some.inj h)⟩)
    · rintro (h | ⟨j, hj, rfl⟩ | h)
      · exact .inl h
      · by_cases hd : j.seq = d.seq
        · exact .inr (.inr (congrArg some hd.symm))
        · exact .inr (.inl ⟨j, ⟨hj, hd⟩, rfl⟩)
      · cases h
  refine ⟨⟨h.covered, fun seq hopen => h.kept seq ?_⟩, fun seq hopen => ?_, trivial⟩
  · rwa [hworks] at hopen
  · rcases h.held seq hopen with hle | hw
    · exact .inl hle
    · exact .inr ((hworks seq).mpr hw)

/-- A settled batch is no longer at hand. -/
theorem Covering.settle {goal : Option NodeId} {goalNodes : List NodeId}
    (h : Covering (.settling c d goal) r w) (hc : r.current.map (·.seq) = some d.seq) :
    Covering (.settled c d goal) { r with goalNodes, current := none } w := by
  have hworks : ∀ seq, r.Works seq ↔
      { r with goalNodes, current := none }.Works seq ∨ seq = d.seq := by
    intro seq
    rw [Runner.works_iff, Runner.works_iff, hc]
    simp [or_assoc, eq_comm]
  refine ⟨⟨h.covered, fun seq hopen => h.kept seq ?_⟩, fun seq hopen => ?_, trivial⟩
  · exact hopen.imp_right fun hw => (hworks seq).mpr (.inl hw)
  · rcases h.held seq hopen with hle | hw
    · exact .inl (.inl hle)
    · exact ((hworks seq).mp hw).imp_left .inr

theorem Local.covering (hl : Local exp p r p' r')
    (hread : ∀ cp, p.reads = some cp → w.store.checkpoint.map (·.1) = some cp)
    (hs : Sequenced p r w.store) (h : Covering p r w) : Covering p' r' w := by
  cases hl with
  | touch hsame =>
    have hw : r'.work = r.work := by
      rw [Runner.work, hsame.replayQueue, hsame.inflight, hsame.current]
      rfl
    refine h.congr hsame.batchSeq hw (fun _ => id) ?_
    have hu := h.unladen
    unfold Point.Unladen at hu ⊢
    rwa [hsame.inflight, hsame.current]
  | fail => exact h.onError
  | @books cp => exact h.books hs.placed hs.tracks (hread cp rfl)
  | @pop _ i rest hq =>
    obtain ⟨hidle, hcurrent⟩ := hs.placed
    have hperm : ∀ seq, { r with replayQueue := rest, current := some i }.Works seq ↔
        r.Works seq := by
      intro seq
      rw [Runner.works_iff, Runner.works_iff, hq, hcurrent]
      simp [or_assoc, or_comm, or_left_comm]
    refine ⟨⟨h.covered, fun seq hopen => h.kept seq ?_⟩, fun seq hopen => ?_, trivial⟩
    · rwa [hperm] at hopen
    · exact (h.held seq hopen).imp_right (hperm seq).mpr
  | flight => exact h.flight hs.placed.2 hs.numbers hs.tracks
  | @take c _ _ _ hi =>
    refine h.take ?_ hi
    obtain ⟨hc, hplaced⟩ := hs.placed
    cases c with
    | loop | pausing => exact hplaced.2
    | ending => exact hplaced
    | _ => cases hc
  | @settle c d goal =>
    rw [addGoal_inflight]
    refine h.settle ?_
    have hplaced := hs.placed
    cases c with
    | replay | loop | pausing => exact hplaced.2
    | ending => exact hplaced
    | _ => cases hplaced
  | @truncated c =>
    cases c <;> exact h.congr rfl rfl (fun _ => id) trivial
  | adoptGeneration | collect | loaded | noPost =>
    exact h.congr rfl rfl (fun _ _ => trivial) trivial
  | _ => exact h.congr rfl rfl (fun _ => id) trivial

/-! ### Calls -/

/-- The calls that can open, close or cover a batch. -/
def Op.marks : Op F → Bool
  | .putCheckpoint _ _ | .putWal _ | .deleteWal _ | .submit _ | .record _ => true
  | _ => false

theorem World.mem_outstanding_record :
    seq ∈ outstanding (w.record e).log ↔
      seq ∈ e.opens ∨ seq ∈ outstanding w.log ∧ e.closes ≠ some seq := by
  rw [World.record, outstanding_concat, Event.mem_owes]

theorem Covering.setStore {store : Store F} (h : Covering p r w)
    (hk : ∀ seq, seq ∈ outstanding w.log ∨ r.Works seq → Kept store seq) :
    Covering p r (w.setStore store) :=
  ⟨⟨h.covered, hk⟩, h.held, h.unladen⟩

/-- An event that opens only batches the store keeps and the runner holds. -/
theorem Covering.record (h : Covering p r w)
    (ho : ∀ seq ∈ e.opens, Kept w.store seq ∧ p.Holds r seq)
    (hs : Entry.Spares (outstanding w.log) ⟨e, w.store, w.scorer⟩) : Covering p r (w.record e) := by
  have hopen : ∀ seq, seq ∈ outstanding (w.record e).log → seq ∈ e.opens ∨
      seq ∈ outstanding w.log := fun seq hseq =>
    (World.mem_outstanding_record.mp hseq).imp_right And.left
  refine ⟨⟨h.covered.concat hs, fun seq hseq => ?_⟩, fun seq hseq => ?_, h.unladen⟩
  · rcases hseq with hseq | hseq
    · rcases hopen seq hseq with hseq | hseq
      · exact (ho seq hseq).1
      · exact h.kept seq (.inl hseq)
    · exact h.kept seq (.inr hseq)
  · rcases hopen seq hseq with hseq | hseq
    · exact (ho seq hseq).2
    · exact h.held seq hseq

theorem Covering.rpcFailed (h : Covering p r w) (e : ClientError) :
    Covering p r (w.record (.rpcFailed e)) :=
  h.record (by simp [Event.opens]) trivial

theorem Applied.covering (happ : Applied op w w₁) (hop : op.marks = false) (h : Covering p r w) :
    Covering p r w₁ := by
  cases happ with
  | putCheckpoint | putWal | deleteWal | submit | record => cases hop
  | createNode hc =>
    refine h.setStore fun seq hseq => (h.kept seq hseq).of_store ?_ ?_
    · rcases Store.createNode_ok hc with ⟨-, -, -, rfl⟩ | ⟨-, -, -, rfl⟩ <;> rfl
    · rcases Store.createNode_ok hc with ⟨-, -, -, rfl⟩ | ⟨-, -, -, rfl⟩ <;> rfl
  | updateNode hu =>
    obtain ⟨_, -, rfl⟩ := Store.updateNode_ok hu
    exact h.setStore fun seq hseq => (h.kept seq hseq).of_store rfl rfl
  | buildPropose => exact h.record (by simp [Event.opens]) trivial
  | _ => exact ⟨⟨h.covered, h.kept⟩, h.held, h.unladen⟩

theorem Covering.frame (h : Covering p r w) (ha : env exp op w a w') (hop : op.marks = false) :
    Covering p r w' :=
  env_induct ha h (fun _ happ => happ.covering hop h) fun _ e h => h.rpcFailed e

/-- A delete below the checkpoint's number is of no open batch. -/
theorem Covering.deleteWal {g k : Nat} (h : Covering p r w)
    (hcp : w.store.checkpoint = some (cp, g)) (hk : k < cp.batchSeq)
    (happ : Applied (.deleteWal k) w w₁) : Covering p r w₁ := by
  have habove : ∀ seq, Kept w.store seq → k ≠ seq := by
    rintro seq ⟨cp', g', hcp', hle, -⟩ rfl
    rw [hcp] at hcp'
    cases hcp'
    omega
  cases happ with
  | deleteWal hdelete =>
    rw [Store.deleteWal_ok hdelete]
    refine (h.setStore fun seq hseq => ?_).record (by simp [Event.opens]) ?_
    · obtain ⟨cp', g', hcp', hle, hwal⟩ := h.kept seq hseq
      refine ⟨cp', g', hcp', hle, ?_⟩
      rw [getElem?_erase_if, if_neg (habove seq (h.kept seq hseq)).symm]
      exact hwal
    · exact fun hopen => habove k (h.kept k (.inl hopen)) rfl

/-- A checkpoint that begins with nothing in flight and nothing at hand spares the open
batches. -/
theorem Covering.put {archive : ArchiveSnapshot} {value : Checkpoint F}
    (h : Covering (.archived c archive) r w) (hn : Numbers r)
    (hv : buildCheckpoint exp r archive = some value)
    (happ : Applied (.putCheckpoint r.ckptGeneration value) w w₁) :
    Covering (.archived c archive) r w₁ := by
  have hbatch := buildCheckpoint_batchSeq hv
  have hle : ∀ seq, seq ∈ outstanding w.log ∨ r.Works seq →
      value.batchSeq ≤ seq ∧ w.store.wal[seq]?.isSome = true := by
    intro seq hseq
    obtain ⟨-, -, -, -, hwal⟩ := h.kept seq hseq
    have hholds : r.Holds seq := by
      rcases hseq with hseq | hseq
      · exact h.held seq hseq
      · exact .inr hseq
    exact ⟨hbatch ▸ hn.le_of_holds h.unladen.1 h.unladen.2 hholds, hwal⟩
  cases happ with
  | @putCheckpoint _ _ _ g _ hput =>
    rw [(Store.putCheckpoint_ok hput).2.2]
    refine (h.setStore fun seq hseq => ?_).record (by simp [Event.opens]) ?_
    · exact ⟨value, g, rfl, (hle seq hseq).1, (hle seq hseq).2⟩
    · exact fun seq hseq => hle seq (.inl hseq)

theorem Issues.covering (hi : Issues exp p r op) (happ : Applied op w w₁)
    (hs : Sequenced p r w.store) (h : Covering p r w) : Covering p r w₁ := by
  cases hi with
  | @write i =>
    -- the new intent has the next number, which a resume will find in the window
    obtain ⟨-, hi⟩ := hs.placed
    obtain ⟨hspans, -⟩ := spans_putWal hs.tracks hs.queued hi
    have hkept : Kept (w.store.putWal i.seq i) i.seq :=
      hspans.kept (hi ▸ hs.numbers.le) (by omega)
    cases happ with
    | putWal =>
      refine (h.setStore fun seq hseq => ?_).record ?_ trivial
      · obtain ⟨cp, g, hcp, hle, hwal⟩ := h.kept seq hseq
        refine ⟨cp, g, hcp, hle, ?_⟩
        rw [Store.putWal, getElem?_insert_if]
        split
        · rfl
        · exact hwal
      · intro seq hseq
        rw [List.mem_singleton.mp hseq]
        exact ⟨hkept, .inl hi.ge⟩
  | @submit i _ _ b hseq =>
    cases happ with
    | submit =>
      refine h.record (fun seq hopen => ?_) trivial
      obtain ⟨-, hi⟩ := hs.placed
      rw [List.mem_singleton.mp hopen, hseq]
      exact ⟨Spans.kept hs.tracks (hi ▸ hs.numbers.le) (by omega), .inl hi.ge⟩
  | @submitReplay i _ _ b hseq =>
    cases happ with
    | submit =>
      refine h.record (fun seq hopen => ?_) trivial
      have hworks : r.Works i.seq :=
        Runner.works_iff.mpr (.inr (.inr (by rw [hs.placed.2]; rfl)))
      rw [List.mem_singleton.mp hopen, hseq]
      exact ⟨h.kept _ (.inr hworks), .inr hworks⟩
  | put hv => exact h.put hs.numbers hv happ
  | @truncate c covered k rest =>
    obtain ⟨-, hcp, hrest⟩ := hs.tracks
    obtain ⟨⟨cp, g⟩, hckpt, rfl⟩ := Option.map_eq_some_iff.mp hcp
    exact h.deleteWal hckpt (hrest k List.mem_cons_self) happ
  | _ => exact happ.covering rfl h

theorem Covering.issued (h : Covering p r w) (hi : Issues exp p r op) (ha : env exp op w a w')
    (hs : Sequenced p r w.store) : Covering p r w' :=
  env_induct ha h (fun _ happ => hi.covering happ hs h) fun _ e h => h.rpcFailed e

theorem Next.covering (hn : Next exp p r op a p' r') (ha : env exp op w a w')
    (hread : ∀ cp, p.reads = some cp → w.store.checkpoint.map (·.1) = some cp)
    (hs : Sequenced p r w.store) (hlog : Drained w'.log) (h : Covering p r w) :
    Covering p' r' w' := by
  cases hn with
  | quiet hq => exact h.frame ha (by cases op <;> simp_all [Op.quiet, Op.marks])
  | failed hi => exact (h.issued hi ha hs).onError
  | @stale cp k _ _ hk =>
    obtain ⟨⟨_, g⟩, hckpt, rfl⟩ := Option.map_eq_some_iff.mp (hread cp rfl)
    exact env_induct ha h (fun _ happ => h.deleteWal hckpt hk happ) fun _ e h => h.rpcFailed e
  | written => exact (h.issued .write ha hs).congr rfl rfl (fun _ => id) trivial
  | submitted hseq hp hb =>
    exact (h.issued (.submit hseq hp hb) ha hs).congr rfl rfl (fun _ => id) trivial
  | submittedReplay hseq hp hb =>
    exact (h.issued (.submitReplay hseq hp hb) ha hs).congr rfl rfl (fun _ => id) trivial
  | put hv => exact (h.issued (.put hv) ha hs).congr rfl rfl (fun _ => id) trivial
  | truncated => exact (h.issued .truncate ha hs).congr rfl rfl (fun _ => id) trivial
  | started =>
    obtain rfl := env_record ha
    refine (h.record (e := .started r) (fun seq hopen => ?_) trivial).congr rfl rfl
      (fun _ => id) trivial
    have hworks : r.Works seq := by
      obtain ⟨i, hi, rfl⟩ := List.mem_map.mp hopen
      exact Runner.works_iff.mpr (.inl ⟨i, hi, rfl⟩)
    exact ⟨h.kept seq (.inr hworks), .inr hworks⟩
  | @committed c d goal =>
    obtain rfl := env_record ha
    have hopen : ∀ seq, seq ∈ outstanding (w.record (.committed d.seq goal r)).log →
        seq ∈ outstanding w.log ∧ seq ≠ d.seq := by
      intro seq hseq
      simpa [World.mem_outstanding_record, Event.opens, Event.closes, eq_comm] using hseq
    refine ⟨⟨h.covered.concat trivial, fun seq hseq => h.kept seq ?_⟩, fun seq hseq => ?_, trivial⟩
    · exact hseq.imp_left fun hseq => (hopen seq hseq).1
    · exact (h.held seq (hopen seq hseq).1).resolve_right (hopen seq hseq).2
  | began =>
    obtain rfl := env_record ha
    refine (h.record (e := .checkpointBegan r) (by simp [Event.opens]) trivial).congr rfl rfl
      (fun _ => id) ?_
    exact hlog _ (List.mem_append_right _ List.mem_cons_self) r rfl
  | select | scored | aborted =>
    obtain rfl := env_record ha
    refine Covering.record ?_ ?_ trivial
    · exact h.congr rfl rfl (fun _ => id) trivial
    · simp [Event.opens]
  | archived | archivedAgain =>
    exact (h.frame ha rfl).congr rfl rfl (fun _ => id) h.unladen
  | foundCheckpoint | adopt | restored | caughtUp | collected | missed =>
    exact (h.frame ha rfl).congr rfl rfl (fun _ _ => trivial) trivial
  | _ => exact (h.frame ha rfl).congr rfl rfl (fun _ => id) trivial

end

theorem Reach.covering {p : Point F} {r : Runner F} {w : World F} (h : Reaches exp p r w)
    (hlog : Drained w.log) : Covering p r w := by
  induction h with
  | init hw =>
    subst hw
    refine ⟨⟨?_, ?_⟩, ?_, trivial⟩
    · intro i e he
      cases he
    · rintro seq (hseq | ⟨i, hi, -⟩)
      · cases hseq
      · cases hi
    · intro seq hseq
      cases hseq
  | restart h _ ih =>
    have h := ih hlog
    refine ⟨⟨h.covered, ?_⟩, fun seq _ => .inl (Nat.zero_le seq), trivial⟩
    rintro seq (hseq | ⟨i, hi, -⟩)
    · exact h.kept seq (.inl hseq)
    · cases hi
  | loc h hl ih => exact hl.covering (fun _ => h.current) h.sequenced (ih hlog)
  | call h hn ha ih =>
    exact hn.covering ha (fun _ => h.current) h.sequenced hlog
      (ih (hlog.of_prefix (env_log ha).1))

/-! ### Whole runs -/

/-- **Coverage.** In every run, with any completion order, control messages, kills and failing
calls, in which no checkpoint begins with a batch in flight or at hand: a checkpoint is at or
below every batch whose commit has not been applied and leaves its intent, and no truncation
deletes one. -/
theorem checkpoints_cover (exp : Experiment F) {s : Solo (Op F) (Ans F) (World F)}
    (h : Solo.Steps (env exp) (boot exp) ⟨.empty, none⟩ s) (hlog : Drained s.world.log) :
    Covered s.world.log := by
  obtain ⟨p, r, hreach⟩ := reaches_of_steps h
  exact (hreach.covering hlog).covered

/-- A decision of `Drained`. -/
def drained (log : List (Entry F)) : Bool :=
  log.all fun e => match e.event with
    | .checkpointBegan r => r.inflight.isEmpty && r.current.isNone
    | _ => true

variable {log : List (Entry F)}

theorem drained_iff : drained log = true ↔ Drained log := by
  rw [drained, List.all_eq_true]
  refine forall₂_congr fun e _ => ⟨fun h r hr => ?_, fun h => ?_⟩
  · rw [hr, Bool.and_eq_true, List.isEmpty_iff, Option.isNone_iff_eq_none] at h
    exact h
  · split
    · rename_i r hr
      rw [Bool.and_eq_true, List.isEmpty_iff, Option.isNone_iff_eq_none]
      exact h r hr
    · rfl

/-- Whether an entry is a checkpoint past an open batch. -/
def Entry.overtakes (owed : List Nat) (e : Entry F) : Bool :=
  match e.event with
  | .checkpointed covered => owed.any (· < covered)
  | _ => false

/-- Whether a checkpoint on the log is past an open batch. -/
def overtaken (log : List (Entry F)) : Bool :=
  (List.range log.length).any fun i => log[i]?.any (·.overtakes (outstanding (log.take i)))

theorem not_covered_of_overtaken (h : overtaken log = true) : ¬ Covered log := by
  obtain ⟨i, -, hi⟩ := List.any_eq_true.mp h
  obtain ⟨e, he, hover⟩ := (Option.any_eq_true _ _).mp hi
  intro hcov
  have hspares := hcov i e he
  unfold Entry.overtakes at hover
  unfold Entry.Spares at hspares
  split at hover
  · rename_i covered hev
    rw [hev] at hspares
    obtain ⟨seq, hseq, hlt⟩ := List.any_eq_true.mp hover
    exact absurd (of_decide_eq_true hlt) (Nat.not_lt.mpr (hspares seq hseq).1)
  · cases hover

/-- Two batches in flight and a checkpoint after every commit. -/
def overlapping : Experiment Int :=
  { sample with mode := .fast, maxInflightBatches := 2, everyCommits := 1 }

/-- The checkpoint after the commit of batch 0 covers batch 1, which is still in flight. -/
theorem checkpoint_overtakes_inflight :
    ∃ s, Solo.Steps (env overlapping) (boot overlapping) ⟨.empty, none⟩ s ∧
      ¬ Covered s.world.log := by
  have hover : overtaken (evaluate overlapping [List.replicate 60 .answer]).log = true := by
    decide +kernel
  exact ⟨_, steps_evaluate overlapping [List.replicate 60 .answer],
    not_covered_of_overtaken hover⟩

/-- One batch at a time and a checkpoint after every commit. -/
def stepwise : Experiment Int := { sample with everyCommits := 1 }

/-- Whether an entry is the deletion of an intent. -/
def Entry.deletes (e : Entry F) : Bool :=
  match e.event with
  | .walDeleted _ => true
  | _ => false

theorem checkpoints_cover_stepwise :
    (evaluate stepwise [List.replicate 60 .answer]).log.any Entry.deletes = true ∧
      Covered (evaluate stepwise [List.replicate 60 .answer]).log := by
  have hdeletes : (evaluate stepwise [List.replicate 60 .answer]).log.any Entry.deletes = true := by
    decide +kernel
  have hdrained : drained (evaluate stepwise [List.replicate 60 .answer]).log = true := by
    decide +kernel
  have hsteps := steps_evaluate stepwise [List.replicate 60 .answer]
  generalize evaluate stepwise [List.replicate 60 .answer] = w at hdeletes hdrained hsteps ⊢
  exact ⟨hdeletes, checkpoints_cover stepwise hsteps (drained_iff.mp hdrained)⟩

end Orchestrator.Server
