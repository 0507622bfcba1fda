import Orchestrator.Sched.Pipeline
import Mathlib.Data.List.Range
import Mathlib.Data.List.Perm.Basic

/-! # Sched — Delivery

What goes into the pipeline comes out of it, once. Every submitted batch is at exactly one
place of the pipeline until it is handed back (`Conserved`), every step but a submission
brings some batch closer to that (`work`), and a pipeline that cannot go on has nothing left
inside. Under the runner's discipline neither `submit` nor `next_completed` waits in vain. What
went in and what came out is read off the log of a run: the calls of `submit`, and what the
calls of `next_completed` returned.

* `pipeline_delivers`
-/

namespace Orchestrator.Sched

open Core Services Lib

/-- The sequence number of a batch that did not fail. -/
def seq? : Completion → Option Nat
  | .ok batch => some batch.seq
  | .error _ => none

namespace Pipeline

/-- The actions of a run with what `next_completed` returned on them. -/
abbrev Log := List (Action × Option Completion)

@[simp] def Action.submission : Action → Option Nat
  | .submit batch => some batch.seq
  | _ => none

/-- The batches that `submit` was called with. -/
def submissions (log : Log) : List Nat := log.filterMap fun e => e.1.submission

/-- What the calls of `next_completed` returned. -/
def deliveries (log : Log) : List Completion := log.filterMap Prod.snd

/-- The batches handed back. -/
def returned (log : Log) : List Nat := (deliveries log).filterMap seq?

/-- The calls of `next_completed`. -/
def requests (log : Log) : Nat := log.countP fun e => e.1 matches .next

variable {p q : Pipeline} {a : Action} {o : Option Completion} {log log' : Log} {first : Nat}

@[simp] theorem submissions_append (log log' : Log) :
    submissions (log ++ log') = submissions log ++ submissions log' := List.filterMap_append

@[simp] theorem submissions_singleton (a : Action) (o : Option Completion) :
    submissions [(a, o)] = a.submission.toList := by
  cases a <;> rfl

@[simp] theorem deliveries_append (log log' : Log) :
    deliveries (log ++ log') = deliveries log ++ deliveries log' := List.filterMap_append

@[simp] theorem deliveries_singleton (a : Action) (o : Option Completion) :
    deliveries [(a, o)] = o.toList := by
  cases o <;> rfl

@[simp] theorem returned_append (log log' : Log) :
    returned (log ++ log') = returned log ++ returned log' := by
  simp [returned]

/-- The batches before the reorder buffer. -/
def inside (p : Pipeline) : List Nat :=
  p.submitting.toList.map Batch.seq ++ p.submitQueue.map Batch.seq ++
    p.received.toList.map Batch.seq ++ p.running.map Batch.seq ++ p.sending.filterMap seq? ++
    p.completed.filterMap seq?

/-- Where the batches are. -/
def places (log : Log) (p : Pipeline) : List Nat :=
  p.inside ++ p.reorder.map Prod.fst ++ returned log

/-- Batches are submitted in order and without gaps, and none fails. -/
def GapFree (first : Nat) (log : Log) (_ : Pipeline) : Action → Prop
  | .submit batch => batch.seq = first + (submissions log).length
  | .finish _ outcome => outcome.isOk
  | _ => True

/-- What holds of the batches in the pipeline when none fails. -/
structure Conserved (first : Nat) (log : Log) (p : Pipeline) : Prop where
  room : 0 < p.maxInflight
  seqs : submissions log = List.range' first (submissions log).length
  places : (places log p).Perm (submissions log)
  ok : ∀ r ∈ p.sending ++ p.completed ++ deliveries log, ∃ batch, r = .ok batch
  held : ∀ e ∈ p.reorder, ∃ batch, e.2 = .ok batch ∧ batch.seq = e.1
  fast : p.mode = .fast → p.reorder = []
  cursor : p.mode = .deterministic →
    returned log = List.range' first (deliveries log).length ∧
      p.nextSeq = first + (deliveries log).length
  answered : requests log = (deliveries log).length + bif p.awaiting then 1 else 0

theorem Conserved.nodup (h : Conserved first log p) : (Pipeline.places log p).Nodup := by
  rw [h.places.nodup_iff, h.seqs]
  exact List.nodup_range'

theorem Conserved.nodup_reorder (hp : Conserved first log p) :
    (p.reorder.map Prod.fst).Nodup := by
  have hnodup := hp.nodup
  rw [Pipeline.places] at hnodup
  exact (List.nodup_append.mp (List.nodup_append.mp hnodup).1).2.1

theorem conserved_spawn (mode : SchedMode) (m firstSeq : Nat) :
    Conserved firstSeq [] (spawn mode m firstSeq) where
  room := by simp [spawn]
  seqs := rfl
  places := .nil
  ok := by simp [spawn, deliveries]
  held := by simp [spawn]
  fast := fun _ => rfl
  cursor := fun _ => ⟨rfl, rfl⟩
  answered := rfl

/-- Only a submission adds a batch. -/
theorem Move.places_perm (h : p.Move a q o) (hg : GapFree first log p a)
    (hp : Conserved first log p) :
    (Pipeline.places (log ++ [(a, o)]) q).Perm (submissions (log ++ [(a, o)])) := by
  refine List.perm_iff_count.mpr fun s => ?_
  have hcount := hp.places.count_eq s
  rw [submissions_append, submissions_singleton]
  cases h with
  | submit batch hs =>
    simp [Pipeline.places, inside, returned, hs, List.count_cons] at hcount ⊢
    omega
  | enqueue hs hq =>
    simp [Pipeline.places, inside, returned, hs, List.count_cons] at hcount ⊢
    omega
  | receive hr hq =>
    simp [Pipeline.places, inside, returned, hr, hq, List.count_cons] at hcount ⊢
    omega
  | start hr hi =>
    simp [Pipeline.places, inside, returned, hr, List.count_cons] at hcount ⊢
    omega
  | @finish task batch outcome hr =>
    cases outcome with
    | error e => cases hg
    | ok jobs =>
      have hperm : (batch :: p.running.eraseIdx task).Perm p.running := by
        obtain ⟨hlt, rfl⟩ := List.getElem?_eq_some_iff.mp hr
        exact List.getElem_cons_eraseIdx_perm hlt
      have := (hperm.map Batch.seq).count_eq s
      simp [Pipeline.places, inside, returned, seq?, Except.map, List.count_cons] at hcount this ⊢
      omega
  | @send result rest hs hc =>
    obtain ⟨batch, rfl⟩ := hp.ok result (by simp [hs])
    simp [Pipeline.places, inside, returned, hs, hc, seq?, List.count_cons] at hcount ⊢
    omega
  | release hr | next ha => simpa [Pipeline.places, inside, returned] using hcount
  | @pass result rest ha hc hr =>
    obtain ⟨batch, rfl⟩ := hp.ok result (by simp [hc])
    simp [Pipeline.places, inside, returned, hc, seq?, List.count_cons] at hcount ⊢
    omega
  | @hold batch rest ha hm hc =>
    have hnew : batch.seq ∉ p.reorder.map Prod.fst := by
      have hnodup := hp.nodup
      rw [Pipeline.places, List.append_assoc] at hnodup
      refine fun hmem => (List.nodup_append.mp hnodup).2.2 _ ?_ _ (List.mem_append_left _ hmem) rfl
      simp [inside, hc, seq?]
    simp [Pipeline.places, inside, returned, Pipeline.hold, hc, seq?, List.count_cons,
      filter_key_of_notMem hnew] at hcount ⊢
    omega
  | @handBack result ha hm hl =>
    obtain ⟨hmem, hperm⟩ := perm_of_lookup hl hp.nodup_reorder
    obtain ⟨batch, rfl, hseq⟩ := hp.held _ hmem
    have hkeys := hperm.count_eq s
    simp [Pipeline.places, inside, returned, seq?, List.count_cons, hseq] at hcount hkeys ⊢
    omega

/-- Every call of `next_completed` but the one that waits has returned. -/
theorem Move.answered (h : p.Move a q o)
    (hp : requests log = (deliveries log).length + bif p.awaiting then 1 else 0) :
    requests (log ++ [(a, o)]) =
      (deliveries (log ++ [(a, o)])).length + bif q.awaiting then 1 else 0 := by
  rw [requests, List.countP_append, deliveries_append, deliveries_singleton, List.length_append]
  rw [requests] at hp
  cases h with
  | next ha =>
    rw [ha] at hp
    simp [hp]
  | pass ha | handBack ha =>
    rw [ha] at hp
    simp [hp]
  | _ => simpa [Pipeline.hold] using hp

theorem Move.conserved (h : p.Move a q o) (hg : GapFree first log p a)
    (hp : Conserved first log p) : Conserved first (log ++ [(a, o)]) q := by
  have hplaces := h.places_perm hg hp
  have hanswered := h.answered hp.answered
  have hkept : submissions [(a, o)] = [] → submissions (log ++ [(a, o)]) =
      List.range' first (submissions (log ++ [(a, o)])).length := by
    intro hnone
    rw [submissions_append, hnone, List.append_nil]
    exact hp.seqs
  have hreturned : deliveries [(a, o)] = [] → deliveries (log ++ [(a, o)]) = deliveries log ∧
      returned (log ++ [(a, o)]) = returned log := by
    intro hnone
    simp [returned, hnone]
  cases h with
  | submit batch hs =>
    obtain ⟨hdel, hret⟩ := hreturned rfl
    refine ⟨hp.room, ?_, hplaces, hdel ▸ hp.ok, hp.held, hp.fast, ?_, hanswered⟩
    · have hseq : batch.seq = first + (submissions log).length := hg
      simp only [submissions_append, submissions_singleton, Action.submission, Option.toList_some,
        List.length_append, List.length_singleton, List.range'_1_concat]
      rw [← hp.seqs, hseq]
    · rw [hdel, hret]
      exact hp.cursor
  | enqueue | receive | start | release | next =>
    obtain ⟨hdel, hret⟩ := hreturned rfl
    exact ⟨hp.room, hkept rfl, hplaces, hdel ▸ hp.ok, hp.held, hp.fast,
      by rw [hdel, hret]; exact hp.cursor, hanswered⟩
  | @finish task batch outcome hr =>
    obtain ⟨hdel, hret⟩ := hreturned rfl
    refine ⟨hp.room, hkept rfl, hplaces, ?_, hp.held, hp.fast,
      by rw [hdel, hret]; exact hp.cursor, hanswered⟩
    rw [hdel]
    cases outcome with
    | error e => cases hg
    | ok jobs =>
      intro r hr
      simp only [List.mem_append, List.mem_singleton] at hr
      rcases hr with ((hr | hr) | hr) | hr
      · exact hp.ok r (by simp [hr])
      · exact ⟨_, hr⟩
      · exact hp.ok r (by simp [hr])
      · exact hp.ok r (by simp [hr])
  | @send result rest hs hc =>
    obtain ⟨hdel, hret⟩ := hreturned rfl
    refine ⟨hp.room, hkept rfl, hplaces, fun r hr => hp.ok r ?_, hp.held, hp.fast,
      by rw [hdel, hret]; exact hp.cursor, hanswered⟩
    rw [hs, hc]
    rw [hdel] at hr
    simp only [List.mem_append, List.mem_cons] at hr ⊢
    tauto
  | @pass result rest ha hc hr =>
    obtain ⟨batch, rfl⟩ := hp.ok result (by simp [hc])
    have hfast : p.mode = .fast := hr.resolve_right (by simp)
    refine ⟨hp.room, hkept rfl, hplaces, fun r hr => hp.ok r ?_, hp.held, hp.fast,
      fun hm => ?_, hanswered⟩
    · simp only [deliveries_append, deliveries_singleton, Option.toList_some, hc, List.mem_append,
        List.mem_cons] at hr ⊢
      tauto
    · exact absurd (hfast.symm.trans hm) (by simp)
  | @hold batch rest ha hm hc =>
    obtain ⟨hdel, hret⟩ := hreturned rfl
    refine ⟨hp.room, hkept rfl, hplaces, fun r hr => hp.ok r ?_, ?_, fun hf => ?_,
      by rw [hdel, hret]; exact hp.cursor, hanswered⟩
    · rw [hdel] at hr
      simp only [Pipeline.hold, hc, List.mem_append, List.mem_cons] at hr ⊢
      tauto
    · intro e he
      rcases List.mem_cons.mp he with rfl | he
      · exact ⟨batch, rfl, rfl⟩
      · exact hp.held e (List.mem_of_mem_filter he)
    · exact absurd (hm.symm.trans hf) (by simp)
  | @handBack result ha hm hl =>
    obtain ⟨hmem, -⟩ := perm_of_lookup hl hp.nodup_reorder
    obtain ⟨batch, rfl, hseq⟩ := hp.held _ hmem
    refine ⟨hp.room, hkept rfl, hplaces, fun r hr => ?_, ?_, fun hf => ?_, fun _ => ?_, hanswered⟩
    · simp only [deliveries_append, deliveries_singleton, Option.toList_some, ← List.append_assoc,
        List.mem_append, List.mem_singleton] at hr
      rcases hr with hr | hr
      · exact hp.ok r (by simpa [or_assoc] using hr)
      · exact ⟨batch, hr⟩
    · exact fun e he => hp.held e (List.mem_of_mem_filter he)
    · exact absurd (hm.symm.trans hf) (by simp)
    · obtain ⟨hreturned, hnext⟩ := hp.cursor hm
      dsimp only at hseq
      rw [returned_append, hreturned, hnext, deliveries_append, List.length_append]
      refine ⟨?_, by simp [Nat.add_assoc]⟩
      simp [returned, seq?, hseq, hnext, List.range'_1_concat]

/-! ### Progress -/

/-- The steps that the batches inside are away from being handed back, and the call of
`next_completed` that is to come. -/
def work (p : Pipeline) : Nat :=
  9 * p.submitting.toList.length + 8 * p.submitQueue.length + 7 * p.received.toList.length +
    6 * p.running.length + 5 * p.sending.length + 3 * p.completed.length + p.releasing +
    2 * p.reorder.length + bif p.awaiting then 0 else 1

/-- Whether an action is one of the caller's. -/
def Action.internal : Action → Bool
  | .submit _ | .next => false
  | _ => true

/-- Every step but a submission is progress. -/
theorem Move.work_lt (h : p.Move a q o) (hd : a.submission = none)
    (hp : Conserved first log p) : q.work < p.work := by
  cases h with
  | submit batch hs => cases hd
  | enqueue hs hq => simp [work, hs]; omega
  | receive hr hq => simp [work, hr, hq]; omega
  | start hr hi => simp [work, hr]; omega
  | @finish task batch outcome hr =>
    obtain ⟨hlt, -⟩ := List.getElem?_eq_some_iff.mp hr
    simp only [work, List.length_append, List.length_singleton, List.length_eraseIdx_of_lt hlt]
    omega
  | send hs hc => simp [work, hs, hc]; omega
  | release hr => simp [work, hr]
  | next ha => simp [work, ha]
  | pass ha hc hr => simp [work, hc]; omega
  | @hold batch rest ha hm hc =>
    have := List.length_filter_le (fun e : Nat × Completion => e.1 != batch.seq) p.reorder
    simp only [work, Pipeline.hold, hc, List.length_cons]
    omega
  | @handBack result ha hm hl =>
    have hlen := (perm_of_lookup hl hp.nodup_reorder).2.length_eq
    simp only [List.length_map, List.length_cons] at hlen
    simp only [work, cond_false]
    omega

/-- What a caller that no longer submits does, when no batch fails. -/
def Action.draining : Action → Bool
  | .submit _ => false
  | .finish _ outcome => outcome.isOk
  | _ => true

theorem Action.gapFree_of_draining (h : a.draining = true) : GapFree first log p a := by
  cases a with
  | submit => cases h
  | finish => exact h
  | _ => trivial

theorem Action.submission_of_draining (h : a.draining = true) : a.submission = none := by
  cases a with
  | submit => cases h
  | _ => rfl

/-- No executor, queue or channel step is enabled. -/
def Stuck (p : Pipeline) : Prop := ∀ a, a.internal → a.draining → p.step a = none

theorem Stuck.flow (h : p.Stuck) :
    p.running = [] ∧ p.releasing = 0 ∧ (p.completed = [] → p.sending = []) ∧
      (p.received ≠ none → p.maxInflight ≤ p.sending.length) ∧
      (p.received = none → p.submitQueue = []) ∧
      (p.submitting ≠ none → p.submitCap ≤ p.submitQueue.length) := by
  have hrunning : p.running = [] := by
    cases hr : p.running with
    | nil => rfl
    | cons batch rest =>
      have := h (.finish 0 (.ok [])) rfl rfl
      simp [step, hr] at this
  have hreleasing : p.releasing = 0 := by
    cases hr : p.releasing with
    | zero => rfl
    | succ n =>
      have := h .release rfl rfl
      simp [step, hr] at this
  refine ⟨hrunning, hreleasing, fun hc => ?_, fun hr => ?_, fun hr => ?_, fun hs => ?_⟩
  · cases hs : p.sending with
    | nil => rfl
    | cons result rest =>
      have := h .send rfl rfl
      simp [step, hs, hc] at this
  · obtain ⟨batch, hr⟩ := Option.ne_none_iff_exists'.mp hr
    have := h .start rfl rfl
    simpa [step, hr, inflight, hrunning, hreleasing] using this
  · cases hq : p.submitQueue with
    | nil => rfl
    | cons batch rest =>
      have := h .receive rfl rfl
      simp [step, hr, hq] at this
  · obtain ⟨batch, hs⟩ := Option.ne_none_iff_exists'.mp hs
    have := h .enqueue rfl rfl
    simpa [step, hs] using this

/-- A call of `next_completed` that cannot go on has found nothing. -/
theorem Stuck.turn (h : p.Stuck) (ha : p.awaiting) :
    p.completed = [] ∧ (p.mode = .deterministic → p.reorder.lookup p.nextSeq = none) := by
  have hturn : p.turn = none := by simpa [step, ha] using h .turn rfl rfl
  have hempty : p.take = none → p.completed = [] := by
    intro htake
    cases hc : p.completed with
    | nil => rfl
    | cons result rest =>
      simp only [take, hc] at htake
      split at htake <;> cases htake
  unfold Pipeline.turn at hturn
  split at hturn
  · rename_i hm
    exact ⟨hempty hturn, fun hd => absurd (hm.symm.trans hd) (by simp)⟩
  · split at hturn
    · cases hturn
    · exact ⟨hempty hturn, fun _ => ‹_›⟩

theorem Conserved.length_returned (hp : Conserved first log p) :
    (returned log).length = (deliveries log).length := by
  refine List.filterMap_length_eq_length.mpr fun r hr => ?_
  obtain ⟨batch, rfl⟩ := hp.ok r (by simp [hr])
  rfl

/-- A pipeline that is stuck while `next_completed` waits has nothing left inside. -/
theorem Stuck.inside_nil (h : p.Stuck) (ha : p.awaiting) (hp : Conserved first log p) :
    p.inside = [] := by
  obtain ⟨hrunning, -, hsending, hreceived, hqueue, hsubmitting⟩ := h.flow
  obtain ⟨hcompleted, -⟩ := h.turn ha
  have hsending := hsending hcompleted
  have hreceived : p.received = none := by
    by_contra hr
    have := hreceived hr
    have hroom := hp.room
    rw [hsending, List.length_nil] at this
    omega
  have hqueue := hqueue hreceived
  have hsubmitting : p.submitting = none := by
    by_contra hs
    have := hsubmitting hs
    rw [hqueue, List.length_nil, submitCap] at this
    omega
  simp [inside, hrunning, hcompleted, hsending, hreceived, hqueue, hsubmitting]

theorem Stuck.reorder_nil (h : p.Stuck) (ha : p.awaiting) (hp : Conserved first log p) :
    p.reorder = [] := by
  cases hm : p.mode with
  | fast => exact hp.fast hm
  | deterministic =>
    obtain ⟨hreturned, hnext⟩ := hp.cursor hm
    have hplaces := hp.places
    rw [places, h.inside_nil ha hp, List.nil_append] at hplaces
    -- The next batch in order would have been submitted, and then the buffer has it.
    have hdone : (submissions log).length ≤ (deliveries log).length := by
      by_contra hlt
      have hmem : p.nextSeq ∈ submissions log := by
        rw [hp.seqs, List.mem_range'_1]
        omega
      rcases List.mem_append.mp (hplaces.mem_iff.mpr hmem) with hmem | hmem
      · have := lookup_isSome_of_mem hmem
        rw [(h.turn ha).2 hm] at this
        cases this
      · rw [hreturned, List.mem_range'_1] at hmem
        omega
    have hlen := hplaces.length_eq
    rw [List.length_append, List.length_map, hp.length_returned] at hlen
    exact List.length_eq_zero_iff.mp (by omega)

theorem Stuck.returned_perm (h : p.Stuck) (ha : p.awaiting) (hp : Conserved first log p) :
    (returned log).Perm (submissions log) := by
  have hplaces := hp.places
  rwa [places, h.inside_nil ha hp, h.reorder_nil ha hp] at hplaces

/-! ### The runner's discipline -/

/-- The batches submitted and not handed back. -/
def outstanding (log : Log) : Nat := (submissions log).length - (deliveries log).length

/-- The runner submits while fewer than `max_inflight` batches are outstanding, and waits for
one only while one is. -/
def Disciplined (first : Nat) (log : Log) (p : Pipeline) (a : Action) : Prop :=
  GapFree first log p a ∧
    match a with
    | .submit _ => p.awaiting = false ∧ outstanding log < p.maxInflight
    | .next => p.submitting = none ∧ 0 < outstanding log
    | _ => True

/-- What the discipline keeps. -/
structure Within (first : Nat) (log : Log) (p : Pipeline) : Prop where
  conserved : Conserved first log p
  bounded : outstanding log ≤ p.maxInflight
  needed : p.awaiting → p.submitting = none ∧ 0 < outstanding log

theorem Move.within (h : p.Move a q o) (hd : Disciplined first log p a)
    (hp : Within first log p) : Within first (log ++ [(a, o)]) q := by
  have hsame : submissions [(a, o)] = [] → deliveries [(a, o)] = [] →
      outstanding (log ++ [(a, o)]) = outstanding log := by
    intro hs hd
    simp [outstanding, hs, hd]
  refine ⟨h.conserved hd.1 hp.conserved, ?_, ?_⟩
  · have := hp.bounded
    cases h with
    | submit batch hs =>
      have := hd.2.2
      simp [outstanding] at this ⊢
      omega
    | pass | handBack =>
      simp [outstanding] at this ⊢
      omega
    | _ =>
      rw [hsame rfl rfl]
      exact this
  · cases h with
    | submit batch hs =>
      intro ha
      exact absurd (hd.2.1.symm.trans ha) (by simp)
    | pass | handBack => exact fun ha => nomatch ha
    | next ha =>
      rw [hsame rfl rfl]
      exact fun _ => hd.2
    | enqueue hs hq =>
      rw [hsame rfl rfl]
      exact fun ha => ⟨rfl, (hp.needed ha).2⟩
    | _ =>
      rw [hsame rfl rfl]
      exact hp.needed

theorem Conserved.length_inside (hp : Conserved first log p) :
    p.inside.length + p.reorder.length + (deliveries log).length = (submissions log).length := by
  have hlen := hp.places.length_eq
  rwa [Pipeline.places, List.length_append, List.length_append, List.length_map,
    hp.length_returned] at hlen

/-- While a call waits, something can go on. -/
theorem Within.not_stuck (hp : Within first log p) (hb : p.submitting ≠ none ∨ p.awaiting) :
    ¬ p.Stuck := by
  intro h
  by_cases ha : p.awaiting
  · have hlen := (h.returned_perm ha hp.conserved).length_eq
    rw [hp.conserved.length_returned] at hlen
    have := (hp.needed ha).2
    rw [outstanding] at this
    omega
  -- A submission waits for the queue, the queue for the executor, the executor for all the
  -- tasks to send: more batches than may be outstanding.
  · have hs := hb.resolve_right ha
    obtain ⟨-, -, -, hreceived, hqueue, hsubmitting⟩ := h.flow
    have hcap := hsubmitting hs
    have hr : p.received ≠ none := by
      intro hr
      rw [hqueue hr, List.length_nil, submitCap] at hcap
      omega
    have hsending : (p.sending.filterMap seq?).length = p.sending.length := by
      refine List.filterMap_length_eq_length.mpr fun r hr => ?_
      obtain ⟨batch, rfl⟩ := hp.conserved.ok r (by simp [hr])
      rfl
    obtain ⟨submitting, hs⟩ := Option.ne_none_iff_exists'.mp hs
    have hinside : p.sending.length < p.inside.length := by
      simp only [inside, hs, List.length_append, hsending, Option.toList_some, List.map_singleton,
        List.length_singleton]
      omega
    have := hp.conserved.length_inside
    have := hp.bounded
    have := hreceived hr
    rw [outstanding] at *
    omega

/-! ### Delivery -/

/-- A run without submissions. -/
abbrev Drains (p : Pipeline) (log : Log) (q : Pipeline) : Prop :=
  Logged step (fun _ _ a => a.draining = true) p log q

theorem Conserved.drain (hp : Conserved first log p) (h : Drains p log' q) :
    Conserved first (log ++ log') q ∧ submissions (log ++ log') = submissions log := by
  refine h.invariant (I := fun l q => Conserved first (log ++ l) q ∧
    submissions (log ++ l) = submissions log) (by simpa using hp) fun l t a u o ht hd hs => ?_
  rw [← List.append_assoc]
  refine ⟨(step_move hs).conserved (Action.gapFree_of_draining hd) ht.1, ?_⟩
  rw [submissions_append, submissions_singleton, Action.submission_of_draining hd, ht.2]
  exact List.append_nil _

/-- Nothing can go on but a submission. -/
def Idle (p : Pipeline) : Prop := ∀ a, a.draining → p.step a = none

theorem Idle.returned_perm (h : p.Idle) (hp : Conserved first log p) :
    (returned log).Perm (submissions log) := by
  have ha : p.awaiting := by simpa [step] using h .next rfl
  exact Stuck.returned_perm (fun a _ hd => h a hd) ha hp

/-- Progress comes to an end, and there is an end to come to. -/
theorem Conserved.exists_idle (hp : Conserved first log p) :
    ∃ log' q, Drains p log' q ∧ q.Idle := by
  suffices h : ∀ n log₁ q, Drains p log₁ q → q.work = n → ∃ log' q, Drains p log' q ∧ q.Idle from
    h _ [] p .refl rfl
  intro n
  induction n using Nat.strongRecOn with
  | ind n ih =>
    intro log₁ q hq hwork
    by_cases hidle : q.Idle
    · exact ⟨log₁, q, hq, hidle⟩
    · simp only [Idle, not_forall] at hidle
      obtain ⟨a, hd, hs⟩ := hidle
      obtain ⟨⟨u, o⟩, hs⟩ := Option.ne_none_iff_exists'.mp hs
      have hlt := (step_move hs).work_lt (Action.submission_of_draining hd) (hp.drain hq).1
      exact ih u.work (hwork ▸ hlt) _ u (hq.next hd hs) rfl

theorem conserved_of_logged {mode : SchedMode} {m : Nat}
    (h : Logged step (GapFree first) (spawn mode m first) log p) : Conserved first log p :=
  h.invariant (conserved_spawn mode m first) fun _ _ _ _ _ hp hg hs =>
    (step_move hs).conserved hg hp

theorem mode_of_logged {L : Log → Pipeline → Action → Prop} (h : Logged step L p log q) :
    q.mode = p.mode := by
  refine h.invariant (I := fun _ q => q.mode = p.mode) rfl fun _ _ _ _ _ hp _ hs => ?_
  rw [← hp]
  cases step_move hs <;> rfl

/-- **The pipeline delivers.** In every run with gap-free submissions in which no batch fails:
`submit` and `next_completed` can be called whenever no such call is pending, and every call of
`next_completed` but a pending one has returned one result; the batches handed back are distinct
submitted ones, in deterministic mode in order from the first; every step but a submission is
progress, some continuation without submissions comes to where nothing more can be done, and
each that does has handed back exactly the submitted batches. Under the runner's discipline no
call waits while no executor, queue or channel step is enabled. -/
theorem pipeline_delivers (mode : SchedMode) (maxInflightBatches firstSeq : Nat) :
    (∀ log p, Logged step (GapFree firstSeq) (spawn mode maxInflightBatches firstSeq) log p →
      ((p.submitting = none → ∀ batch, (p.step (.submit batch)).isSome) ∧
        (p.awaiting = false → (p.step .next).isSome) ∧
        requests log = (deliveries log).length + bif p.awaiting then 1 else 0) ∧
      ((returned log).Nodup ∧ returned log ⊆ submissions log) ∧
      (mode = .deterministic → returned log = List.range' firstSeq (deliveries log).length) ∧
      (∃ log' q, Drains p log' q ∧ q.Idle) ∧
      ∀ log' q, Drains p log' q →
        (∀ a q' o, a.draining → q.step a = some (q', o) → q'.work < q.work) ∧
        (q.Idle → (returned (log ++ log')).Perm (submissions log))) ∧
    (∀ log p, Logged step (Disciplined firstSeq) (spawn mode maxInflightBatches firstSeq) log p →
      (p.submitting ≠ none ∨ p.awaiting) →
      ∃ a, a.internal ∧ a.draining ∧ (p.step a).isSome) := by
  refine ⟨fun log p hp => ?_, fun log p hp hb => ?_⟩
  · have hc := conserved_of_logged hp
    refine ⟨⟨fun hs batch => ?_, fun ha => ?_, hc.answered⟩, ⟨?_, ?_⟩, fun hm => ?_,
      hc.exists_idle, fun log' q hq => ⟨fun a q' o hd hs => ?_, fun hidle => ?_⟩⟩
    · simp [step, hs]
    · simp [step, ha]
    · exact (List.nodup_append.mp hc.nodup).2.1
    · exact fun s hs => hc.places.mem_iff.mp (List.mem_append_right _ hs)
    · exact (hc.cursor ((mode_of_logged hp).trans hm)).1
    · exact (step_move hs).work_lt (Action.submission_of_draining hd) (hc.drain hq).1
    · obtain ⟨hq, hsame⟩ := hc.drain hq
      exact hsame ▸ hidle.returned_perm hq
  · have hw : Within firstSeq log p :=
      hp.invariant ⟨conserved_spawn mode _ firstSeq, Nat.zero_le _, by simp [spawn]⟩
        fun _ _ _ _ _ hp hd hs => (step_move hs).within hd hp
    by_contra hnone
    refine hw.not_stuck hb fun a hi hg => ?_
    by_contra hs
    exact hnone ⟨a, hi, hg, Option.isSome_iff_ne_none.mpr hs⟩

/-! ### Three batches -/

instance instDecidableGapFree (first : Nat) (log : Log) (p : Pipeline) (a : Action) :
    Decidable (GapFree first log p a) :=
  match a with
  | .submit batch => inferInstanceAs (Decidable (batch.seq = first + (submissions log).length))
  | .finish _ outcome => inferInstanceAs (Decidable (outcome.isOk = true))
  | .enqueue | .receive | .start | .send | .release | .next | .turn => .isTrue trivial

/-- Batches 5, 6 and 7 are submitted and started, and finish in the opposite order. -/
def threeBatches : List Action :=
  [5, 6, 7].flatMap (fun seq => [.submit ⟨seq, 0, 0, 0, []⟩, .enqueue, .receive, .start]) ++
    [.finish 2 (.ok []), .finish 1 (.ok []), .finish 0 (.ok [])]

/-- The log of a run after them. -/
def outOfOrder (mode : SchedMode) (rest : List Action) : Option (Log × Pipeline) :=
  record step (GapFree 5) (threeBatches ++ rest) [] (spawn mode 3 5)

/-- The first call has to wait for all three; the other two find their batch in the buffer. -/
def inOrder : Option (Log × Pipeline) :=
  outOfOrder .deterministic
    [.next, .send, .turn, .send, .turn, .send, .turn, .turn, .next, .turn, .next, .turn]

def asFinished : Option (Log × Pipeline) :=
  outOfOrder .fast [.next, .send, .turn, .next, .send, .turn, .next, .send, .turn]

theorem pipeline_delivers_threeBatches :
    (∃ log p, Logged step (GapFree 5) (spawn .deterministic 3 5) log p ∧
      submissions log = [5, 6, 7] ∧ returned log = [5, 6, 7]) ∧
    ∃ log p, Logged step (GapFree 5) (spawn .fast 3 5) log p ∧
      submissions log = [5, 6, 7] ∧ returned log = [7, 6, 5] ∧
      ∃ log' q, Drains p log' q ∧ q.Idle := by
  have hone : inOrder.map (fun r => (submissions r.1, (deliveries r.1).length)) =
      some ([5, 6, 7], 3) := by
    decide +kernel
  have htwo : asFinished.map (fun r => (submissions r.1, returned r.1)) =
      some ([5, 6, 7], [7, 6, 5]) := by
    decide +kernel
  obtain ⟨⟨log₁, p₁⟩, hlog₁, hone⟩ := Option.map_eq_some_iff.mp hone
  obtain ⟨⟨log₂, p₂⟩, hlog₂, htwo⟩ := Option.map_eq_some_iff.mp htwo
  have hrun₁ := logged_record .refl hlog₁
  have hrun₂ := logged_record .refl hlog₂
  obtain ⟨hsub₁, hlen⟩ := Prod.mk.inj hone
  obtain ⟨hsub₂, hret⟩ := Prod.mk.inj htwo
  obtain ⟨-, -, hordered, -⟩ := (pipeline_delivers .deterministic 3 5).1 log₁ p₁ hrun₁
  obtain ⟨-, -, -, hidle, -⟩ := (pipeline_delivers .fast 3 5).1 log₂ p₂ hrun₂
  refine ⟨⟨log₁, p₁, hrun₁, hsub₁, ?_⟩, log₂, p₂, hrun₂, hsub₂, hret, hidle⟩
  rw [hordered rfl, hlen]
  rfl

end Pipeline
end Orchestrator.Sched
