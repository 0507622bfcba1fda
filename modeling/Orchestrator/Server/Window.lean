import Orchestrator.Lib.Window
import Orchestrator.Server.Phases

/-! # Server — The write-ahead window

Where the numbers of the batches are. From the checkpoint's number on the write-ahead entries
have no gap and end at the next number of the live process; a resume finds all of them, and
replays them from the first. In the select loop nothing is left to replay, and the batches in
flight have different numbers, all used.

* `Placed`: what a point says about the replay queue, the batches in flight and the intent
  that is worked on.
* `Numbers`: the numbers a runner has given out.
* `Spans`: where the window of the store stands to a runner.
* `Reach.sequenced`: the invariant.
-/

namespace Orchestrator.Server

open Core Services Lib

variable {F : Type} [Float64 F] {exp : Experiment F}

/-! ### Where a batch is -/

/-- Nothing is in flight. -/
def Idle (r : Runner F) : Prop := r.inflight = [] ∧ r.pipeline = []

/-- A runner at rest. -/
def Rest.Placed (r : Runner F) : Rest → Prop
  | .booted => Idle r ∧ r.current = none ∧ r.batchSeq = 0 ∧ r.replayQueue = []
  | .replay => Idle r ∧ r.current = none
  | .popped i => Idle r ∧ r.current = some i
  | .loop | .pausing => r.replayQueue = [] ∧ r.current = none
  | .ending => r.current = none
  | .failed => True

/-- A runner that commits the batch with this number, to rest at `c` afterwards. -/
def Rest.Working (r : Runner F) (seq : Nat) : Rest → Prop
  | .replay => Idle r ∧ r.current.map (·.seq) = some seq
  | .loop | .pausing => r.replayQueue = [] ∧ r.current.map (·.seq) = some seq
  | .ending => r.current.map (·.seq) = some seq
  | .booted | .popped _ | .failed => False

/-- Where batches in flight come back to. -/
def Rest.receives : Rest → Bool
  | .loop | .pausing | .ending => true
  | _ => false

/-- Where a runner rests after a commit. -/
def Rest.commits : Rest → Bool
  | .replay | .loop | .pausing | .ending => true
  | _ => false

/-- A runner at a point. -/
def Placed (r : Runner F) : Point F → Prop
  | .ended | .torn _ => True
  | .start | .fresh | .bootstrapped _ | .rootReady _ _ | .rootStored _ => Rest.Placed r .booted
  | .found _ _ | .resuming _ | .collecting _ _ _ _ | .loaded _ _ | .adopted _ _ _
  | .restored _ _ _ | .ready _ _ | .starting => Rest.Placed r .replay
  | .at c | .began c | .archived c _ | .truncating c _ _ => c.Placed r
  | .filling | .selecting _ => Rest.Placed r .loop
  | .dispatching i | .requested false i _ | .offered false i _ _ | .proposed false i _
  | .walled i _ | .submitted i => Rest.Placed r .loop ∧ i.seq = r.batchSeq
  | .requested true i _ | .offered true i _ _ | .proposed true i _ => Rest.Placed r (.popped i)
  | .sent i => r.inflight = [] ∧ r.current = some i ∧ r.pipeline.map (·.seq) = [i.seq]
  | .completed c _ => c.receives = true ∧ c.Placed r
  | .taken c d | .answered c d _ | .scored c d _ | .owned c d _ | .storing c d _ _ _
  | .parentDue c d _ _ | .updated c d _ _ | .settling c d _ => c.Working r d.seq
  | .replayTaken d | .replayScored d _ | .replaying d _ _ _ | .acting d _ _ _ _ _ =>
    Rest.Working r d.seq .replay
  | .settled c _ _ => c.commits = true ∧ c.Placed r

section

variable {p p' : Point F} {r r' : Runner F}

theorem Placed.onError (h : Placed r p) : Placed r p.onError := by
  cases p with
  | «at» c | completed c _ | began c | archived c _ | truncating c _ _ => cases c <;> trivial
  | _ => trivial

/-- Only these parts of a runner decide where it is. -/
theorem Placed.congr (h : Placed r p) (hs : r'.batchSeq = r.batchSeq)
    (hq : r'.replayQueue = r.replayQueue) (hp : r'.pipeline = r.pipeline)
    (hi : r'.inflight = r.inflight) (hc : r'.current = r.current) : Placed r' p := by
  unfold Placed Rest.Placed Rest.Working Idle at h ⊢
  rw [hs, hq, hp, hi, hc]
  exact h

variable {c : Rest}

theorem Rest.Placed.afterCheckpoint (h : c.Placed r) : Server.Placed r c.afterCheckpoint := by
  cases c with
  | booted => exact ⟨h.1, h.2.1⟩
  | _ => exact h

theorem Rest.Placed.afterCommit {goal : Option NodeId} (h : c.Placed r) :
    (c.afterCommit exp goal).Placed r := by
  cases c with
  | replay | loop =>
    simp only [Rest.afterCommit]
    split
    · exact h.2
    · exact h
  | _ => exact h

/-- The batch that was worked on is settled. -/
theorem Rest.Working.settle {seq : Nat} (h : c.Working r seq) :
    c.commits = true ∧ c.Placed { r with current := none } := by
  cases c with
  | replay => exact ⟨rfl, h.1, rfl⟩
  | loop | pausing => exact ⟨rfl, h.1, rfl⟩
  | ending => exact ⟨rfl, rfl⟩
  | _ => cases h

theorem addGoal_inflight (goal : Option NodeId) (r : Runner F) :
    addGoal goal r = { r with goalNodes := (addGoal goal r).goalNodes } := by
  unfold addGoal
  split
  · rfl
  · split <;> rfl

theorem Local.placed (hl : Local exp p r p' r') (h : Placed r p) : Placed r' p' := by
  cases hl with
  | touch hsame =>
    exact h.congr hsame.batchSeq hsame.replayQueue hsame.pipeline hsame.inflight hsame.current
  | fail => exact h.onError
  | pop hq => exact ⟨h.1, rfl⟩
  | enterLoop hq => exact ⟨hq, h.2⟩
  | ending => exact h.2
  | selected => exact ⟨h, rfl⟩
  | @accepted replay i =>
    cases replay with
    | true => exact h
    | false => exact h
  | flight => exact h.1
  | @take c d _ i hi =>
    obtain ⟨hc, h⟩ := h
    have hseq : i.seq = d.seq := by simpa using List.find?_some hi
    cases c with
    | loop | pausing => exact ⟨h.1, congrArg some hseq⟩
    | ending => exact congrArg some hseq
    | _ => cases hc
  | @settle c d goal =>
    rw [addGoal_inflight]
    exact Rest.Working.settle h
  | truncated => exact Rest.Placed.afterCheckpoint h
  | commitFailed | replayChildFailed | replayParentFailed => trivial
  | _ => exact h

theorem Next.placed {op : Op F} {a : Ans F op} (hn : Next exp p r op a p' r') (h : Placed r p) :
    Placed r' p' := by
  cases hn with
  | quiet _ => exact h
  | failed _ => exact h.onError
  | foundCheckpoint => exact ⟨h.1, h.2.1⟩
  | buildReplay => exact h
  | @offered replay =>
    cases replay with
    | true => exact h
    | false => exact h
  | @submittedReplay i bursts _ b hs =>
    obtain ⟨⟨hi, hp⟩, hc⟩ := h
    exact ⟨hi, hc, by simp [hp, hs]⟩
  | @completed c _ k jobs b hc hb =>
    cases c with
    | popped i => simp [h.1.2] at hb
    | loop | pausing | ending => exact ⟨rfl, h⟩
    | _ => cases hc
  | @completedReplay i _ k jobs b hb =>
    obtain ⟨hi, hc, hp⟩ := h
    obtain ⟨b', hb'⟩ : ∃ b', r.pipeline = [b'] := by
      cases hpipe : r.pipeline with
      | nil => simp [hpipe] at hp
      | cons b' rest => exact ⟨b', by simp_all⟩
    rw [hb'] at hb hp
    cases k with
    | succ k => simp at hb
    | zero =>
      cases hb
      exact ⟨⟨hi, by simp [hb']⟩, by simpa [hc] using hp.symm⟩
  | committed => exact h.2.afterCommit
  | aborted => trivial
  | _ => exact h

end

/-! ### The numbers given out -/

/-- The replay queue ends at the next number, and the batches in flight have different
numbers below it. -/
structure Numbers (r : Runner F) : Prop where
  le : effectiveCheckpointSeq r ≤ r.batchSeq
  queue : r.replayQueue.map (·.seq) =
    List.range' (effectiveCheckpointSeq r) (r.batchSeq - effectiveCheckpointSeq r)
  inflight : ∀ i ∈ r.inflight, i.seq < r.batchSeq
  nodup : (r.inflight.map (·.seq)).Nodup

variable {r : Runner F}

theorem effectiveCheckpointSeq_congr {r' : Runner F} (hs : r'.batchSeq = r.batchSeq)
    (hq : r'.replayQueue = r.replayQueue) :
    effectiveCheckpointSeq r' = effectiveCheckpointSeq r := by
  unfold effectiveCheckpointSeq
  rw [hs, hq]

theorem effectiveCheckpointSeq_nil (h : r.replayQueue = []) :
    effectiveCheckpointSeq r = r.batchSeq := by
  rw [effectiveCheckpointSeq, h]

section

variable {p p' : Point F} {r r' : Runner F}

theorem Numbers.congr (h : Numbers r) (hs : r'.batchSeq = r.batchSeq)
    (hq : r'.replayQueue = r.replayQueue) (hi : r'.inflight = r.inflight) : Numbers r' := by
  have he := effectiveCheckpointSeq_congr hs hq
  refine ⟨?_, ?_, ?_, ?_⟩
  · rw [he, hs]
    exact h.le
  · rw [he, hs, hq]
    exact h.queue
  · rw [hi, hs]
    exact h.inflight
  · rw [hi]
    exact h.nodup

theorem Numbers.of_nil (hq : r.replayQueue = []) (hi : ∀ i ∈ r.inflight, i.seq < r.batchSeq)
    (hn : (r.inflight.map (·.seq)).Nodup) : Numbers r := by
  have he := effectiveCheckpointSeq_nil hq
  exact ⟨he.le, by simp [he, hq], hi, hn⟩

variable {i : ExpansionIntent}

variable {rest intents : List ExpansionIntent} {n : Nat}

/-- The next intent to replay has the first number, and the others follow it. -/
theorem Numbers.head (h : Numbers r) (hq : r.replayQueue = i :: rest) :
    i.seq < r.batchSeq ∧
      rest.map (·.seq) = List.range' (i.seq + 1) (r.batchSeq - (i.seq + 1)) ∧
      effectiveCheckpointSeq { r with replayQueue := rest, current := some i } = i.seq + 1 := by
  have hqueue := h.queue
  have hle := h.le
  have he : effectiveCheckpointSeq r = i.seq := by rw [effectiveCheckpointSeq, hq]
  rw [hq, he] at hqueue
  rw [he] at hle
  have hlt : i.seq < r.batchSeq := by
    rcases Nat.lt_or_ge i.seq r.batchSeq with hlt | hge
    · exact hlt
    · simp [Nat.sub_eq_zero_of_le hge] at hqueue
  obtain ⟨n, hn⟩ : ∃ n, r.batchSeq - i.seq = n + 1 := ⟨r.batchSeq - i.seq - 1, by omega⟩
  have hrest : rest.map (·.seq) = List.range' (i.seq + 1) n := by
    rw [hn, List.range'_succ, List.map_cons] at hqueue
    exact (List.cons.inj hqueue).2
  have hlen : r.batchSeq - (i.seq + 1) = n := by omega
  refine ⟨hlt, hlen ▸ hrest, ?_⟩
  cases rest with
  | nil =>
    have hn0 : n = 0 := by simpa using (congrArg List.length hrest).symm
    simp only [effectiveCheckpointSeq]
    omega
  | cons j rest =>
    cases n with
    | zero => simp at hrest
    | succ n =>
      rw [List.range'_succ, List.map_cons] at hrest
      exact (List.cons.inj hrest).1

theorem Numbers.pop (h : Numbers r) (hq : r.replayQueue = i :: rest) :
    Numbers { r with replayQueue := rest, current := some i } := by
  obtain ⟨hlt, hrest, he⟩ := h.head hq
  exact ⟨he ▸ hlt, he ▸ hrest, h.inflight, h.nodup⟩

theorem Numbers.enterFlight_eq (h : Numbers r) (hi : i.seq = r.batchSeq) :
    enterFlight i r = { r with batchSeq := r.batchSeq + 1, inflight := r.inflight ++ [i] } := by
  have hfilter : r.inflight.filter (·.seq ≠ i.seq) = r.inflight := by
    refine List.filter_eq_self.mpr fun j hj => ?_
    have := h.inflight j hj
    exact decide_eq_true (by omega)
  rw [enterFlight, hfilter, hi, Nat.max_eq_right (Nat.le_succ _)]

theorem Numbers.flight (h : Numbers r) (hq : r.replayQueue = []) (hi : i.seq = r.batchSeq) :
    Numbers (enterFlight i r) := by
  rw [h.enterFlight_eq hi]
  refine .of_nil hq ?_ ?_
  · intro j hj
    rcases List.mem_append.mp hj with hj | hj
    · exact Nat.lt_succ_of_lt (h.inflight j hj)
    · rw [List.mem_singleton.mp hj, hi]
      exact Nat.lt_succ_self _
  · rw [List.map_append, List.nodup_append]
    refine ⟨h.nodup, by simp, ?_⟩
    intro seq hseq seq' hseq'
    obtain ⟨j, hj, rfl⟩ := List.mem_map.mp hseq
    have := h.inflight j hj
    simp only [List.map_cons, List.map_nil, List.mem_singleton] at hseq'
    omega

theorem Numbers.take {seq : Nat} {current : Option ExpansionIntent} (h : Numbers r) :
    Numbers { r with inflight := r.inflight.filter (·.seq ≠ seq), current } :=
  ⟨h.le, h.queue, fun i hi => h.inflight i (List.mem_of_mem_filter hi),
    h.nodup.sublist (List.filter_sublist.map _)⟩

theorem nextSeq_of_range {low : Nat} (h : intents.map (·.seq) = List.range' low n) :
    nextSeq low intents = low + n := by
  induction intents generalizing low n with
  | nil =>
    have hn : n = 0 := by simpa using (congrArg List.length h).symm
    rw [hn]
    rfl
  | cons i rest ih =>
    cases n with
    | zero => simp at h
    | succ n =>
      rw [List.range'_succ, List.map_cons] at h
      obtain ⟨hi, hrest⟩ := List.cons.inj h
      have hmax : max low (i.seq + 1) = low + 1 := by omega
      have hnext := ih hrest
      simp only [nextSeq, List.foldl_cons, hmax] at hnext ⊢
      omega

/-- The books of a resume queue the whole window. -/
theorem numbers_restoreBooks (exp : Experiment F) {cp : Checkpoint F} (hi : r.inflight = [])
    (h : intents.map (·.seq) = List.range' cp.batchSeq n) :
    Numbers (restoreBooks exp cp intents r) ∧
      effectiveCheckpointSeq (restoreBooks exp cp intents r) = cp.batchSeq ∧
      (restoreBooks exp cp intents r).batchSeq = cp.batchSeq + n := by
  have hs : (restoreBooks exp cp intents r).batchSeq = cp.batchSeq + n := nextSeq_of_range h
  have he : effectiveCheckpointSeq (restoreBooks exp cp intents r) = cp.batchSeq := by
    cases intents with
    | nil => rfl
    | cons i rest =>
      cases n with
      | zero => simp at h
      | succ n =>
        rw [List.range'_succ, List.map_cons] at h
        exact (List.cons.inj h).1
  have hflight : (restoreBooks exp cp intents r).inflight = [] := hi
  refine ⟨⟨?_, ?_, ?_, ?_⟩, he, hs⟩
  · omega
  · rw [he, hs, Nat.add_sub_cancel_left]
    exact h
  · simp [hflight]
  · simp [hflight]

end

/-! ### The window in the store -/

/-- Every write-ahead entry is under its own number. -/
def Keyed (s : Store F) : Prop :=
  ∀ (seq : Nat) (i : ExpansionIntent), s.wal[seq]? = some i → i.seq = seq

/-- Every write-ahead entry is under its own number, there is none before the first
checkpoint, and from the checkpoint's number on none is missing. -/
structure Queued (s : Store F) : Prop where
  keyed : Keyed s
  fresh : s.checkpoint = none → ∀ seq : Nat, s.wal[seq]? = none
  window : ∀ cp g, s.checkpoint = some (cp, g) → ∃ top, Window s.wal cp.batchSeq top

/-- The window starts at or before the runner's first unsettled number, and ends at `top`. -/
def Spans (r : Runner F) (s : Store F) (top : Nat) : Prop :=
  ∃ cp g, s.checkpoint = some (cp, g) ∧ cp.batchSeq ≤ effectiveCheckpointSeq r ∧
    Window s.wal cp.batchSeq top

/-- The window ends at the runner's next number; after a dispatch that failed the next number
may be in it. -/
def Rest.Covers (r : Runner F) (s : Store F) (c : Rest) : Prop :=
  ∃ top, Spans r s top ∧ (top = r.batchSeq ∨ c = .failed ∧ top = r.batchSeq + 1)

/-- A resume has seen the entries below `seq`, the last ones missing. -/
structure Collecting (s : Store F) (cp : Checkpoint F) (seq misses : Nat)
    (intents : List ExpansionIntent) (top : Nat) : Prop where
  window : Window s.wal cp.batchSeq top
  low : cp.batchSeq ≤ seq
  seqs : intents.map (·.seq) = List.range' cp.batchSeq (min seq top - cp.batchSeq)
  inside : misses = 0 → seq ≤ top
  outside : 0 < misses → top ≤ seq

/-- A resume has loaded the whole window. -/
def Loaded (s : Store F) (cp : Checkpoint F) (intents : List ExpansionIntent) : Prop :=
  ∃ top, Window s.wal cp.batchSeq top ∧
    intents.map (·.seq) = List.range' cp.batchSeq (top - cp.batchSeq)

/-- What a point says about the window. -/
def Tracks (r : Runner F) (s : Store F) : Point F → Prop
  | .start | .ended | .fresh | .bootstrapped _ | .rootReady _ _ | .rootStored _ | .found _ _
  | .resuming _ => True
  | .at c | .began c | .archived c _ => c ≠ .booted → c.Covers r s
  | .collecting cp seq misses intents => ∃ top, Collecting s cp seq misses intents top
  | .loaded cp intents | .adopted cp intents _ | .restored cp intents _ | .ready cp intents =>
    Loaded s cp intents
  | .walled _ _ | .submitted _ => Spans r s (r.batchSeq + 1)
  | .truncating c covered rest =>
    c.Covers r s ∧ s.checkpoint.map (·.1.batchSeq) = some covered ∧ ∀ seq ∈ rest, seq < covered
  | _ => Spans r s r.batchSeq

section

variable {p p' : Point F} {r r' : Runner F} {s s' : Store F}

theorem Spans.covers (h : Spans r s r.batchSeq) (c : Rest) : c.Covers r s := ⟨_, h, .inl rfl⟩

variable {c : Rest}

theorem Rest.Covers.spans (h : c.Covers r s) (hc : c ≠ .failed) : Spans r s r.batchSeq := by
  obtain ⟨top, h, rfl | ⟨hfail, -⟩⟩ := h
  · exact h
  · exact absurd hfail hc

theorem Rest.Covers.failed (h : c.Covers r s) : Rest.Covers r s .failed := by
  obtain ⟨top, h, rfl | ⟨-, rfl⟩⟩ := h
  · exact h.covers _
  · exact ⟨_, h, .inr ⟨rfl, rfl⟩⟩

theorem Tracks.onError (h : Tracks r s p) : Tracks r s p.onError := by
  cases p with
  | «at» c | began c | archived c _ =>
    cases c with
    | booted => trivial
    | _ => exact fun _ => (h (by simp)).failed
  | completed c _ =>
    cases c with
    | booted => trivial
    | _ => exact fun _ => Spans.covers h _
  | truncating c _ _ =>
    cases c with
    | booted => trivial
    | _ => exact fun _ => h.1.failed
  | walled | submitted => exact fun _ => ⟨_, h, .inr ⟨rfl, rfl⟩⟩
  | start | ended | fresh | bootstrapped | rootReady | rootStored | found | resuming | collecting
  | loaded | adopted | restored | ready | starting | settled => trivial
  | filling | selecting | dispatching | requested | offered | proposed | sent =>
    exact fun _ => Spans.covers h _
  | _ => exact h

theorem Tracks.congr (h : Tracks r s p) (hs : r'.batchSeq = r.batchSeq)
    (hq : r'.replayQueue = r.replayQueue) : Tracks r' s p := by
  have he := effectiveCheckpointSeq_congr hs hq
  unfold Tracks Rest.Covers Spans at h ⊢
  rw [hs, he]
  exact h

theorem Tracks.of_store (h : Tracks r s p) (hw : s'.wal = s.wal)
    (hc : s'.checkpoint = s.checkpoint) : Tracks r s' p := by
  have hspans : ∀ {top}, Spans r s top → Spans r s' top := by
    rintro top ⟨cp, g, hcp, hle, hwin⟩
    exact ⟨cp, g, hc ▸ hcp, hle, hw ▸ hwin⟩
  have hcovers : ∀ {c : Rest}, c.Covers r s → c.Covers r s' :=
    fun ⟨top, h, hle⟩ => ⟨top, hspans h, hle⟩
  have hloaded : ∀ {cp intents}, Loaded s cp intents → Loaded s' cp intents :=
    fun ⟨top, h, hseqs⟩ => ⟨top, hw ▸ h, hseqs⟩
  cases p with
  | start | ended | fresh | bootstrapped | rootReady | rootStored | found | resuming => trivial
  | «at» | began | archived => exact fun hc => hcovers (h hc)
  | collecting =>
    obtain ⟨top, h⟩ := h
    exact ⟨top, hw ▸ h.1, h.2, h.3, h.4, h.5⟩
  | loaded | adopted | restored | ready => exact hloaded h
  | walled | submitted => exact hspans h
  | truncating => exact ⟨hcovers h.1, hc ▸ h.2⟩
  | _ => exact hspans h

theorem Queued.of_store (h : Queued s) (hw : s'.wal = s.wal)
    (hc : s'.checkpoint = s.checkpoint) : Queued s' :=
  ⟨by unfold Keyed; rw [hw]; exact h.keyed, by rw [hw, hc]; exact h.fresh,
    by rw [hw, hc]; exact h.window⟩

end

/-! ### The invariant -/

/-- Where a process, its numbers and the window are. -/
structure Sequenced (p : Point F) (r : Runner F) (s : Store F) : Prop where
  placed : Placed r p
  numbers : Numbers r
  tracks : Tracks r s p
  queued : Queued s

section

variable {p p' : Point F} {r r' : Runner F} {s s' : Store F}

variable {cp : Checkpoint F} {seq misses top : Nat} {intents : List ExpansionIntent}
  {i : ExpansionIntent} {g : Nat}

theorem Collecting.loaded (h : Collecting s cp seq misses intents top) (hm : 0 < misses) :
    Loaded s cp (intents.insertionSort (·.seq ≤ ·.seq)) := by
  have hseqs := h.seqs
  rw [Nat.min_eq_right (h.outside hm)] at hseqs
  have hsorted : intents.Pairwise (·.seq ≤ ·.seq) := by
    refine List.pairwise_map.mp ?_
    rw [hseqs]
    exact (List.pairwise_lt_range' 1).imp Nat.le_of_lt
  rw [List.Pairwise.insertionSort_eq hsorted]
  exact ⟨top, h.window, hseqs⟩

theorem Spans.pop {rest : List ExpansionIntent} (h : Spans r s top) (hn : Numbers r)
    (hq : r.replayQueue = i :: rest) :
    Spans { r with replayQueue := rest, current := some i } s top := by
  obtain ⟨cp, g, hcp, hle, hwin⟩ := h
  obtain ⟨-, -, he⟩ := hn.head hq
  refine ⟨cp, g, hcp, ?_, hwin⟩
  rw [he]
  rw [effectiveCheckpointSeq, hq] at hle
  exact Nat.le_succ_of_le hle

theorem Spans.flight (h : Spans r s (r.batchSeq + 1)) (hn : Numbers r) (hq : r.replayQueue = [])
    (hi : i.seq = r.batchSeq) : Spans (enterFlight i r) s (enterFlight i r).batchSeq := by
  obtain ⟨cp, g, hcp, hle, hwin⟩ := h
  rw [effectiveCheckpointSeq_nil hq] at hle
  rw [hn.enterFlight_eq hi]
  refine ⟨cp, g, hcp, ?_, hwin⟩
  rw [effectiveCheckpointSeq_nil (by exact hq)]
  exact Nat.le_succ_of_le hle

theorem Loaded.books (exp : Experiment F) (h : Loaded s cp intents)
    (hcp : s.checkpoint.map (·.1) = some cp) (hi : r.inflight = []) :
    Numbers (restoreBooks exp cp intents r) ∧
      Spans (restoreBooks exp cp intents r) s (restoreBooks exp cp intents r).batchSeq := by
  obtain ⟨top, hwin, hseqs⟩ := h
  obtain ⟨hn, he, hs⟩ := numbers_restoreBooks exp hi hseqs
  obtain ⟨⟨_, g⟩, hckpt, rfl⟩ := Option.map_eq_some_iff.mp hcp
  rw [Nat.add_sub_cancel' hwin.le] at hs
  rw [hs]
  exact ⟨hn, _, g, hckpt, he.ge, hwin⟩

theorem Local.sequenced (hl : Local exp p r p' r')
    (hread : ∀ cp, p.reads = some cp → s.checkpoint.map (·.1) = some cp)
    (h : Sequenced p r s) : Sequenced p' r' s := by
  obtain ⟨hplaced, hnumbers, htracks, hqueued⟩ := h
  have hplaced' := hl.placed hplaced
  suffices h : Numbers r' ∧ Tracks r' s p' from ⟨hplaced', h.1, h.2, hqueued⟩
  cases hl with
  | touch hsame =>
    exact ⟨hnumbers.congr hsame.batchSeq hsame.replayQueue hsame.inflight,
      htracks.congr hsame.batchSeq hsame.replayQueue⟩
  | fail => exact ⟨hnumbers, htracks.onError⟩
  | adoptGeneration => exact ⟨hnumbers.congr rfl rfl rfl, trivial⟩
  | @collect cp =>
    obtain ⟨⟨_, g⟩, hckpt, rfl⟩ := Option.map_eq_some_iff.mp (hread cp rfl)
    obtain ⟨top, hwin⟩ := hqueued.window _ g hckpt
    exact ⟨hnumbers, top, hwin, Nat.le_refl _, by simp [hwin.le], fun _ => hwin.le, by simp⟩
  | loaded hm =>
    obtain ⟨top, hcollect⟩ := htracks
    exact ⟨hnumbers, hcollect.loaded (by omega)⟩
  | @books cp => exact Loaded.books exp htracks (hread cp rfl) hplaced.1.1
  | pop hq =>
    have hspans := (htracks (by simp)).spans (by simp)
    exact ⟨hnumbers.pop hq, fun _ => (hspans.pop hnumbers hq).covers _⟩
  | enterLoop | pausing | ending =>
    exact ⟨hnumbers, fun _ => ((htracks (by simp)).spans (by simp)).covers _⟩
  | fill => exact ⟨hnumbers, (htracks (by simp)).spans (by simp)⟩
  | filled | unselected => exact ⟨hnumbers, fun _ => Spans.covers htracks _⟩
  | flight =>
    exact ⟨hnumbers.flight hplaced.1.1 hplaced.2,
      Spans.flight htracks hnumbers hplaced.1.1 hplaced.2⟩
  | take => exact ⟨hnumbers.take, htracks.congr rfl rfl⟩
  | settle =>
    rw [addGoal_inflight]
    exact ⟨hnumbers.congr rfl rfl rfl, htracks.congr rfl rfl⟩
  | @truncated c =>
    refine ⟨hnumbers.congr rfl rfl rfl, ?_⟩
    cases c with
    | booted => exact htracks.1.spans (by simp)
    | pausing => exact fun _ => (htracks.1.spans (by simp)).covers _
    | _ => exact fun _ => htracks.1
  | _ => exact ⟨hnumbers.congr rfl rfl rfl, htracks.congr rfl rfl⟩

variable {archive : ArchiveSnapshot} {value : Checkpoint F} {c : Rest}

theorem buildCheckpoint_batchSeq {r : Runner F} (h : buildCheckpoint exp r archive = some value) :
    value.batchSeq = effectiveCheckpointSeq r := by
  obtain ⟨frontier, -, rfl⟩ := Option.map_eq_some_iff.mp h
  rfl

/-- A checkpoint moves the start of the window to the runner's first unsettled number. -/
theorem covers_put (h : Sequenced (.archived c archive) r s)
    (hopen : c = .booted → s.checkpoint = none) (hv : buildCheckpoint exp r archive = some value) :
    c.Covers r { s with checkpoint := some (value, g) } ∧
      Queued { s with checkpoint := some (value, g) } := by
  have hbatch := buildCheckpoint_batchSeq hv
  have hle := h.numbers.le
  suffices hwin : ∃ top, Window s.wal value.batchSeq top ∧
      (top = r.batchSeq ∨ c = .failed ∧ top = r.batchSeq + 1) by
    obtain ⟨top, hwin, htop⟩ := hwin
    refine ⟨⟨top, ⟨value, g, rfl, hbatch.le, hwin⟩, htop⟩, h.queued.keyed, by simp, ?_⟩
    intro cp g' hcp
    cases hcp
    exact ⟨top, hwin⟩
  rw [hbatch]
  by_cases hc : c = .booted
  · subst hc
    obtain ⟨-, -, hs, hq⟩ := h.placed
    rw [effectiveCheckpointSeq_nil hq, hs]
    exact ⟨0, .of_empty (h.queued.fresh (hopen rfl)) 0, .inl rfl⟩
  · obtain ⟨top, ⟨cp, g', -, hlow, hwin⟩, htop⟩ := h.tracks hc
    exact ⟨top, hwin.raise hlow (by omega), htop⟩

/-- A dispatch writes the next number. -/
theorem spans_putWal (h : Spans r s r.batchSeq) (hq : Queued s) (hi : i.seq = r.batchSeq) :
    Spans r (s.putWal i.seq i) (r.batchSeq + 1) ∧ Queued (s.putWal i.seq i) := by
  obtain ⟨cp, g, hcp, hlow, hwin⟩ := h
  have hnew : Window (s.putWal i.seq i).wal cp.batchSeq (r.batchSeq + 1) := by
    have hins := hwin.insert (k := i.seq) (v := i) (by omega)
    rwa [show max r.batchSeq (i.seq + 1) = r.batchSeq + 1 by omega] at hins
  refine ⟨⟨cp, g, hcp, hlow, hnew⟩, ?_, ?_, ?_⟩
  · intro seq j hj
    rw [Store.putWal, getElem?_insert_if] at hj
    split at hj
    · rename_i heq
      cases hj
      exact heq.symm
    · exact hq.keyed seq j hj
  · intro hnone
    rw [Store.putWal, hcp] at hnone
    cases hnone
  · intro cp' g' hcp'
    rw [Store.putWal, hcp] at hcp'
    cases hcp'
    exact ⟨_, hnew⟩

/-- A delete below the checkpoint's number leaves the window. -/
theorem queued_erase (hq : Queued s) (hcp : s.checkpoint = some (cp, g)) (hseq : seq < cp.batchSeq)
    :
    Queued { s with wal := s.wal.erase seq } := by
  refine ⟨?_, ?_, ?_⟩
  · intro k i hi
    rw [getElem?_erase_if] at hi
    split at hi
    · cases hi
    · exact hq.keyed k i hi
  · intro hnone
    rw [show s.checkpoint = none from hnone] at hcp
    cases hcp
  · intro cp' g' hcp'
    obtain ⟨top, hwin⟩ := hq.window cp' g' hcp'
    rw [show s.checkpoint = some (cp', g') from hcp'] at hcp
    cases hcp
    exact ⟨top, hwin.erase hseq⟩

theorem covers_erase (h : c.Covers r s) (hcp : s.checkpoint = some (cp, g))
    (hseq : seq < cp.batchSeq) : c.Covers r { s with wal := s.wal.erase seq } := by
  obtain ⟨top, ⟨cp', g', hcp', hlow, hwin⟩, htop⟩ := h
  rw [hcp'] at hcp
  cases hcp
  exact ⟨top, ⟨cp, g, hcp', hlow, hwin.erase hseq⟩, htop⟩

theorem Collecting.hit (h : Collecting s cp seq misses intents top) (hk : Keyed s)
    (hi : s.wal[seq]? = some i) : Collecting s cp (seq + 1) 0 (intents ++ [i]) top := by
  have hlt : seq < top := (h.window.mem seq h.low).mp (by rw [hi]; rfl)
  have hseqs := h.seqs
  have hlow := h.low
  rw [Nat.min_eq_left hlt.le] at hseqs
  refine ⟨h.window, Nat.le_succ_of_le h.low, ?_, fun _ => hlt, by simp⟩
  rw [Nat.min_eq_left hlt, List.map_append, hseqs, Nat.succ_sub hlow, List.range'_concat]
  simp [hk seq i hi, hlow]

theorem Collecting.miss (h : Collecting s cp seq misses intents top) (hi : s.wal[seq]? = none) :
    Collecting s cp (seq + 1) (misses + 1) intents top := by
  have hge : top ≤ seq := by
    by_contra hlt
    have := (h.window.mem seq h.low).mpr (Nat.lt_of_not_le hlt)
    rw [hi] at this
    cases this
  refine ⟨h.window, Nat.le_succ_of_le h.low, ?_, by simp, fun _ => Nat.le_succ_of_le hge⟩
  rw [h.seqs, Nat.min_eq_right hge, Nat.min_eq_right (Nat.le_succ_of_le hge)]

end

section

variable {p p' : Point F} {r r' : Runner F} {op : Op F} {a : Ans F op} {w w' : World F}

/-- A call that leaves the write-ahead entries and the checkpoint alone. -/
theorem Sequenced.frame (h : Sequenced p r w.store) (ha : env exp op w a w')
    (hw : op.writesWal = false) (hc : op.writesCheckpoint = false) :
    Sequenced p r w'.store :=
  ⟨h.placed, h.numbers, h.tracks.of_store (env_wal ha hw) (env_checkpoint ha hc),
    h.queued.of_store (env_wal ha hw) (env_checkpoint ha hc)⟩

theorem Sequenced.onError (h : Sequenced p r w.store) : Sequenced p.onError r w.store :=
  ⟨h.placed.onError, h.numbers, h.tracks.onError, h.queued⟩

/-- A delete below the checkpoint's number, whatever the answer. -/
theorem env_deleteWal_window {seq : Nat} {a : Ans F (.deleteWal seq)} {cp : Checkpoint F} {g : Nat}
    (ha : env exp (.deleteWal seq) w a w') (hq : Queued w.store)
    (hcp : w.store.checkpoint = some (cp, g)) (hseq : seq < cp.batchSeq) :
    Queued w'.store ∧ ∀ c : Rest, c.Covers r w.store → c.Covers r w'.store := by
  refine env_induct (P := fun x => Queued x.store ∧ ∀ c : Rest, c.Covers r w.store →
    c.Covers r x.store) ha ⟨hq, fun _ => id⟩ (fun w₁ happ => ?_) fun _ _ h => h
  cases happ with
  | deleteWal hdelete =>
    rw [Store.deleteWal_ok hdelete]
    exact ⟨queued_erase hq hcp hseq, fun _ h => covers_erase h hcp hseq⟩

theorem Point.Opened.booted {c : Rest} {archive : ArchiveSnapshot} {s : Store F}
    (h : (Point.archived c archive : Point F).Opened s.checkpoint.isSome) (hc : c = .booted) :
    s.checkpoint = none := by
  subst hc
  simpa [Point.Opened] using h

theorem Issues.sequenced (hi : Issues exp p r op) (ha : env exp op w a w')
    (hopen : p.Opened w.store.checkpoint.isSome) (h : Sequenced p r w.store) :
    Sequenced p.onError r w'.store := by
  have herr := h.onError
  cases hi with
  | @write i bursts =>
    obtain ⟨hspans, hqueued⟩ := spans_putWal h.tracks h.queued h.placed.2
    refine env_induct (P := fun x => Sequenced (.at .failed) r x.store) ha herr (fun w₁ happ => ?_)
      fun _ _ h => h
    cases happ with
    | putWal => exact ⟨trivial, h.numbers, fun _ => ⟨_, hspans, .inr ⟨rfl, rfl⟩⟩, hqueued⟩
  | @put c archive _ value hv =>
    refine env_induct (P := fun x => Sequenced c.onError r x.store) ha herr (fun w₁ happ => ?_)
      fun _ _ h => h
    cases happ with
    | putCheckpoint hput =>
      obtain ⟨hcovers, hqueued⟩ := covers_put (g := _) h hopen.booted hv
      rw [(Store.putCheckpoint_ok hput).2.2]
      refine ⟨herr.placed, h.numbers, ?_, hqueued⟩
      cases c with
      | booted => trivial
      | _ => exact fun _ => hcovers.failed
  | @truncate c covered seq rest =>
    obtain ⟨hcovers, hcp, hrest⟩ := h.tracks
    obtain ⟨⟨cp, g⟩, hckpt, rfl⟩ := Option.map_eq_some_iff.mp hcp
    obtain ⟨hqueued, hcovers'⟩ := env_deleteWal_window (r := r) ha h.queued hckpt
      (hrest seq List.mem_cons_self)
    refine ⟨herr.placed, h.numbers, ?_, hqueued⟩
    cases c with
    | booted => trivial
    | _ => exact fun _ => (hcovers' _ hcovers).failed
  | _ => exact herr.frame ha rfl rfl

theorem Next.sequenced (hn : Next exp p r op a p' r') (ha : env exp op w a w')
    (hopen : p.Opened w.store.checkpoint.isSome)
    (hread : ∀ cp, p.reads = some cp → w.store.checkpoint.map (·.1) = some cp)
    (h : Sequenced p r w.store) : Sequenced p' r' w'.store := by
  have hplaced := hn.placed h.placed
  cases hn with
  | quiet hq =>
    exact h.frame ha (by cases op <;> simp_all [Op.quiet, Op.writesWal])
      (Op.keeps_of_quiet hq)
  | failed hi => exact hi.sequenced ha hopen h
  | @stale cp seq _ _ hseq =>
    obtain ⟨⟨_, g⟩, hckpt, rfl⟩ := Option.map_eq_some_iff.mp (hread cp rfl)
    exact ⟨hplaced, h.numbers, trivial,
      (env_deleteWal_window (r := r) ha h.queued hckpt hseq).1⟩
  | collected =>
    obtain ⟨top, hcollect⟩ := h.tracks
    obtain ⟨hi, rfl⟩ := env_getWal_ok ha
    exact ⟨hplaced, h.numbers, ⟨top, hcollect.hit h.queued.keyed hi⟩, h.queued⟩
  | missed he =>
    have hframe := h.frame ha rfl rfl
    obtain ⟨top, hcollect⟩ := hframe.tracks
    have hi := env_getWal_notFound he ha
    rw [← env_wal ha rfl] at hi
    exact ⟨hplaced, h.numbers, ⟨top, hcollect.miss hi⟩, hframe.queued⟩
  | @written i bursts =>
    obtain rfl := env_putWal_ok ha
    obtain ⟨hspans, hqueued⟩ := spans_putWal h.tracks h.queued h.placed.2
    exact ⟨hplaced, h.numbers, hspans, hqueued⟩
  | @put c archive _ value g hv =>
    obtain ⟨store, hput, rfl⟩ := env_putCheckpoint_ok ha
    obtain ⟨hcovers, hqueued⟩ := covers_put (g := g) h hopen.booted hv
    obtain ⟨-, -, rfl⟩ := Store.putCheckpoint_ok hput
    refine ⟨hplaced, h.numbers.congr rfl rfl rfl, ⟨?_, ?_, ?_⟩, hqueued⟩
    · exact hcovers
    · exact congrArg some (buildCheckpoint_batchSeq hv)
    · intro seq hseq
      have hmem := List.mem_range'_1.mp hseq
      omega
  | @truncated c covered seq rest =>
    obtain ⟨hcovers, hcp, hrest⟩ := h.tracks
    obtain ⟨⟨cp, g⟩, hckpt, rfl⟩ := Option.map_eq_some_iff.mp hcp
    obtain ⟨hqueued, hcovers'⟩ := env_deleteWal_window (r := r) ha h.queued hckpt
      (hrest seq List.mem_cons_self)
    refine ⟨hplaced, h.numbers, ⟨hcovers' _ hcovers, ?_, ?_⟩, hqueued⟩
    · rw [env_checkpoint ha rfl]
      exact hcp
    · exact fun k hk => hrest k (List.mem_cons_of_mem _ hk)
  | @completed c _ k jobs b hc hb =>
    have hframe := h.frame ha rfl rfl
    refine ⟨hplaced, h.numbers.congr rfl rfl rfl, ?_, hframe.queued⟩
    have htracks := hframe.tracks
    cases c with
    | booted | failed => cases hc
    | _ => exact Tracks.congr ((htracks (by simp)).spans (by simp)) rfl rfl
  | @committed c d goal =>
    have hframe := h.frame ha rfl rfl
    exact ⟨hplaced, h.numbers, fun _ => Spans.covers hframe.tracks _, hframe.queued⟩
  | aborted | started =>
    have hframe := h.frame ha rfl rfl
    exact ⟨hplaced, h.numbers, fun _ => Spans.covers hframe.tracks _, hframe.queued⟩
  | buildReplay =>
    have hframe := h.frame ha rfl rfl
    exact ⟨hplaced, h.numbers, (hframe.tracks (by simp)).spans (by simp), hframe.queued⟩
  | rootScored | foundCheckpoint =>
    exact ⟨hplaced, h.numbers.congr rfl rfl rfl, trivial, (h.frame ha rfl rfl).queued⟩
  | rootReplayed =>
    exact ⟨hplaced, h.numbers, fun hb => absurd rfl hb, (h.frame ha rfl rfl).queued⟩
  | _ =>
    have hframe := h.frame ha rfl rfl
    exact ⟨hplaced, h.numbers.congr rfl rfl rfl, hframe.tracks.congr rfl rfl, hframe.queued⟩

end

theorem sequenced_start (exp : Experiment F) {s : Store F} (h : Queued s) :
    Sequenced .start (.initial exp) s :=
  ⟨⟨⟨rfl, rfl⟩, rfl, rfl, rfl⟩, .of_nil rfl (by simp [Runner.initial]) (by simp [Runner.initial]),
    trivial, h⟩

/-- **The write-ahead window.** At every point of every run: the process is where the point
says, its numbers are in order, and from the checkpoint's number on no entry is missing. -/
theorem Reach.sequenced {p : Point F} {w : World F} (h : Reaches exp p r w) :
    Sequenced p r w.store := by
  induction h with
  | init hw =>
    subst hw
    refine sequenced_start exp ⟨?_, ?_, ?_⟩
    · intro seq i hi
      simp [World.empty, Store.new] at hi
    · simp [World.empty, Store.new]
    · simp [World.empty, Store.new]
  | restart _ _ ih => exact sequenced_start exp ih.queued
  | loc h hl ih => exact hl.sequenced (fun _ => h.current) ih
  | call h hn ha ih => exact hn.sequenced ha h.opened (fun _ => h.current) ih

end Orchestrator.Server
