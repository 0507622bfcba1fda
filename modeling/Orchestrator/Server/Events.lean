import Orchestrator.Services.Types

/-! # Server — The event ring

The emitter puts a bounded ring in front of the observatory's sink. An event gets the next
sequence number, the ring is offered to the sink, the oldest waiting event is dropped if the
ring is full all the same, and the new event joins the ring and is offered in its turn. The
sink is any state machine that accepts or refuses what it is offered. A history of calls comes
with what the emitter did: each call of the sink with its answer, and each drop.

* `Accounts`: where the numbers assigned so far are. The three moves of the emitter keep it
  (`Accounts.accept`, `Accounts.drop`, `Accounts.push`).
* `EventEmitter.Sound.call`: so does a call.
* `EventEmitter.event_ring`: the accounts of every history of calls.
-/

namespace Orchestrator.Server

open Services

structure EventEnvelope (P : Type) where
  runId : String
  sourceService : String
  producerId : String
  seq : Nat
  tsLogical : Nat
  eventType : String
  payload : P

/-- What the emitter uses of the sink: it accepts an envelope or refuses it, and either may
change it. -/
class EventSink (S P : Type) where
  emit : S → EventEnvelope P → Except ClientError Unit × S

/-- `SOURCE_SERVICE` -/
def sourceService : String := "EXPLORATION_ORCHESTRATOR"

/-- `DEFAULT_RING_CAPACITY` -/
def defaultRingCapacity : Nat := 1024

structure EventEmitter (S P : Type) where
  sink : S
  runId : String
  producerId : String
  nextSeq : Nat
  ring : List (EventEnvelope P)
  capacity : Nat
  droppedTotal : Nat

namespace EventEmitter

variable {S P : Type}

def new (sink : S) (runId producerId : String) : EventEmitter S P where
  sink := sink
  runId := runId
  producerId := producerId
  nextSeq := 1
  ring := []
  capacity := defaultRingCapacity
  droppedTotal := 0

def withCapacity (s : EventEmitter S P) (capacity : Nat) : EventEmitter S P :=
  { s with capacity := max capacity 1 }

/-- What the emitter does with an event: it calls the sink, which answers, or drops it. -/
inductive Act (P : Type) where
  | offered (e : EventEnvelope P) (answer : Except ClientError Unit)
  | dropped (e : EventEnvelope P)

variable [EventSink S P]

/-- The loop of `flush`: the calls of the sink, what stays, and the sink after it. -/
def drain (sink : S) : List (EventEnvelope P) → List (Act P) × List (EventEnvelope P) × S
  | [] => ([], [], sink)
  | envelope :: rest =>
    match EventSink.emit sink envelope with
    | (.ok (), sink') =>
      let (acts, ring, sink'') := drain sink' rest
      (.offered envelope (.ok ()) :: acts, ring, sink'')
    | (.error e, sink') => ([.offered envelope (.error e)], envelope :: rest, sink')

def flush (s : EventEmitter S P) : List (Act P) × EventEmitter S P :=
  let (acts, ring, sink) := drain s.sink s.ring
  (acts, { s with ring := ring, sink := sink })

/-- The `if` of `emit`. -/
def dropIfFull (s : EventEmitter S P) : List (Act P) × EventEmitter S P :=
  if s.ring.length = s.capacity then
    match s.ring with
    | [] => ([], { s with droppedTotal := s.droppedTotal + 1 })
    | oldest :: ring =>
      ([.dropped oldest], { s with ring := ring, droppedTotal := s.droppedTotal + 1 })
  else ([], s)

def emit (s : EventEmitter S P) (tsLogical : Nat) (eventType : String) (payload : P) :
    List (Act P) × EventEmitter S P :=
  let envelope : EventEnvelope P :=
    { runId := s.runId
      sourceService := sourceService
      producerId := s.producerId
      seq := s.nextSeq
      tsLogical := tsLogical
      eventType := eventType
      payload := payload }
  let numbered := { s with nextSeq := s.nextSeq + 1 }
  let (first, flushed) := numbered.flush
  let (dropped, roomy) := flushed.dropIfFull
  let (last, done) := { roomy with ring := roomy.ring ++ [envelope] }.flush
  (first ++ (dropped ++ last), done)

inductive Call (P : Type) where
  | emit (tsLogical : Nat) (eventType : String) (payload : P)
  | flush

def call (s : EventEmitter S P) : Call P → List (Act P) × EventEmitter S P
  | .emit tsLogical eventType payload => s.emit tsLogical eventType payload
  | .flush => s.flush

/-- What the emitter did in a history of calls, in order, and the emitter after it. -/
def calls (s : EventEmitter S P) : List (Call P) → List (Act P) × EventEmitter S P
  | [] => ([], s)
  | c :: rest =>
    let (acts, s') := s.call c
    let (later, s'') := s'.calls rest
    (acts ++ later, s'')

end EventEmitter

/-! ### The numbers accepted and dropped -/

namespace EventEmitter

variable {P : Type}

/-- An event the sink accepted: it was called with it and answered `Ok`. -/
def Act.acceptedSeq : Act P → Option Nat
  | .offered e (.ok ()) => some e.seq
  | _ => none

def Act.droppedSeq : Act P → Option Nat
  | .offered _ _ => none
  | .dropped e => some e.seq

/-- A call of the sink with its answer. -/
def Act.offer : Act P → Option (EventEnvelope P × Except ClientError Unit)
  | .offered e answer => some (e, answer)
  | .dropped _ => none

/-- The numbers accepted by the sink, in the order of acceptance. -/
def acceptedSeqs (acts : List (Act P)) : List Nat := acts.filterMap Act.acceptedSeq

def droppedSeqs (acts : List (Act P)) : List Nat := acts.filterMap Act.droppedSeq

def offers (acts : List (Act P)) : List (EventEnvelope P × Except ClientError Unit) :=
  acts.filterMap Act.offer

@[simp] theorem acceptedSeqs_append (l l' : List (Act P)) :
    acceptedSeqs (l ++ l') = acceptedSeqs l ++ acceptedSeqs l' := List.filterMap_append

@[simp] theorem droppedSeqs_append (l l' : List (Act P)) :
    droppedSeqs (l ++ l') = droppedSeqs l ++ droppedSeqs l' := List.filterMap_append

@[simp] theorem offers_append (l l' : List (Act P)) :
    offers (l ++ l') = offers l ++ offers l' := List.filterMap_append

end EventEmitter

/-! ### The accounts -/

/-- Where the numbers `1, …, assigned` are: each in exactly one of the three lists, accepted
and waiting ones in order, and the waiting ones newer than all that were dropped. -/
structure Accounts (accepted dropped waiting : List Nat) (assigned : Nat) : Prop where
  ordered : (accepted ++ waiting).Pairwise (· < ·)
  once : (accepted ++ dropped ++ waiting).Perm (List.range' 1 assigned)
  newest : ∀ d ∈ dropped, ∀ w ∈ waiting, d < w

namespace Accounts

variable {accepted dropped waiting : List Nat} {assigned : Nat}

theorem nothing : Accounts [] [] [] 0 :=
  ⟨List.Pairwise.nil, List.Perm.refl _, fun _ h => absurd h List.not_mem_nil⟩

/-- The sink takes events off the front. -/
theorem accept {taken : List Nat} (h : Accounts accepted dropped (taken ++ waiting) assigned) :
    Accounts (accepted ++ taken) dropped waiting assigned where
  ordered := by
    rw [List.append_assoc]
    exact h.ordered
  once := by
    refine List.Perm.trans ?_ h.once
    rw [List.append_assoc accepted taken, List.append_assoc, List.append_assoc accepted,
      List.append_assoc taken]
    exact (List.perm_append_comm_assoc taken dropped waiting).append_left accepted
  newest := fun d hd w hw => h.newest d hd w (List.mem_append_right taken hw)

/-- The event at the front is dropped. Those behind it are newer. -/
theorem drop {oldest : Nat} (h : Accounts accepted dropped (oldest :: waiting) assigned) :
    Accounts accepted (dropped ++ [oldest]) waiting assigned where
  ordered := by
    refine h.ordered.sublist ?_
    exact (List.sublist_cons_self oldest waiting).append_left accepted
  once := by
    rw [← List.append_assoc, List.append_assoc _ [oldest]]
    exact h.once
  newest := by
    intro d hd w hw
    rcases List.mem_append.mp hd with hd | hd
    · exact h.newest d hd w (List.mem_cons_of_mem _ hw)
    · rw [List.mem_singleton.mp hd]
      have hsuffix := (List.pairwise_append.mp h.ordered).2.1
      exact List.rel_of_pairwise_cons hsuffix hw

theorem le_assigned (h : Accounts accepted dropped waiting assigned) {n : Nat}
    (hn : n ∈ accepted ++ dropped ++ waiting) : n < 1 + assigned :=
  (List.mem_range'_1.mp (h.once.mem_iff.mp hn)).2

/-- A new number joins the ring behind all others. -/
theorem push (h : Accounts accepted dropped waiting assigned) :
    Accounts accepted dropped (waiting ++ [1 + assigned]) (assigned + 1) where
  ordered := by
    rw [← List.append_assoc]
    refine List.pairwise_append.mpr
      ⟨h.ordered, List.pairwise_singleton _ _, fun a ha b hb => ?_⟩
    rw [List.mem_singleton.mp hb]
    apply h.le_assigned
    rcases List.mem_append.mp ha with ha | ha
    · exact List.mem_append_left _ (List.mem_append_left _ ha)
    · exact List.mem_append_right _ ha
  once := by
    rw [← List.append_assoc, List.range'_concat, Nat.one_mul]
    exact h.once.append_right _
  newest := by
    intro d hd w hw
    rcases List.mem_append.mp hw with hw | hw
    · exact h.newest d hd w hw
    · rw [List.mem_singleton.mp hw]
      exact h.le_assigned (List.mem_append_left _ (List.mem_append_right _ hd))

end Accounts

/-! ### What a call keeps -/

namespace EventEmitter

variable {S P : Type}

/-- The accounts of an emitter that has done `acts`, with `assigned` numbers in them: inside
`emit` the new number is not in them yet. -/
structure Books (capacity : Nat) (acts : List (Act P)) (s : EventEmitter S P) (assigned : Nat) :
    Prop where
  accounts : Accounts (acceptedSeqs acts) (droppedSeqs acts) (s.ring.map EventEnvelope.seq) assigned
  bounded : s.ring.length ≤ capacity
  counted : s.droppedTotal = (droppedSeqs acts).length
  fixed : s.capacity = capacity
  roomy : 0 < capacity

section Moves

variable {capacity assigned : Nat} {acts : List (Act P)} {s : EventEmitter S P}

theorem dropIfFull_cases (s : EventEmitter S P) (hroom : 0 < s.capacity) :
    (s.ring.length ≠ s.capacity ∧ s.dropIfFull = ([], s)) ∨
    ∃ oldest ring, s.ring.length = s.capacity ∧ s.ring = oldest :: ring ∧
      s.dropIfFull =
        ([.dropped oldest], { s with ring := ring, droppedTotal := s.droppedTotal + 1 }) := by
  unfold dropIfFull
  split
  · rename_i hfull
    cases hring : s.ring with
    | nil =>
      rw [hring, List.length_nil] at hfull
      omega
    | cons oldest ring =>
      rw [hring] at hfull
      exact .inr ⟨oldest, ring, hfull, rfl, rfl⟩
  · rename_i hfull
    exact .inl ⟨hfull, rfl⟩

/-- After the `if` there is room for one more event. -/
theorem Books.dropIfFull (h : Books capacity acts s assigned) :
    Books capacity (acts ++ s.dropIfFull.1) s.dropIfFull.2 assigned ∧
      s.dropIfFull.2.nextSeq = s.nextSeq ∧ s.dropIfFull.2.ring.length < capacity ∧
      (droppedSeqs s.dropIfFull.1 ≠ [] → s.ring.length = capacity) := by
  obtain ⟨hacc, hlen, hcount, rfl, hroom⟩ := h
  rcases s.dropIfFull_cases hroom with ⟨hfull, hdrop⟩ | ⟨oldest, ring, hfull, hring, hdrop⟩
  · rw [hdrop, List.append_nil]
    exact ⟨⟨hacc, hlen, hcount, rfl, hroom⟩, rfl, Nat.lt_of_le_of_ne hlen hfull,
      fun h => absurd rfl h⟩
  · rw [hring, List.map_cons] at hacc
    have hshort : ring.length < s.capacity := by
      rw [hring, List.length_cons] at hfull
      omega
    rw [hdrop]
    refine ⟨⟨?_, Nat.le_of_lt hshort, ?_, rfl, hroom⟩, rfl, hshort, fun _ => hfull⟩
    · rw [acceptedSeqs_append, droppedSeqs_append]
      exact (List.append_nil (acceptedSeqs acts)).symm ▸ hacc.drop
    · rw [droppedSeqs_append, List.length_append, ← hcount]
      rfl

theorem Books.push (h : Books capacity acts s assigned) (hroom : s.ring.length < capacity)
    {e : EventEnvelope P} (he : e.seq = 1 + assigned) :
    Books capacity acts { s with ring := s.ring ++ [e] } (assigned + 1) := by
  refine ⟨?_, ?_, h.counted, h.fixed, h.roomy⟩
  · rw [List.map_append, List.map_singleton, he]
    exact h.accounts.push
  · rw [List.length_append, List.length_singleton]
    exact hroom

/-- The books between calls: every number below the next one is in them. -/
def Sound (capacity : Nat) (acts : List (Act P)) (s : EventEmitter S P) : Prop :=
  ∃ assigned, s.nextSeq = 1 + assigned ∧ Books capacity acts s assigned

theorem sound_new (sink : S) (runId producerId : String) (capacity : Nat) :
    Sound (max capacity 1) []
      ((new sink runId producerId : EventEmitter S P).withCapacity capacity) :=
  ⟨0, rfl, Accounts.nothing, Nat.zero_le _, rfl, rfl,
    Nat.lt_of_lt_of_le Nat.one_pos (Nat.le_max_right _ _)⟩

end Moves

section Calls

variable [EventSink S P] {capacity assigned : Nat} {acts : List (Act P)} {s : EventEmitter S P}

theorem drain_split (sink : S) (ring : List (EventEnvelope P)) :
    acceptedSeqs (drain sink ring).1 ++ (drain sink ring).2.1.map EventEnvelope.seq =
        ring.map EventEnvelope.seq ∧
      (drain sink ring).2.1.length ≤ ring.length ∧ droppedSeqs (drain sink ring).1 = [] := by
  induction ring generalizing sink with
  | nil => exact ⟨rfl, Nat.le_refl _, rfl⟩
  | cons e rest ih =>
    unfold drain
    split
    · rename_i sink' _
      obtain ⟨hsplit, hlen, hdrop⟩ := ih sink'
      exact ⟨congrArg (e.seq :: ·) hsplit, Nat.le_succ_of_le hlen, hdrop⟩
    · exact ⟨rfl, Nat.le_refl _, rfl⟩

/-- What stays in the ring stays because the sink has just refused the oldest of it. -/
theorem refused_of_drain (sink : S) (ring : List (EventEnvelope P)) :
    ∀ e ∈ (drain sink ring).2.1.head?,
      ∃ err, (drain sink ring).1.getLast? = some (.offered e (.error err)) := by
  induction ring generalizing sink with
  | nil => exact fun e he => nomatch he
  | cons e rest ih =>
    unfold drain
    split
    · rename_i sink' _
      intro e' he'
      obtain ⟨err, herr⟩ := ih sink' e' he'
      exact ⟨err, by rw [List.getLast?_cons, herr]; rfl⟩
    · rename_i err sink' _
      rintro e' (he' : some e = some e')
      cases he'
      exact ⟨err, rfl⟩

theorem Books.flush (h : Books capacity acts s assigned) :
    Books capacity (acts ++ s.flush.1) s.flush.2 assigned ∧ s.flush.2.nextSeq = s.nextSeq := by
  obtain ⟨hsplit, hlen, hdrop⟩ := drain_split s.sink s.ring
  have hacc := h.accounts
  rw [← hsplit] at hacc
  have hdrops : droppedSeqs (acts ++ s.flush.1) = droppedSeqs acts := by
    rw [droppedSeqs_append, show droppedSeqs s.flush.1 = [] from hdrop, List.append_nil]
  refine ⟨⟨?_, Nat.le_trans hlen h.bounded, ?_, h.fixed, h.roomy⟩, rfl⟩
  · rw [hdrops, acceptedSeqs_append]
    exact hacc.accept
  · rw [hdrops]
    exact h.counted

/-! ### The calls of the sink -/

/-- The sink's answers to events offered one after the other, and the sink after them. -/
def answers (sink : S) :
    List (EventEnvelope P) → List (EventEnvelope P × Except ClientError Unit) × S
  | [] => ([], sink)
  | e :: rest =>
    let (answer, sink') := EventSink.emit sink e
    let (later, sink'') := answers sink' rest
    ((e, answer) :: later, sink'')

/-- The offers among the acts are calls of the sink with its own answers, and take it from one
state to the other. -/
def Heard (sink : S) (acts : List (Act P)) (sink' : S) : Prop :=
  answers sink ((offers acts).map Prod.fst) = (offers acts, sink')

theorem answers_append (sink : S) (l l' : List (EventEnvelope P)) :
    answers sink (l ++ l') = ((answers sink l).1 ++ (answers (answers sink l).2 l').1,
      (answers (answers sink l).2 l').2) := by
  induction l generalizing sink with
  | nil => rfl
  | cons e l ih => simp only [List.cons_append, answers, ih]

theorem Heard.trans {sink sink₁ sink₂ : S} {l l' : List (Act P)} (h : Heard sink l sink₁)
    (h' : Heard sink₁ l' sink₂) : Heard sink (l ++ l') sink₂ := by
  unfold Heard at h h' ⊢
  rw [offers_append, List.map_append, answers_append, h, h']

theorem heard_drain (sink : S) (ring : List (EventEnvelope P)) :
    Heard sink (drain sink ring).1 (drain sink ring).2.2 := by
  induction ring generalizing sink with
  | nil => rfl
  | cons e rest ih =>
    unfold drain
    split
    · rename_i sink' hemit
      have hrest := ih sink'
      unfold Heard at hrest ⊢
      change answers sink (e :: (offers (drain sink' rest).1).map Prod.fst) = _
      rw [answers, hemit]
      dsimp only
      rw [hrest]
      rfl
    · rename_i err sink' hemit
      change answers sink [e] = _
      rw [answers, hemit]
      rfl

theorem heard_dropIfFull (s : EventEmitter S P) :
    Heard s.sink s.dropIfFull.1 s.dropIfFull.2.sink := by
  unfold dropIfFull
  split
  · split <;> rfl
  · rfl

theorem heard_call (s : EventEmitter S P) (c : Call P) :
    Heard s.sink (s.call c).1 (s.call c).2.sink := by
  cases c with
  | emit tsLogical eventType payload =>
    have hfirst := heard_drain s.sink s.ring
    have hdrop := heard_dropIfFull ({ s with nextSeq := s.nextSeq + 1 } : EventEmitter S P).flush.2
    exact hfirst.trans (hdrop.trans (heard_drain _ _))
  | flush => exact heard_drain s.sink s.ring

theorem heard_calls (s : EventEmitter S P) (cs : List (Call P)) :
    Heard s.sink (s.calls cs).1 (s.calls cs).2.sink := by
  induction cs generalizing s with
  | nil => rfl
  | cons c rest ih => exact (heard_call s c).trans (ih (s.call c).2)

/-- What waits after a call waits because the sink has just refused the oldest of it. -/
theorem refused_of_call (s : EventEmitter S P) (c : Call P) :
    ∀ e ∈ (s.call c).2.ring.head?,
      ∃ err, (offers (s.call c).1).getLast? = some (e, .error err) := by
  have hlast : ∀ (l : List (Act P)) e err, l.getLast? = some (.offered e (.error err)) →
      (offers l).getLast? = some (e, .error err) := by
    intro l e err hl
    obtain ⟨l', rfl⟩ := List.getLast?_eq_some_iff.mp hl
    rw [offers_append]
    exact List.getLast?_concat
  intro e he
  cases c with
  | emit tsLogical eventType payload =>
    obtain ⟨err, herr⟩ := refused_of_drain _ _ e he
    refine ⟨err, hlast _ e err ?_⟩
    change (_ ++ (_ ++ (drain _ _).1)).getLast? = _
    rw [List.getLast?_append, List.getLast?_append, herr]
    rfl
  | flush =>
    obtain ⟨err, herr⟩ := refused_of_drain s.sink s.ring e he
    exact ⟨err, hlast _ e err herr⟩

/-! ### A call and a history -/

theorem Sound.emit (h : Sound capacity acts s) (tsLogical : Nat) (eventType : String)
    (payload : P) :
    Sound capacity (acts ++ (s.emit tsLogical eventType payload).1)
        (s.emit tsLogical eventType payload).2 ∧
      (droppedSeqs (s.emit tsLogical eventType payload).1 ≠ [] →
        s.flush.2.ring.length = capacity) := by
  obtain ⟨assigned, hnext, hbooks⟩ := h
  -- the number is taken before the books see it
  have hnumbered : Books capacity acts { s with nextSeq := s.nextSeq + 1 } assigned :=
    ⟨hbooks.accounts, hbooks.bounded, hbooks.counted, hbooks.fixed, hbooks.roomy⟩
  obtain ⟨hflushed, hseq₁⟩ := hnumbered.flush
  obtain ⟨hroomy, hseq₂, hroom, hfull⟩ := hflushed.dropIfFull
  have hpushed := hroomy.push hroom (e := ⟨s.runId, sourceService, s.producerId, s.nextSeq,
    tsLogical, eventType, payload⟩) hnext
  obtain ⟨hdone, hseq₃⟩ := hpushed.flush
  refine ⟨⟨assigned + 1, ?_, ?_⟩, fun hdrop => hfull fun hnone => hdrop ?_⟩
  · rw [← Nat.add_assoc, ← hnext]
    exact hseq₃.trans (hseq₂.trans hseq₁)
  · rw [List.append_assoc, List.append_assoc] at hdone
    exact hdone
  · have hflush := fun t : EventEmitter S P => (drain_split t.sink t.ring).2.2
    exact (droppedSeqs_append _ _).trans (congrArg₂ (· ++ ·) (hflush _)
      ((droppedSeqs_append _ _).trans (congrArg₂ (· ++ ·) hnone (hflush _))))

theorem Sound.call (h : Sound capacity acts s) (c : Call P) :
    Sound capacity (acts ++ (s.call c).1) (s.call c).2 ∧
      (droppedSeqs (s.call c).1 ≠ [] → s.flush.2.ring.length = capacity) := by
  cases c with
  | emit tsLogical eventType payload => exact h.emit tsLogical eventType payload
  | flush =>
    obtain ⟨assigned, hnext, hbooks⟩ := h
    obtain ⟨hflushed, hseq⟩ := hbooks.flush
    exact ⟨⟨assigned, hseq.trans hnext, hflushed⟩,
      fun h => absurd (drain_split s.sink s.ring).2.2 h⟩

theorem Sound.calls (h : Sound capacity acts s) (cs : List (Call P)) :
    Sound capacity (acts ++ (s.calls cs).1) (s.calls cs).2 := by
  induction cs generalizing acts s with
  | nil =>
    rw [EventEmitter.calls, List.append_nil]
    exact h
  | cons c rest ih =>
    have hrest := ih (h.call c).1
    rw [List.append_assoc] at hrest
    exact hrest

end Calls

/-- **The event ring.** For every sink, every capacity and every history of calls: the offers
are calls of the sink with the answers it gave, in order; the numbers of those it answered `Ok`
increase; each number assigned is accepted so, dropped or waiting, and only one of the three;
the waiting ones lie in order and are newer than all that were dropped; the ring stays within
its capacity; the counter counts the drops; a further call drops something only if the ring is
full when the sink has taken what it would, and leaves something only if the sink has refused
the oldest of it. -/
theorem event_ring [EventSink S P] (sink : S) (runId producerId : String) (capacity : Nat)
    (cs : List (Call P)) :
    let start : EventEmitter S P := (new sink runId producerId).withCapacity capacity
    let acts := (start.calls cs).1
    let s := (start.calls cs).2
    answers sink ((offers acts).map Prod.fst) = (offers acts, s.sink) ∧
    (acceptedSeqs acts).Pairwise (· < ·) ∧
    (acceptedSeqs acts ++ droppedSeqs acts ++ s.ring.map EventEnvelope.seq).Perm
      (List.range' 1 (s.nextSeq - 1)) ∧
    (s.ring.map EventEnvelope.seq).Pairwise (· < ·) ∧
    (∀ d ∈ droppedSeqs acts, ∀ w ∈ s.ring.map EventEnvelope.seq, d < w) ∧
    s.ring.length ≤ max capacity 1 ∧
    s.droppedTotal = (droppedSeqs acts).length ∧
    ∀ c, (droppedSeqs (s.call c).1 ≠ [] → s.flush.2.ring.length = max capacity 1) ∧
      ∀ e ∈ (s.call c).2.ring.head?,
        ∃ err, (offers (s.call c).1).getLast? = some (e, .error err) := by
  intro start acts s
  have hsound : Sound (max capacity 1) acts s :=
    (sound_new sink runId producerId capacity).calls cs
  have hdrops := fun c => (hsound.call c).2
  obtain ⟨assigned, hnext, hbooks⟩ := hsound
  obtain ⟨haccepted, hwaiting, -⟩ := List.pairwise_append.mp hbooks.accounts.ordered
  have hassigned : s.nextSeq - 1 = assigned := by omega
  rw [hassigned]
  exact ⟨heard_calls start cs, haccepted, hbooks.accounts.once, hwaiting, hbooks.accounts.newest,
    hbooks.bounded, hbooks.counted, fun c => ⟨hdrops c, refused_of_call s c⟩⟩

/-- A sink that answers as told, and accepts once there is nothing left to tell. -/
structure Scripted where
  script : List Bool
deriving DecidableEq

def Scripted.emit (sink : Scripted) (_ : EventEnvelope Unit) :
    Except ClientError Unit × Scripted :=
  match sink.script with
  | [] | true :: _ => (.ok (), ⟨sink.script.tail⟩)
  | false :: rest => (.error ⟨.unavailable, none, ""⟩, ⟨rest⟩)

instance instEventSinkScripted : EventSink Scripted Unit := ⟨Scripted.emit⟩

/-- A ring of two before a sink that accepts the first event, refuses the next five calls and
then accepts again: the second event is dropped, and a flush delivers the rest. -/
def refusals : List (Act Unit) × EventEmitter Scripted Unit :=
  ((new ⟨[true, false, false, false, false, false]⟩ "run" "producer").withCapacity 2).calls
    [.emit 0 "a" (), .emit 1 "b" (), .emit 2 "c" (), .emit 3 "d" (), .flush]

theorem event_ring_refusals :
    acceptedSeqs refusals.1 = [1, 3, 4] ∧ droppedSeqs refusals.1 = [2] ∧
      refusals.2.droppedTotal = 1 ∧ refusals.2.ring.length = 0 ∧
      (offers refusals.1).map (fun o => (o.1.seq, o.2.isOk)) =
        [(1, true), (2, false), (2, false), (2, false), (2, false), (3, false), (3, true),
          (4, true)] ∧
      answers ⟨[true, false, false, false, false, false]⟩ ((offers refusals.1).map Prod.fst) =
        (offers refusals.1, refusals.2.sink) := by
  have hring := event_ring (⟨[true, false, false, false, false, false]⟩ : Scripted) "run"
    "producer" 2 [.emit 0 "a" (), .emit 1 "b" (), .emit 2 "c" (), .emit 3 "d" (), .flush]
  refine ⟨?_, ?_, ?_, ?_, ?_, ?_⟩
  · decide +kernel
  · decide +kernel
  · decide +kernel
  · decide +kernel
  · decide +kernel
  · exact hring.1

end EventEmitter
end Orchestrator.Server
