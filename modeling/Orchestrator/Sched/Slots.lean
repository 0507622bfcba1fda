import Orchestrator.Lib.Machine
import Orchestrator.Services.Types

/-! # Sched — Slots

The scheduler's view of the worker's slots: reservations handed out as permits, the live
slots the worker reports, and the queue of the calls that wait. Everything happens in short
sections under one lock, and any number of threads take them in any order; a step of the
machine is one such section.

A call of `acquire` or `try_acquire` is named by its position in `calls`. The code that runs
without awaiting anything, `wake_free_waiters` and the drop of a permit, is a stack of
frames: a send that fails drops its permit on top of the pass that sent it. The integrals of
`utilization` are left out.

The log records what the callers see. A sender leaves the queue only to be sent to, so the
receiver of a waiting call never finds its channel closed and `acquire` waits once.
-/

namespace Orchestrator.Sched

open Lib Services

/-- `SlotState`. -/
inductive SlotState where
  | unspecified | empty | paused | running | frozen | faulted
deriving DecidableEq, Repr

/-- `DeterminismClass`. -/
structure DeterminismClass where
  cpuModel : String
  microcode : String
  hostKernel : String
  vmmVersion : String
deriving DecidableEq, Repr

/-- `u32::saturating_sub`. -/
def saturatingSub (a b : UInt32) : UInt32 := if b ≤ a then a - b else 0

theorem saturatingSub_pos {a b : UInt32} : 0 < saturatingSub a b ↔ b < a := by
  unfold saturatingSub
  split
  · rename_i h
    rw [UInt32.lt_iff_toNat_lt, UInt32.lt_iff_toNat_lt, UInt32.toNat_sub_of_le _ _ h,
      UInt32.toNat_zero]
    omega
  · rename_i h
    simp only [UInt32.lt_iff_toNat_lt, UInt32.le_iff_toNat_le] at *
    omega

/-- `ViewState`. A waiter is the call that receives from it. -/
structure ViewState where
  capacity : UInt32
  reserved : UInt32
  known : Std.ExtTreeMap Nat SlotState
  waiters : List Nat
  workerClass : DeterminismClass

namespace ViewState

/-- `live`: the slots the worker reports as occupied, at most `u32::MAX`. -/
def live (s : ViewState) : UInt32 :=
  let count := (s.known.values.filter (· ≠ .empty)).length
  if count < UInt32.size then .ofNat count else .ofNat (UInt32.size - 1)

/-- `busy`. -/
def busy (s : ViewState) : UInt32 := max s.reserved s.live

/-- `free`. -/
def free (s : ViewState) : UInt32 := saturatingSub s.capacity s.busy

/-- `view.reserved += 1`. -/
def reserve (s : ViewState) : ViewState := { s with reserved := s.reserved + 1 }

/-- `state.reserved = state.reserved.saturating_sub(1)`. -/
def release (s : ViewState) : ViewState := { s with reserved := saturatingSub s.reserved 1 }

/-- The section of the drain task: the watched slots, and the capacity if it is known. -/
def drain (s : ViewState) (events : List (Nat × SlotState)) (capacity : Option UInt32) :
    ViewState :=
  { s with
    known := events.foldl (fun known e => known.insert e.1 e.2) s.known
    capacity := capacity.getD s.capacity }

end ViewState

/-- `acquire(required_class)` and `try_acquire`. -/
inductive Call where
  | acquire (required : Option DeterminismClass)
  | tryAcquire
deriving DecidableEq, Repr

/-- Where a call is. -/
inductive Phase where
  | begun (call : Call)
  /-- In `acquire`, past the class check. -/
  | looping
  /-- Awaiting the receiver of a channel that is empty. -/
  | waiting
  /-- The permit is in the channel. -/
  | delivered
  /-- The caller has the permit. -/
  | holding
  /-- Refused, cancelled or released. -/
  | finished
deriving DecidableEq, Repr

/-- Where the synchronous code of a thread is. -/
inductive Frame where
  /-- In `SlotPermit::drop`, before its section. -/
  | dropping
  /-- In `wake_free_waiters`, at the head of the loop. -/
  | waking
  /-- It has reserved a permit and is about to pop a waiter. -/
  | reserved
  /-- It has popped a waiter and is about to send it the permit. -/
  | popped (waiter : Nat)
deriving DecidableEq, Repr

inductive Event where
  | began (call : Nat) | enqueued (call : Nat) | obtained (call : Nat) | cancelled (call : Nat)
deriving DecidableEq, Repr

structure View where
  state : ViewState
  allowClassMismatch : Bool
  calls : List Phase
  threads : List (List Frame)
  log : List Event

inductive Action where
  /-- A caller calls. -/
  | begin (call : Call)
  /-- A call takes its next section. -/
  | proceed (call : Nat)
  /-- A waiting call takes the permit out of its channel. -/
  | receive (call : Nat)
  /-- The future of a call is dropped at its await. -/
  | cancel (call : Nat)
  /-- A caller drops its permit. -/
  | release (call : Nat)
  | drain (events : List (Nat × SlotState)) (capacity : Option UInt32)
  /-- A thread goes on with its synchronous code. -/
  | run (thread : Nat)
deriving DecidableEq, Repr

namespace View

/-- `start`, from the worker's information and its list of slots. -/
def start (slotsTotal : UInt32) (workerClass : DeterminismClass)
    (listed : List (Nat × SlotState)) (allowClassMismatch : Bool) : View where
  state :=
    { capacity := slotsTotal, reserved := 0,
      known := listed.foldl (fun known e => known.insert e.1 e.2) ∅, waiters := [], workerClass }
  allowClassMismatch := allowClassMismatch
  calls := []
  threads := []
  log := []

def setState (v : View) (s : ViewState) : View := { v with state := s }

def setCall (v : View) (c : Nat) (p : Phase) : View := { v with calls := v.calls.set c p }

def setThread (v : View) (t : Nat) (stack : List Frame) : View :=
  { v with threads := v.threads.set t stack }

/-- A thread begins a piece of synchronous code. -/
def spawn (v : View) (f : Frame) : View := { v with threads := v.threads ++ [[f]] }

def note (v : View) (e : Event) : View := { v with log := v.log ++ [e] }

/-- `acquire_class_check`. -/
def acquireClassCheck (v : View) (required : DeterminismClass) : Except ClientError Unit :=
  if !v.allowClassMismatch && required ≠ v.state.workerClass then
    .error ⟨.failedPrecondition, some .classMismatch,
      "job requires cpu_model=" ++ required.cpuModel ++ " vmm=" ++ required.vmmVersion ++
        ", worker offers cpu_model=" ++ v.state.workerClass.cpuModel ++ " vmm=" ++
        v.state.workerClass.vmmVersion⟩
  else .ok ()

/-- The caller gets a permit at once. -/
def grant (v : View) (c : Nat) : View :=
  ((v.setState v.state.reserve).setCall c .holding).note (.obtained c)

/-- The caller waits at the end of the queue. -/
def enqueue (v : View) (c : Nat) : View :=
  ((v.setState { v.state with waiters := v.state.waiters ++ [c] }).setCall c .waiting).note
    (.enqueued c)

/-- The next section of `acquire` or `try_acquire`. -/
def proceed (v : View) (c : Nat) : Option View :=
  match v.calls[c]? with
  | some (.begun (.acquire (some required))) =>
    match v.acquireClassCheck required with
    | .error _ => some (v.setCall c .finished)
    | .ok () => some (v.setCall c .looping)
  | some (.begun (.acquire none)) | some .looping =>
    if 0 < v.state.free then some (v.grant c) else some (v.enqueue c)
  | some (.begun .tryAcquire) =>
    if 0 < v.state.free then some (v.grant c) else some (v.setCall c .finished)
  | _ => none

/-- The next section of `wake_free_waiters` and of `SlotPermit::drop`. -/
def run (v : View) (t : Nat) : Option View :=
  match v.threads[t]? with
  | some (.dropping :: rest) =>
    some ((v.setState v.state.release).setThread t (.waking :: rest))
  | some (.waking :: rest) =>
    if v.state.free = 0 ∨ v.state.waiters = [] then some (v.setThread t rest)
    else some ((v.setState v.state.reserve).setThread t (.reserved :: rest))
  | some (.reserved :: rest) =>
    match v.state.waiters with
    -- The pass returns, which drops its permit.
    | [] => some (v.setThread t (.dropping :: rest))
    | w :: ws =>
      some ((v.setState { v.state with waiters := ws }).setThread t (.popped w :: rest))
  | some (.popped w :: rest) =>
    if v.calls[w]? = some .waiting then
      some (((v.setThread t (.waking :: rest)).setCall w .delivered).note (.obtained w))
    -- The receiver is gone: the permit that comes back is dropped, then the loop goes on.
    else some (v.setThread t (.dropping :: .waking :: rest))
  | _ => none

def cancel (v : View) (c : Nat) : Option View :=
  match v.calls[c]? with
  | some .waiting => some ((v.setCall c .finished).note (.cancelled c))
  -- The permit in the channel goes with the receiver.
  | some .delivered => some (((v.setCall c .finished).spawn .dropping).note (.cancelled c))
  | _ => none

def step (v : View) : Action → Option View
  | .begin call =>
    some ({ v with calls := v.calls ++ [Phase.begun call] }.note (.began v.calls.length))
  | .proceed c => v.proceed c
  | .receive c => if v.calls[c]? = some .delivered then some (v.setCall c .holding) else none
  | .cancel c => v.cancel c
  | .release c =>
    if v.calls[c]? = some .holding then some ((v.setCall c .finished).spawn .dropping) else none
  | .drain events capacity =>
    some ((v.setState (v.state.drain events capacity)).spawn .waking)
  | .run t => v.run t

end View

/-! ### What a section does -/

/-- A call before its section that reserves or enqueues. -/
def Phase.early : Phase → Bool
  | .begun _ | .looping => true
  | _ => false

inductive View.Section (v : View) : Action → View → Prop where
  | begin (call : Call) :
      Section v (.begin call)
        ({ v with calls := v.calls ++ [Phase.begun call] }.note (.began v.calls.length))
  | check {c : Nat} {p p' : Phase} (hc : v.calls[c]? = some p) (hp : p.early)
      (hp' : p' = .looping ∨ p' = .finished) : Section v (.proceed c) (v.setCall c p')
  | grant {c : Nat} {p : Phase} (hc : v.calls[c]? = some p) (hp : p.early)
      (hf : 0 < v.state.free) : Section v (.proceed c) (v.grant c)
  | enqueue {c : Nat} {p : Phase} (hc : v.calls[c]? = some p) (hp : p.early)
      (hf : v.state.free = 0) : Section v (.proceed c) (v.enqueue c)
  | receive {c : Nat} (hc : v.calls[c]? = some .delivered) :
      Section v (.receive c) (v.setCall c .holding)
  | giveUp {c : Nat} (hc : v.calls[c]? = some .waiting) :
      Section v (.cancel c) ((v.setCall c .finished).note (.cancelled c))
  | giveBack {c : Nat} (hc : v.calls[c]? = some .delivered) :
      Section v (.cancel c) (((v.setCall c .finished).spawn .dropping).note (.cancelled c))
  | release {c : Nat} (hc : v.calls[c]? = some .holding) :
      Section v (.release c) ((v.setCall c .finished).spawn .dropping)
  | drain (events : List (Nat × SlotState)) (capacity : Option UInt32) :
      Section v (.drain events capacity)
        ((v.setState (v.state.drain events capacity)).spawn .waking)
  | drop {t : Nat} {rest : List Frame} (ht : v.threads[t]? = some (.dropping :: rest)) :
      Section v (.run t) ((v.setState v.state.release).setThread t (.waking :: rest))
  | sleep {t : Nat} {rest : List Frame} (ht : v.threads[t]? = some (.waking :: rest))
      (hf : v.state.free = 0 ∨ v.state.waiters = []) : Section v (.run t) (v.setThread t rest)
  | reserve {t : Nat} {rest : List Frame} (ht : v.threads[t]? = some (.waking :: rest))
      (hf : 0 < v.state.free) (hw : v.state.waiters ≠ []) :
      Section v (.run t)
        ((v.setState v.state.reserve).setThread t (.reserved :: rest))
  | none {t : Nat} {rest : List Frame} (ht : v.threads[t]? = some (.reserved :: rest))
      (hw : v.state.waiters = []) : Section v (.run t) (v.setThread t (.dropping :: rest))
  | pop {t w : Nat} {ws : List Nat} {rest : List Frame}
      (ht : v.threads[t]? = some (.reserved :: rest)) (hw : v.state.waiters = w :: ws) :
      Section v (.run t)
        ((v.setState { v.state with waiters := ws }).setThread t (.popped w :: rest))
  | send {t w : Nat} {rest : List Frame} (ht : v.threads[t]? = some (.popped w :: rest))
      (hc : v.calls[w]? = some .waiting) :
      Section v (.run t)
        (((v.setThread t (.waking :: rest)).setCall w .delivered).note (.obtained w))
  | undelivered {t w : Nat} {rest : List Frame} (ht : v.threads[t]? = some (.popped w :: rest))
      (hc : v.calls[w]? ≠ some .waiting) :
      Section v (.run t) (v.setThread t (.dropping :: .waking :: rest))

namespace View

variable {v v' : View}

theorem free_eq_zero {s : ViewState} (h : ¬ 0 < s.free) : s.free = 0 := by
  simpa [UInt32.pos_iff_ne_zero] using h

theorem proceed_section {c : Nat} (h : v.proceed c = some v') : v.Section (.proceed c) v' := by
  unfold proceed at h
  split at h
  · rename_i hc
    split at h <;> cases h
    · exact .check hc rfl (.inr rfl)
    · exact .check hc rfl (.inl rfl)
  · rename_i hc
    split at h <;> cases h
    · exact .grant hc rfl ‹_›
    · exact .enqueue hc rfl (free_eq_zero ‹_›)
  · rename_i hc
    split at h <;> cases h
    · exact .grant hc rfl ‹_›
    · exact .enqueue hc rfl (free_eq_zero ‹_›)
  · rename_i hc
    split at h <;> cases h
    · exact .grant hc rfl ‹_›
    · exact .check hc rfl (.inr rfl)
  · cases h

theorem run_section {t : Nat} (h : v.run t = some v') : v.Section (.run t) v' := by
  unfold run at h
  split at h
  · cases h
    exact .drop ‹_›
  · split at h <;> cases h
    · exact .sleep ‹_› ‹_›
    · rename_i ht hf
      obtain ⟨hfree, hw⟩ := not_or.mp hf
      exact .reserve ht (UInt32.pos_iff_ne_zero.mpr hfree) hw
  · split at h <;> cases h
    · exact .none ‹_› ‹_›
    · exact .pop ‹_› ‹_›
  · split at h <;> cases h
    · exact .send ‹_› ‹_›
    · exact .undelivered ‹_› ‹_›
  · cases h

/-- Every step is one of the sections. -/
theorem step_section {a : Action} (h : v.step a = some v') : v.Section a v' := by
  cases a with
  | begin call =>
    cases h
    exact .begin call
  | proceed c => exact proceed_section h
  | receive c =>
    simp only [step] at h
    split at h <;> cases h
    exact .receive ‹_›
  | cancel c =>
    simp only [step, cancel] at h
    split at h <;> cases h
    · exact .giveUp ‹_›
    · exact .giveBack ‹_›
  | release c =>
    simp only [step] at h
    split at h <;> cases h
    exact .release ‹_›
  | drain events capacity =>
    cases h
    exact .drain events capacity
  | run t => exact run_section h

end View
end Orchestrator.Sched
