import Orchestrator.Sched.Slots

/-! # Sched — Slot accounting

Every reservation is a permit somewhere: in a caller's hands, in the channel of a waiter, or
with a thread that is about to hand it over or to drop it. A slot that becomes free while
calls wait always has a wake pass on the way to them.

* `Section.reserved`, `Section.awake`: one section keeps both.
* `slot_accounting`: they hold at every state of every interleaving.
-/

namespace Orchestrator.Sched

open Lib

/-- The permit of a call, in its channel or in the caller's hands. -/
def Phase.permit : Phase → Nat
  | .delivered | .holding => 1
  | _ => 0

/-- The permit of a frame, to be sent or to be dropped. -/
def Frame.permit : Frame → Nat
  | .waking => 0
  | _ => 1

/-- Whether a frame is one of `wake_free_waiters`. -/
def Frame.wakes : Frame → Nat
  | .dropping => 0
  | _ => 1

@[simp] theorem Phase.permit_early {p : Phase} (hp : p.early) : p.permit = 0 := by
  cases p <;> first | rfl | cases hp

namespace View

variable {v v' : View} {a : Action}

/-- The permits in existence. -/
def permits (v : View) : Nat :=
  (v.calls.map Phase.permit).sum + (v.threads.map fun stack => (stack.map Frame.permit).sum).sum

/-- The wake passes in progress. -/
def passes (v : View) : Nat := (v.threads.map fun stack => (stack.map Frame.wakes).sum).sum

section Updates

variable {c t : Nat} {p : Phase} {stack : List Frame}

theorem permits_setCall (h : v.calls[c]? = some p) (p' : Phase) :
    (v.setCall c p').permits + p.permit = v.permits + p'.permit := by
  have := sum_map_set_add Phase.permit h p'
  simp only [permits, setCall]
  omega

theorem permits_setThread (h : v.threads[t]? = some stack) (stack' : List Frame) :
    (v.setThread t stack').permits + (stack.map Frame.permit).sum =
      v.permits + (stack'.map Frame.permit).sum := by
  have := sum_map_set_add (fun stack => (stack.map Frame.permit).sum) h stack'
  simp only [permits, setThread]
  omega

theorem passes_setThread (h : v.threads[t]? = some stack) (stack' : List Frame) :
    (v.setThread t stack').passes + (stack.map Frame.wakes).sum =
      v.passes + (stack'.map Frame.wakes).sum :=
  sum_map_set_add (fun stack => (stack.map Frame.wakes).sum) h stack'

@[simp] theorem permits_spawn (f : Frame) : (v.spawn f).permits = v.permits + f.permit := by
  simp [permits, spawn, Nat.add_assoc]

@[simp] theorem passes_spawn (f : Frame) : (v.spawn f).passes = v.passes + f.wakes := by
  simp [passes, spawn]

@[simp] theorem permits_setState (s : ViewState) : (v.setState s).permits = v.permits := rfl
@[simp] theorem permits_note (e : Event) : (v.note e).permits = v.permits := rfl
@[simp] theorem passes_note (e : Event) : (v.note e).passes = v.passes := rfl
@[simp] theorem passes_setCall : (v.setCall c p).passes = v.passes := rfl
@[simp] theorem state_setState (s : ViewState) : (v.setState s).state = s := rfl
@[simp] theorem state_note (e : Event) : (v.note e).state = v.state := rfl
@[simp] theorem state_setCall : (v.setCall c p).state = v.state := rfl
@[simp] theorem state_setThread : (v.setThread t stack).state = v.state := rfl
@[simp] theorem state_spawn {f : Frame} : (v.spawn f).state = v.state := rfl

end Updates

end View

/-! ### The state of the view -/

namespace ViewState

variable {s : ViewState}

theorem free_pos : 0 < s.free ↔ s.busy < s.capacity := saturatingSub_pos

theorem reserved_lt_capacity (h : 0 < s.free) : s.reserved < s.capacity := by
  have h := free_pos.mp h
  have hle : s.reserved ≤ s.busy := by
    simp only [busy, max]
    split
    · assumption
    · exact UInt32.le_refl _
  exact UInt32.lt_of_le_of_lt hle h

theorem toNat_reserve (h : 0 < s.free) : s.reserve.reserved.toNat = s.reserved.toNat + 1 := by
  have hlt := UInt32.lt_iff_toNat_lt.mp (reserved_lt_capacity h)
  have hcap := s.capacity.toNat_lt
  rw [reserve, UInt32.toNat_add, UInt32.toNat_one]
  omega

theorem toNat_release (h : 0 < s.reserved.toNat) :
    s.release.reserved.toNat + 1 = s.reserved.toNat := by
  have hle : 1 ≤ s.reserved := UInt32.le_iff_toNat_le.mpr (by rwa [UInt32.toNat_one])
  rw [release, saturatingSub, if_pos hle, UInt32.toNat_sub_of_le _ _ hle, UInt32.toNat_one]
  omega

end ViewState

namespace View

variable {v v' : View} {a : Action}

/-- Every reservation is a permit. -/
theorem Section.reserved (h : v.Section a v') (hv : v.state.reserved.toNat = v.permits) :
    v'.state.reserved.toNat = v'.permits := by
  cases h with
  | begin call => simpa [permits, note, Phase.permit] using hv
  | @check c p p' hc hp hp' =>
    have h := permits_setCall hc p'
    rw [Phase.permit_early hp] at h
    rcases hp' with rfl | rfl <;> simp_all [Phase.permit]
  | @grant c p hc hp hf =>
    have h := permits_setCall (v := v.setState v.state.reserve) hc .holding
    have hr := ViewState.toNat_reserve hf
    rw [Phase.permit_early hp] at h
    simp_all [View.grant, Phase.permit]
  | @enqueue c p hc hp hf =>
    have h := permits_setCall
      (v := v.setState { v.state with waiters := v.state.waiters ++ [c] }) hc .waiting
    rw [Phase.permit_early hp] at h
    simp_all [View.enqueue, Phase.permit]
  | receive hc =>
    have h := permits_setCall hc .holding
    simp_all [Phase.permit]
  | giveUp hc =>
    have h := permits_setCall hc .finished
    simp_all [Phase.permit]
  | giveBack hc =>
    have h := permits_setCall hc .finished
    simp_all [Phase.permit, Frame.permit]
  | release hc =>
    have h := permits_setCall hc .finished
    simp_all [Phase.permit, Frame.permit]
  | drain events capacity => simpa [Frame.permit, ViewState.drain] using hv
  | @drop t rest ht =>
    have h := permits_setThread (v := v.setState v.state.release) ht (.waking :: rest)
    simp only [permits_setState, List.map_cons, List.sum_cons, Frame.permit] at h
    have hr := v.state.toNat_release (by omega)
    simp only [state_setThread, state_setState]
    omega
  | @sleep t rest ht hf =>
    have h := permits_setThread ht rest
    simp only [List.map_cons, List.sum_cons, Frame.permit] at h
    simp only [state_setThread]
    omega
  | @reserve t rest ht hf hw =>
    have h := permits_setThread (v := v.setState v.state.reserve) ht (.reserved :: rest)
    simp only [permits_setState, List.map_cons, List.sum_cons, Frame.permit] at h
    have hr := ViewState.toNat_reserve hf
    simp only [state_setThread, state_setState]
    omega
  | @none t rest ht hw =>
    have h := permits_setThread ht (.dropping :: rest)
    simp only [List.map_cons, List.sum_cons, Frame.permit] at h
    simp only [state_setThread]
    omega
  | @pop t w ws rest ht hw =>
    have h := permits_setThread (v := v.setState { v.state with waiters := ws }) ht
      (.popped w :: rest)
    simp only [permits_setState, List.map_cons, List.sum_cons, Frame.permit] at h
    simp only [state_setThread, state_setState]
    omega
  | @send t w rest ht hc =>
    have h := permits_setThread ht (.waking :: rest)
    have hw := permits_setCall (v := v.setThread t (.waking :: rest)) hc .delivered
    simp only [List.map_cons, List.sum_cons, Frame.permit, Phase.permit] at h hw
    simp only [state_note, state_setCall, state_setThread, permits_note]
    omega
  | @undelivered t w rest ht hc =>
    have h := permits_setThread ht (.dropping :: .waking :: rest)
    simp only [List.map_cons, List.sum_cons, Frame.permit] at h
    simp only [state_setThread]
    omega

/-- A section that makes a reservation runs while a slot is free. -/
theorem Section.free_of_reserved (h : v.Section a v')
    (hlt : v.state.reserved.toNat < v'.state.reserved.toNat) : 0 < v.state.free := by
  cases h with
  | grant hc hp hf => exact hf
  | reserve ht hf hw => exact hf
  | drop ht =>
    simp only [state_setThread, state_setState, ViewState.release, saturatingSub] at hlt
    split at hlt
    · rename_i hle
      rw [UInt32.toNat_sub_of_le _ _ hle] at hlt
      omega
    · exact absurd hlt (Nat.not_lt_zero _)
  | _ => exact absurd hlt (Nat.lt_irrefl _)

/-- A slot that is free while calls wait has a pass on the way to them. -/
def Awake (v : View) : Prop := v.state.waiters ≠ [] → 0 < v.state.free → 0 < v.passes

theorem passes_pos {t : Nat} {stack stack' : List Frame} (h : v.threads[t]? = some stack)
    (hs : 0 < (stack'.map Frame.wakes).sum) : 0 < (v.setThread t stack').passes := by
  have hold : (v.setThread t []).passes + _ = v.passes + 0 := passes_setThread h []
  have hnew := passes_setThread h stack'
  omega

theorem Section.awake (h : v.Section a v') (hv : v.Awake) : v'.Awake := by
  cases h with
  | begin | check | receive | giveUp => exact hv
  | giveBack hc | release hc =>
    intro hw hf
    simpa [Frame.wakes] using hv hw hf
  | grant hc hp hf => exact fun hw _ => hv hw hf
  | enqueue hc hp hf => exact fun _ hpos => absurd hpos (hf ▸ UInt32.lt_irrefl _)
  | drain events capacity =>
    intro _ _
    simp [Frame.wakes]
  | sleep ht hf =>
    intro hw hpos
    rcases hf with hf | hf
    · exact absurd hpos (hf ▸ UInt32.lt_irrefl _)
    · exact absurd hf hw
  | none ht hw => exact fun hw' => absurd hw hw'
  | drop ht | reserve ht _ _ | pop ht _ =>
    intro _ _
    exact passes_pos (v := v.setState _) ht (Nat.add_pos_left Nat.one_pos _)
  | send ht _ | undelivered ht _ =>
    intro _ _
    exact passes_pos (v := v) ht (by simp only [List.map_cons, List.sum_cons, Frame.wakes]; omega)

/-- **Every interleaving keeps the accounts.** `reserved` is the number of permits, no drop
finds it at zero, a permit is made only while a slot is free, and outside a wake pass calls
wait only while none is. -/
theorem slot_accounting {slotsTotal : UInt32} {workerClass : DeterminismClass}
    {listed : List (Nat × SlotState)} {allowClassMismatch : Bool} {v : View}
    (h : Runs step Any (start slotsTotal workerClass listed allowClassMismatch) v) :
    v.state.reserved.toNat = v.permits ∧
    (∀ (t : Nat) (rest : List Frame), v.threads[t]? = some (.dropping :: rest) →
      1 ≤ v.state.reserved) ∧
    (∀ a v', v.step a = some v' → v.permits < v'.permits → 0 < v.state.free) ∧
    (v.passes = 0 → v.state.waiters ≠ [] → v.state.free = 0) := by
  have hreserved : v.state.reserved.toNat = v.permits :=
    h.invariant (I := fun v => v.state.reserved.toNat = v.permits) rfl
      fun _ _ _ hv _ hs => (step_section hs).reserved hv
  have hawake : v.Awake :=
    h.invariant (fun hw => absurd rfl hw) fun _ _ _ hv _ hs => (step_section hs).awake hv
  refine ⟨hreserved, fun t rest ht => ?_, fun a v' hs hlt => ?_, fun hp hw => ?_⟩
  · have := permits_setThread ht rest
    simp only [List.map_cons, List.sum_cons, Frame.permit] at this
    rw [UInt32.le_iff_toNat_le, UInt32.toNat_one]
    omega
  · have hreserved' := (step_section hs).reserved hreserved
    exact (step_section hs).free_of_reserved (by omega)
  · by_contra hf
    have := hawake hw (UInt32.pos_iff_ne_zero.mpr hf)
    omega

/-- A worker with one slot. -/
def oneSlot : View := start 1 ⟨"cpu", "mc", "kernel", "vmm"⟩ [] false

/-- Two callers want the slot; the second one is served by the drop of the first permit. -/
def handOver : List Action :=
  [.begin (.acquire none), .begin (.acquire none), .proceed 0, .proceed 1, .release 0,
    .run 0, .run 0, .run 0, .run 0]

theorem slot_accounting_handOver :
    ∃ v, exec step Any handOver oneSlot = some v ∧ v.permits = 1 ∧
      v.state.reserved.toNat = v.permits := by
  have hrun : (exec step Any handOver oneSlot).any (fun v => v.permits = 1) := by decide +kernel
  obtain ⟨v, hv, hp⟩ := (Option.any_eq_true _ _).mp hrun
  exact ⟨v, hv, by simpa using hp, (slot_accounting (runs_exec hv)).1⟩

end View
end Orchestrator.Sched
