import Orchestrator.Lib.Account
import Orchestrator.Sched.Driver

/-! # Sched — Leases

Which virtual machines are there and which permits are out, read off a trace of the driver.
The worker is honest: a lease it hands out is not in use, it destroys a machine only after
the machine's forked children, and within the attempts of `destroy_with_retry` it does
destroy one that has none.

* `Driver.leads_runJobDeadline`, `Driver.leads_bootstrap`: the ledger of a job and of the
  bootstrap is clear at their end.
* `Driver.begun_tryFork`: the machines and the permits of the fork path.
* `Driver.no_leaks`
-/

namespace Orchestrator.Sched

open Core Services Lib

/-- A machine, and the one it was forked from. -/
structure Vm where
  lease : Lease
  parent : Option Lease
deriving DecidableEq, Repr

open Sched.Driver (Op Ans)

/-- The leases a call is about, or hands out. -/
def leases : Exchange Op Ans → List Lease
  | ⟨.injectInputs lease _, _⟩ | ⟨.run lease _ _, _⟩ | ⟨.takeSnapshot lease _, _⟩
  | ⟨.destroyVm lease _, _⟩ => [lease]
  | ⟨.fork parent _, .ok children⟩ => parent :: children
  | ⟨.fork parent _, .error _⟩ => [parent]
  | ⟨.restoreSnapshot _ _, .ok (lease, _)⟩ => [lease]
  | ⟨.createVm _, .ok lease⟩ => [lease]
  | _ => []

namespace Driver

/-! ### What a trace says -/

/-- The machines a call allocates. An error allocates none. -/
def allocated : Exchange Op Ans → List Vm
  | ⟨.createVm _, .ok lease⟩ => [⟨lease, none⟩]
  | ⟨.restoreSnapshot _ _, .ok (lease, _)⟩ => [⟨lease, none⟩]
  | ⟨.fork parent _, .ok children⟩ => children.map fun lease => ⟨lease, some parent⟩
  | _ => []

/-- The lease a call destroys. -/
def destroyed : Exchange Op Ans → Option Lease
  | ⟨.destroyVm lease _, .ok ()⟩ => some lease
  | _ => none

/-- The permits a call takes. -/
def taken : Exchange Op Ans → Nat
  | ⟨.acquire _, .ok ()⟩ | ⟨.tryAcquire, true⟩ => 1
  | _ => 0

/-- The permits a call gives back. -/
def dropped : Exchange Op Ans → Nat
  | ⟨.dropPermit, ()⟩ => 1
  | _ => 0

/-- A restore that is refused because the worker has no room. -/
def refused : Exchange Op Ans → Bool
  | ⟨.restoreSnapshot _ _, .error e⟩ => isBackpressure e
  | _ => false

/-- The machines after a call. -/
def after (vms : List Vm) (e : Exchange Op Ans) : List Vm :=
  vms.filter (some ·.lease ≠ destroyed e) ++ allocated e

/-- The machines after the calls of a trace. -/
def live (vms : List Vm) (t : Trace) : List Vm := t.foldl after vms

/-- What the worker may answer while the machines are `vms`. -/
def HonestAt (vms : List Vm) : Exchange Op Ans → Prop
  | ⟨.destroyVm lease _, .ok ()⟩ => ∀ v ∈ vms, v.parent ≠ some lease
  | ⟨.destroyVm lease attempts, .error e⟩ =>
    if e.kind = .notFound then ∀ v ∈ vms, v.lease ≠ lease
    else
      -- Refused for good: the machine is gone, or its children are there.
      attempts < 8 ∨ (∀ v ∈ vms, v.lease ≠ lease) ∨ ∃ v ∈ vms, v.parent = some lease
  | e => ∀ v ∈ allocated e, ∀ u ∈ vms, u.lease ≠ v.lease

/-- The worker's answers along a trace. -/
def Honest : List Vm → Trace → Prop
  | _, [] => True
  | vms, e :: t => HonestAt vms e ∧ Honest (after vms e) t

/-- The machine that a call brings to its end, unless it has children. -/
def ends : Exchange Op Ans → Option Lease
  | ⟨.destroyVm lease _, .ok ()⟩ => some lease
  | ⟨.destroyVm lease attempts, .error e⟩ =>
    if e.kind = .notFound ∨ 8 ≤ attempts then some lease else none
  | _ => none

/-- No call of a trace allocates. -/
def NoAlloc (t : Trace) : Prop := ∀ e ∈ t, allocated e = []

/-- Every allocation is followed by an end of its machine. -/
def Settled : Trace → Prop
  | [] => True
  | e :: t => (∀ v ∈ allocated e, ∃ x ∈ t, ends x = some v.lease) ∧ Settled t

variable {vms : List Vm} {t u : Trace} {e x : Exchange Op Ans} {lease : Lease}

theorem live_append (t u : Trace) : live vms (t ++ u) = live (live vms t) u := List.foldl_append ..

theorem honest_append : Honest vms (t ++ u) ↔ Honest vms t ∧ Honest (live vms t) u := by
  induction t generalizing vms with
  | nil => simp [Honest, live]
  | cons e t ih =>
    simp only [List.cons_append, Honest, ih, and_assoc]
    rfl

theorem allocated_of_ends (h : ends e = some lease) : allocated e = [] := by
  obtain ⟨op, answer⟩ := e
  cases op with
  | destroyVm => rfl
  | _ => cases h

/-- A machine without children that comes to its end is gone, and no other. -/
theorem after_of_ends (hx : ends x = some lease) (hh : HonestAt vms x)
    (hc : ∀ v ∈ vms, v.parent ≠ some lease) : after vms x = vms.filter (·.lease ≠ lease) := by
  rw [after, allocated_of_ends hx, List.append_nil]
  obtain ⟨op, answer⟩ := x
  cases op with
  | destroyVm l attempts =>
    cases answer with
    | ok _ =>
      cases hx
      simp [destroyed]
    | error e =>
      -- The machine was gone before: the worker says so, or has refused for good.
      obtain ⟨hend, rfl⟩ : (e.kind = .notFound ∨ 8 ≤ attempts) ∧ l = lease := by
        simpa [ends] using hx
      have hgone : ∀ v ∈ vms, v.lease ≠ l := by
        by_cases hk : e.kind = .notFound
        · simpa [HonestAt, hk] using hh
        · have hh : attempts < 8 ∨ (∀ v ∈ vms, v.lease ≠ l) ∨ ∃ v ∈ vms, v.parent = some l := by
            simpa [HonestAt, hk] using hh
          rcases hh with hlt | hgone | ⟨u, hu, hparent⟩
          · exact absurd (hend.resolve_left hk) (Nat.not_le.mpr hlt)
          · exact hgone
          · exact absurd hparent (hc u hu)
      rw [List.filter_eq_self.mpr (by simp [destroyed])]
      exact (List.filter_eq_self.mpr (by simpa using hgone)).symm
  | _ => cases hx

theorem not_mem_after_of_ends (hx : ends x = some lease) (hh : HonestAt vms x)
    (hc : ∀ v ∈ vms, v.parent ≠ some lease) : ∀ v ∈ after vms x, v.lease ≠ lease := by
  intro v hv
  rw [after_of_ends hx hh hc] at hv
  exact of_decide_eq_true (List.mem_filter.mp hv).2

theorem after_subset (he : allocated e = []) : after vms e ⊆ vms := by
  rw [after, he, List.append_nil]
  exact List.filter_subset_self _

theorem live_subset (hu : NoAlloc u) : live vms u ⊆ vms := by
  induction u generalizing vms with
  | nil => exact fun _ hv => hv
  | cons e u ih =>
    obtain ⟨he, hu⟩ := List.forall_mem_cons.mp hu
    exact fun v hv => after_subset he (ih hu hv)

/-- While nothing is allocated, a machine without children that comes to its end is gone. -/
theorem not_live_of_mem (hu : NoAlloc u) (hc : ∀ v ∈ vms, v.parent ≠ some lease)
    (hends : ∃ x ∈ u, ends x = some lease) (hh : Honest vms u) :
    ∀ v ∈ live vms u, v.lease ≠ lease := by
  induction u generalizing vms with
  | nil =>
    obtain ⟨x, hx, -⟩ := hends
    cases hx
  | cons e u ih =>
    obtain ⟨he, hrest⟩ := List.forall_mem_cons.mp hu
    obtain ⟨x, hmem, hx⟩ := hends
    rcases List.mem_cons.mp hmem with rfl | hmem
    · exact fun v hv => not_mem_after_of_ends hx hh.1 hc v (live_subset hrest hv)
    · exact ih hrest (fun v hv => hc v (after_subset he hv)) ⟨x, hmem, hx⟩ hh.2

/-- Machines that are not forked and come to their ends are gone. -/
theorem live_eq_nil (hn : ∀ e ∈ t, ∀ v ∈ allocated e, v.parent = none)
    (hp : ∀ v ∈ vms, v.parent = none) (he : ∀ v ∈ vms, ∃ x ∈ t, ends x = some v.lease)
    (hs : Settled t) (hh : Honest vms t) : live vms t = [] := by
  induction t generalizing vms with
  | nil =>
    refine List.eq_nil_iff_forall_not_mem.mpr fun v hv => ?_
    obtain ⟨x, hx, -⟩ := he v hv
    cases hx
  | cons e t ih =>
    obtain ⟨hne, hn⟩ := List.forall_mem_cons.mp hn
    refine ih hn ?_ ?_ hs.2 hh.2
    · intro v hv
      rcases List.mem_append.mp hv with hv | hv
      · exact hp v (List.mem_of_mem_filter hv)
      · exact hne v hv
    · intro v hv
      rcases List.mem_append.mp hv with hv' | hv'
      · obtain ⟨x, hx, hends⟩ := he v (List.mem_of_mem_filter hv')
        rcases List.mem_cons.mp hx with rfl | hx
        · have hc : ∀ u ∈ vms, u.parent ≠ some v.lease := fun u hu => by simp [hp u hu]
          exact absurd rfl (not_mem_after_of_ends hends hh.1 hc v hv)
        · exact ⟨x, hx, hends⟩
      · exact hs.1 v hv'

theorem settled_iff : Settled t ↔ ∀ before e after, t = before ++ e :: after →
    ∀ v ∈ allocated e, ∃ x ∈ after, ends x = some v.lease := by
  induction t with
  | nil => simp [Settled]
  | cons e t ih =>
    constructor
    · rintro ⟨he, ht⟩ before e' after heq
      cases before with
      | nil =>
        cases heq
        exact he
      | cons b before =>
        cases heq
        exact ih.mp ht before e' after rfl
    · intro h
      refine ⟨h [] e t rfl, ih.mpr fun before e' after heq => ?_⟩
      exact h (e :: before) e' after (by rw [heq]; rfl)

theorem settled_interleaving {ts : List Trace} (h : Interleaving ts t) (hs : ∀ u ∈ ts, Settled u) :
    Settled t := by
  refine settled_iff.mpr fun before e after heq v hv => ?_
  obtain ⟨u, hu, before', after', rfl, hafter⟩ := h.split heq
  obtain ⟨x, hx, hends⟩ := settled_iff.mp (hs _ hu) before' e after' rfl v hv
  exact ⟨x, hafter x hx, hends⟩

/-! ### Ledgers -/

/-- What a task has had of the worker: the machines handed out, those that have not come to
their end, permits taken and given back, refusals for lack of room, and leases it has used that
it was not handed. -/
structure Ledger where
  handed : List Vm
  pending : List Lease
  taken : Nat
  dropped : Nat
  refused : Nat
  foreign : List Lease

namespace Ledger

def leases (l : Ledger) : List Lease := l.handed.map Vm.lease

def after (l : Ledger) (e : Exchange Op Ans) : Ledger where
  handed := l.handed ++ allocated e
  pending := l.pending.filter (some · ≠ ends e) ++ (allocated e).map Vm.lease
  taken := l.taken + Driver.taken e
  dropped := l.dropped + Driver.dropped e
  refused := l.refused + if Driver.refused e then 1 else 0
  foreign := l.foreign ++ (Sched.leases e).filter (· ∉ (l.handed ++ allocated e).map Vm.lease)

def empty : Ledger := ⟨[], [], 0, 0, 0, []⟩

/-- A machine comes to its end. -/
def close (l : Ledger) (lease : Lease) : Ledger :=
  { l with pending := l.pending.filter (· ≠ lease) }

theorem close_close (l : Ledger) (lease : Lease) : (l.close lease).close lease = l.close lease := by
  simp [close]

variable {l : Ledger}

theorem foldl_sums : (t.foldl after l).taken = l.taken + (t.map Driver.taken).sum ∧
    (t.foldl after l).dropped = l.dropped + (t.map Driver.dropped).sum ∧
    (t.foldl after l).refused = l.refused + t.countP Driver.refused ∧
    (t.foldl after l).handed = l.handed ++ t.flatMap allocated := by
  induction t generalizing l with
  | nil => simp
  | cons e t ih =>
    obtain ⟨htaken, hdropped, hrefused, hhanded⟩ := @ih (l.after e)
    refine ⟨htaken.trans ?_, hdropped.trans ?_, hrefused.trans ?_, hhanded.trans ?_⟩
    · simp [after, Nat.add_assoc]
    · simp [after, Nat.add_assoc]
    · simp only [after, List.countP_cons]
      omega
    · simp [after]

/-- What is not pending any more has come to its end. -/
theorem settled_of_pending (h : (t.foldl after l).pending = []) :
    (∀ x ∈ l.pending, ∃ e ∈ t, ends e = some x) ∧ Settled t := by
  induction t generalizing l with
  | nil =>
    refine ⟨fun x hx => ?_, trivial⟩
    rw [show l.pending = [] from h] at hx
    cases hx
  | cons e t ih =>
    obtain ⟨hall, hsettled⟩ := ih h
    refine ⟨fun x hx => ?_, fun v hv => ?_, hsettled⟩
    · by_cases he : ends e = some x
      · exact ⟨e, List.mem_cons_self, he⟩
      · have hkept : x ∈ (l.after e).pending :=
          List.mem_append_left _ (List.mem_filter.mpr ⟨hx, decide_eq_true (Ne.symm he)⟩)
        obtain ⟨y, hy, hends⟩ := hall x hkept
        exact ⟨y, List.mem_cons_of_mem _ hy, hends⟩
    · exact hall v.lease (List.mem_append_right _ (List.mem_map_of_mem hv))

/-- A task that has used no lease of others has used those it was handed. -/
theorem mem_of_foreign (h : (t.foldl after l).foreign = []) :
    l.foreign = [] ∧ ∀ e ∈ t, ∀ x ∈ Sched.leases e, x ∈ (t.foldl after l).leases := by
  induction t generalizing l with
  | nil => exact ⟨h, fun _ he => (List.not_mem_nil he).elim⟩
  | cons e t ih =>
    obtain ⟨hnone, hrest⟩ := ih h
    obtain ⟨hforeign, hfilter⟩ := List.append_eq_nil_iff.mp hnone
    refine ⟨hforeign, List.forall_mem_cons.mpr ⟨fun x hx => ?_, hrest⟩⟩
    have hown : x ∈ (l.after e).leases := by
      have hnot := List.filter_eq_nil_iff.mp hfilter x hx
      rwa [decide_eq_true_iff, not_not] at hnot
    have hhanded := (@foldl_sums t (l.after e)).2.2.2
    rw [leases, List.foldl_cons, hhanded, List.map_append]
    exact List.mem_append_left _ hown

/-- A call that moves neither machines nor permits. -/
theorem after_eq (ha : allocated e = []) (ht : Driver.taken e = 0) (hd : Driver.dropped e = 0)
    (hr : Driver.refused e = false) (hl : ∀ x ∈ Sched.leases e, x ∈ l.leases) :
    l.after e = { l with pending := l.pending.filter (some · ≠ ends e) } := by
  have hforeign : (Sched.leases e).filter (· ∉ l.handed.map Vm.lease) = [] :=
    List.filter_eq_nil_iff.mpr fun x hx => by simpa [leases] using hl x hx
  simp only [after, ha, ht, hd, hr, List.append_nil, List.map_nil, hforeign, Nat.add_zero,
    Bool.false_eq_true, if_false]

/-- Calls that leave the ledger as it is. -/
def Idle (l : Ledger) : Op → Prop
  | .injectInputs lease _ | .run lease _ _ | .takeSnapshot lease _ => lease ∈ l.leases
  | .sleep | .elapsed | .acquireClassCheck _ => True
  | _ => False

theorem after_idle {op : Op} (h : l.Idle op) (r : Ans op) : l.after ⟨op, r⟩ = l := by
  have hpending : l.pending.filter (some · ≠ none) = l.pending :=
    List.filter_eq_self.mpr fun _ _ => rfl
  cases op with
  | injectInputs | run | takeSnapshot =>
    rw [after_eq rfl rfl rfl rfl fun x hx => List.mem_singleton.mp hx ▸ h]
    exact congrArg (fun pending => { l with pending }) hpending
  | sleep | elapsed | acquireClassCheck =>
    rw [after_eq rfl rfl rfl rfl fun _ hx => (List.not_mem_nil hx).elim]
    exact congrArg (fun pending => { l with pending }) hpending
  | _ => exact h.elim

theorem after_destroyVm {n : Nat} {r : Except ClientError Unit} (h : lease ∈ l.leases) :
    l.after ⟨.destroyVm lease n, r⟩ =
      { l with pending := l.pending.filter (some · ≠ ends ⟨.destroyVm lease n, r⟩) } :=
  after_eq rfl rfl rfl rfl fun _ hx => List.mem_singleton.mp hx ▸ h

end Ledger

/-! ### Accounts of the driver -/

/-- An account of the driver's calls, which those that only pass the time do not change. -/
structure Account (W : Type) where
  after : W → Exchange Op Ans → W
  elapsed : ∀ w b, after w ⟨.elapsed, b⟩ = w
  sleep : ∀ w, after w ⟨.sleep, ()⟩ = w

section

variable {W α : Type} {A : Account W} {H : W → Prop} {s : Cell} {w : W} {Q : α → Cell → W → Prop}
  {E : Stop → Cell → W → Prop}

/-- An await is answered, or the deadline cancels the work there. -/
theorem leads_await {op : Op} {Q : Ans op → Cell → W → Prop}
    (hr : ∀ r, Q r s (A.after w ⟨op, r⟩)) (hc : s.timed = true → E .cancelled s w) :
    (await op).Leads A.after Q E H s w := by
  refine Proc.leads_bind.mpr (Proc.leads_bind.mpr ?_)
  show (if s.timed then Proc.call Op.elapsed else pure false : M Bool).Leads A.after _ E H s w
  split
  · intro b
    show (if b then Proc.fail .cancelled else Proc.call op : M (Ans op)).Leads A.after Q E H s
      (A.after w ⟨.elapsed, b⟩)
    rw [A.elapsed]
    split
    · exact hc ‹_›
    · exact hr
  · exact hr

theorem leads_sleep {Q : Unit → Cell → W → Prop} (h : Q () s w)
    (hc : s.timed = true → E .cancelled s w) : (await .sleep).Leads A.after Q E H s w :=
  leads_await (fun _ => (A.sleep w).symm ▸ h) hc

theorem leads_dropPermit {Q : Unit → Cell → W → Prop} (h : Q () s (A.after w ⟨.dropPermit, ()⟩)) :
    dropPermit.Leads A.after Q E H s w :=
  fun _ => h

theorem leads_orReturn {r : Except ClientError α} (hok : ∀ a, r = .ok a → Q a s w)
    (herr : ∀ e, r = .error e → E (.error e) s w) : (orReturn r).Leads A.after Q E H s w := by
  cases r with
  | ok a => exact hok a rfl
  | error e => exact herr e rfl

/-- What a failure is where its error is taken as a value. -/
def caught (Q : Except ClientError α → Cell → W → Prop) (E : Stop → Cell → W → Prop) :
    Stop → Cell → W → Prop
  | .error e => Q (.error e)
  | .cancelled => E .cancelled

theorem leads_result {x : M α} {Q : Except ClientError α → Cell → W → Prop}
    (h : x.Leads A.after (fun a => Q (.ok a)) (caught Q E) H s w) :
    (result x).Leads A.after Q E H s w := by
  refine Proc.leads_bind.mpr (Proc.leads_attempt.mpr (Proc.leads_mono h (fun _ _ _ hQ => hQ) ?_))
  intro e s' w' he
  cases e <;> exact he

/-- An allocation waits out backpressure, as often as it has fuel. -/
theorem leads_allocate {request : M (Except ClientError α)} {I : Nat → W → Prop} {fuel : Nat}
    (hrequest : ∀ n w, I (n + 1) w → request.Leads A.after (fun r s' w' => s' = s ∧ match r with
      | .ok a => Q a s w'
      | .error e => if isBackpressure e then I n w' else E (.error e) s w') E H s w)
    (hcancel : s.timed = true → ∀ n w, I n w → E .cancelled s w) (hH : ∀ w, I 0 w → H w)
    (hw : I fuel w) : (allocate request fuel).Leads A.after Q E H s w := by
  induction fuel generalizing w with
  | zero => exact hH w hw
  | succ fuel ih =>
    refine Proc.leads_bind.mpr (Proc.leads_mono (hrequest fuel w hw) ?_ fun _ _ _ he => he)
    rintro r s' w' ⟨rfl, hr⟩
    cases r with
    | ok a => exact hr
    | error e =>
      dsimp only at hr ⊢
      split at hr
      · rw [if_pos ‹_›]
        exact Proc.leads_bind.mpr (leads_sleep (ih hr) fun ht => hcancel ht _ _ hr)
      · rw [if_neg ‹_›]
        exact hr

/-- Every way out of the retries is an end of the machine, but for a deadline. -/
theorem leads_destroyAttempts {left : Nat} {I J : W → Prop} {Q : Unit → Cell → W → Prop}
    (hends : ∀ w n r, I w → ends ⟨.destroyVm lease n, r⟩ = some lease →
      J (A.after w ⟨.destroyVm lease n, r⟩))
    (hkept : ∀ w n r, I w → ends ⟨.destroyVm lease n, r⟩ = none →
      I (A.after w ⟨.destroyVm lease n, r⟩))
    (hok : ∀ w, J w → Q () s w) (herr : ∀ e w, J w → E (.error e) s w)
    (hc : s.timed = true → ∀ w, I w → E .cancelled s w) (hw : I w) :
    (destroyAttempts lease left).Leads A.after Q E H s w := by
  induction left using Nat.strong_induction_on generalizing w with
  | _ left ih =>
    unfold destroyAttempts
    refine Proc.leads_bind.mpr (leads_await (fun r => ?_) fun ht => hc ht w hw)
    cases r with
    | ok _ => exact hok _ (hends w _ _ hw rfl)
    | error e =>
      dsimp only
      split
      · exact hok _ (hends w _ _ hw (if_pos (.inl ‹_›)))
      · cases left with
        | zero => exact herr e _ (hends w 8 (.error e) hw (if_pos (.inr (Nat.le_refl 8))))
        | succ left =>
          have hkept := hkept w (8 - (left + 1)) (.error e) hw
            (if_neg (by rintro (h | h) <;> [contradiction; omega]))
          exact Proc.leads_bind.mpr
            (leads_sleep (ih left (Nat.lt_succ_self left) hkept) fun ht => hc ht _ hkept)

end

/-! ### A job's ledger -/

def ledger : Account Ledger where
  after := Ledger.after
  elapsed l b := Ledger.after_idle (show l.Idle .elapsed from trivial) b
  sleep l := Ledger.after_idle (show l.Idle .sleep from trivial) ()

section

variable {α : Type} {H : Ledger → Prop} {s : Cell} {l : Ledger} {d : Driver} {spec : JobSpec}
  {frame fuel n : Nat} {E : Stop → Cell → Ledger → Prop}

theorem leads_idle {op : Op} {Q : Ans op → Cell → Ledger → Prop} (h : l.Idle op)
    (hr : ∀ r, Q r s l) (hc : s.timed = true → E .cancelled s l) :
    (await op).Leads ledger.after Q E H s l := by
  refine leads_await (fun r => ?_) hc
  show Q r s (l.after ⟨op, r⟩)
  rw [Ledger.after_idle h]
  exact hr r

variable {Q : Unit → Cell → Ledger → Prop} {vm : Option Lease} {icountCap : Option Nat}

theorem leads_destroyWithRetry (hl : lease ∈ l.leases) (hok : Q () s (l.close lease))
    (herr : ∀ e, E (.error e) s (l.close lease)) (hc : s.timed = true → E .cancelled s l) :
    (destroyWithRetry lease).Leads ledger.after Q E H s l := by
  refine leads_destroyAttempts (I := (· = l)) (J := (· = l.close lease)) ?_ ?_
    (fun _ hw => hw ▸ hok) (fun e _ hw => hw ▸ herr e) (fun ht _ hw => hw ▸ hc ht) rfl
  · rintro _ n r rfl hends
    exact (Ledger.after_destroyVm hl).trans (by simp [hends, Ledger.close])
  · rintro _ n r rfl hends
    exact (Ledger.after_destroyVm hl).trans (by simp [hends])

theorem leads_destroy {Q : Except ClientError Unit → Cell → Ledger → Prop} (hl : lease ∈ l.leases)
    (h : ∀ r, Q r s (l.close lease)) (hc : s.timed = true → E .cancelled s l) :
    (result (destroyWithRetry lease)).Leads ledger.after Q E H s l :=
  leads_result (leads_destroyWithRetry hl (h _) (fun _ => h _) hc)

theorem leads_driveLeasedJobInner {Q : JobResult → Cell → Ledger → Prop} (hl : lease ∈ l.leases)
    (hok : ∀ job, Q job s (l.close lease))
    (herr : ∀ e l', l' = l ∨ l' = l.close lease → E (.error e) s l')
    (hc : s.timed = true → E .cancelled s l) :
    (driveLeasedJobInner d spec lease frame).Leads ledger.after Q E H s l := by
  have hfail : ∀ e, E (.error e) s l := fun e => herr e l (.inl rfl)
  refine Proc.leads_bind.mpr (leads_orReturn (fun pad _ => ?_) fun e _ => hfail e)
  refine Proc.leads_bind.mpr (leads_orReturn (fun plan _ => ?_) fun e _ => hfail e)
  refine Proc.leads_bind.mpr (leads_idle hl (fun injected => ?_) hc)
  refine Proc.leads_bind.mpr (leads_orReturn (fun _ _ => ?_) fun e _ => hfail e)
  refine Proc.leads_bind.mpr (leads_idle hl (fun ran => ?_) hc)
  refine Proc.leads_bind.mpr (leads_orReturn (fun run _ => ?_) fun e _ => hfail e)
  refine Proc.leads_bind.mpr (leads_orReturn (fun verdict _ => ?_) fun e _ => hfail e)
  dsimp only
  split
  · refine Proc.leads_bind.mpr (leads_destroyWithRetry hl (hok _) (fun e => ?_) hc)
    exact herr e _ (.inr rfl)
  · refine Proc.leads_bind.mpr (leads_idle hl (fun taken => ?_) hc)
    refine Proc.leads_bind.mpr (leads_orReturn (fun snapshot _ => ?_) fun e _ => hfail e)
    exact Proc.leads_bind.mpr (leads_destroy hl (fun _ => hok _) hc)

/-- A driven job leaves no machine, whether it fails or not. -/
theorem leads_driveLeasedJob {Q : Except ClientError JobResult → Cell → Ledger → Prop}
    (hl : lease ∈ l.leases) (h : ∀ r, Q r s (l.close lease))
    (hc : s.timed = true → ∀ l', l' = l ∨ l' = l.close lease → E .cancelled s l') :
    (result (driveLeasedJob d spec lease frame)).Leads ledger.after Q E H s l := by
  refine leads_result (Proc.leads_bind.mpr (leads_result (leads_driveLeasedJobInner hl
    (fun _ => h _) (fun e l' hl' => ?_) fun ht => hc ht l (.inl rfl))))
  -- The teardown of a failed job, which may have been torn down already.
  have hleases : lease ∈ l'.leases := by rcases hl' with rfl | rfl <;> exact hl
  have hclose : l'.close lease = l.close lease := by
    rcases hl' with rfl | rfl
    · rfl
    · exact l.close_close lease
  refine Proc.leads_bind.mpr (leads_destroy hleases (fun _ => ?_) fun ht => hc ht l' hl')
  rw [hclose]
  exact h (.error e)

/-- What a task has of the worker: permits, and a machine at most. -/
structure Holds (permits : Nat) (vm : Option Lease) (l : Ledger) : Prop where
  pending : ∀ x ∈ l.pending, vm = some x
  known : ∀ x, vm = some x → x ∈ l.leases
  plain : ∀ v ∈ l.handed, v.parent = none
  foreign : l.foreign = []
  permits : l.taken = l.dropped + permits

theorem Holds.close (h : Holds n (some lease) l) : Holds n none (l.close lease) where
  pending x hx := by
    obtain ⟨hx, hne⟩ := List.mem_filter.mp hx
    exact absurd (Option.some.inj (h.pending x hx)).symm (of_decide_eq_true hne)
  known := nofun
  plain := h.plain
  foreign := h.foreign
  permits := h.permits

theorem Holds.keeps (h : Holds n none l) (hl : lease ∈ l.leases) : Holds n (some lease) l where
  pending _ hx := nomatch h.pending _ hx
  known _ hx := Option.some.inj hx ▸ hl
  plain := h.plain
  foreign := h.foreign
  permits := h.permits

/-- A call that hands out a machine. -/
theorem Holds.allocated (h : Holds n none l) (ha : allocated e = [⟨lease, none⟩])
    (hl : leases e = [lease]) (ht : taken e = 0) (hd : dropped e = 0) :
    Holds n (some lease) (l.after e) where
  pending x hx := by
    rcases List.mem_append.mp hx with hx | hx
    · exact nomatch h.pending x (List.mem_of_mem_filter hx)
    · rw [ha] at hx
      rw [List.mem_singleton.mp hx]
  known x hx := by
    cases hx
    simp [Ledger.leases, Ledger.after, ha]
  plain v hv := by
    rcases List.mem_append.mp hv with hv | hv
    · exact h.plain v hv
    · rw [ha] at hv
      rw [List.mem_singleton.mp hv]
  foreign := by simp [Ledger.after, h.foreign, ha, hl]
  permits := by
    have hpermits := h.permits
    simp only [Ledger.after, ht, hd]
    omega

/-- A call that takes or gives back a permit, or is refused. -/
theorem Holds.moved {m : Nat} (h : Holds n vm l) (ha : Driver.allocated e = []) (hl : leases e = [])
    (hp : n + taken e = m + dropped e) : Holds m vm (l.after e) where
  pending x hx := by
    rcases List.mem_append.mp hx with hx | hx
    · exact h.pending x (List.mem_of_mem_filter hx)
    · rw [ha] at hx
      cases hx
  known x hx := by simpa [Ledger.leases, Ledger.after, ha] using h.known x hx
  plain v hv := h.plain v (by simpa [Ledger.after, ha] using hv)
  foreign := by simp [Ledger.after, h.foreign, hl]
  permits := by
    have hpermits := h.permits
    simp only [Ledger.after]
    omega

/-- A job's work: its machine comes to its end, or stays registered. -/
theorem leads_work {R : Except Stop JobResult → Cell → Ledger → Prop} (h : Holds n none l)
    (hs : s.activeLease = none) (hR : ∀ out s' l', Holds n s'.activeLease l' → R out s' l')
    (hH : ∀ l', l.refused + fuel ≤ l'.refused → H l') :
    (Proc.attempt (work d fuel spec)).Leads ledger.after R E H s l := by
  refine Proc.leads_attempt.mpr (Proc.leads_bind.mpr (leads_allocate
    (I := fun k w => Holds n none w ∧ l.refused + fuel ≤ w.refused + k) ?_ ?_ ?_
    ⟨h, Nat.le_refl _⟩))
  · intro k w hw
    refine leads_await (fun r => ⟨rfl, ?_⟩) fun _ => hR _ _ _ (hs.symm ▸ hw.1)
    cases r with
    | ok vm =>
      obtain ⟨lease, frame⟩ := vm
      have hopen := hw.1.allocated (e := ⟨.restoreSnapshot spec.parentSnapshot
        (some (d.deriveJobEntropySeed d.experimentSeed spec.batchSeq spec.jobIdx)),
        .ok (lease, frame)⟩) rfl rfl rfl rfl
      have hl := hopen.known lease rfl
      refine Proc.leads_bind.mpr (Proc.leads_bind.mpr (leads_driveLeasedJob hl (fun job => ?_) ?_))
      · refine Proc.leads_bind.mpr (leads_orReturn (fun _ _ => ?_) fun _ _ => ?_)
        · exact hR _ _ _ hopen.close
        · exact hR _ _ _ hopen.close
      · rintro - l' (rfl | rfl)
        · exact hR _ _ _ hopen
        · exact hR _ _ _ (hopen.close.keeps hl)
    | error e =>
      have hmoved := hw.1.moved (m := n) (e := ⟨.restoreSnapshot spec.parentSnapshot
        (some (d.deriveJobEntropySeed d.experimentSeed spec.batchSeq spec.jobIdx)), .error e⟩)
        rfl rfl rfl
      dsimp only
      split
      · next hfull =>
        refine ⟨hmoved, ?_⟩
        show _ ≤ w.refused + (if isBackpressure e then 1 else 0) + k
        rw [if_pos hfull]
        omega
      · exact hR _ _ _ (hs.symm ▸ hmoved)
  · exact fun _ k w hw => hR _ _ _ (hs.symm ▸ hw.1)
  · exact fun w hw => hH w hw.2

/-- What a cancellation has left behind is torn down. -/
theorem leads_destroyStranded (h : Holds n vm l) (hQ : ∀ l', Holds n none l' → Q () Cell.idle l') :
    (destroyStranded vm).Leads ledger.after Q E H Cell.idle l := by
  cases vm with
  | none => exact hQ l h
  | some lease =>
    exact Proc.leads_bind.mpr (leads_destroy (h.known lease rfl) (fun _ => hQ _ h.close) nofun)

/-- The end of a task with a permit. -/
theorem Holds.dropPermit (h : Holds (n + 1) none l) : Holds n none (l.after ⟨.dropPermit, ()⟩) :=
  h.moved rfl rfl rfl

/-- **A job.** However it ends, cancelled or not, it has come to a result and has nothing left. -/
theorem leads_runJobDeadline {deadline : Option Nat} {Q : JobResult → Cell → Ledger → Prop}
    (h : Holds 0 none l) (hQ : ∀ job l', Holds 0 none l' → Q job Cell.idle l')
    (hE : ∀ e l', Holds 0 none l' → E (.error e) Cell.idle l')
    (hH : ∀ l', l.refused + fuel ≤ l'.refused → H l') :
    (runJobDeadline d fuel spec deadline).Leads ledger.after Q E H Cell.idle l := by
  refine Proc.leads_bind.mpr (leads_await (fun r => ?_) nofun)
  cases r with
  | error e => exact hE e _ (h.moved rfl rfl rfl)
  | ok _ =>
    have hone : Holds 1 none (l.after ⟨.acquire spec.requiredClass, .ok ()⟩) := h.moved rfl rfl rfl
    refine Proc.leads_bind.mpr (Proc.leads_bind.mpr (Proc.leads_bind.mpr
      (leads_work hone rfl (fun done s' l' hl' => ?_) hH)))
    refine Proc.leads_bind.mpr (Proc.leads_bind.mpr (Proc.leads_bind.mpr
      (leads_destroyStranded hl' fun l' hl' => Proc.leads_bind.mpr (leads_dropPermit ?_))))
    exact leads_orReturn (fun job _ => hQ job _ hl'.dropPermit) fun e _ => hE e _ hl'.dropPermit

/-! ### The bootstrap -/

theorem leads_bootstrapLeased {Q : Except ClientError (Capture × Nat) → Cell → Ledger → Prop}
    (hl : lease ∈ l.leases) (hok : ∀ root, Q (.ok root) s (l.close lease))
    (herr : ∀ e l', l' = l ∨ l' = l.close lease → Q (.error e) s l')
    (hc : s.timed = true → E .cancelled s l) :
    (result (bootstrapLeased icountCap lease)).Leads ledger.after Q E H s l := by
  have hfail : ∀ e, Q (.error e) s l := fun e => herr e l (.inl rfl)
  refine leads_result (Proc.leads_bind.mpr (leads_idle hl (fun ran => ?_) hc))
  refine Proc.leads_bind.mpr (leads_orReturn (fun run _ => ?_) fun e _ => hfail e)
  split
  · exact hfail _
  · split
    · exact hfail _
    · refine Proc.leads_bind.mpr (leads_idle hl (fun taken => ?_) hc)
      refine Proc.leads_bind.mpr (leads_orReturn (fun snapshot _ => ?_) fun e _ => hfail e)
      exact Proc.leads_bind.mpr (leads_destroyWithRetry hl (hok _)
        (fun e => herr e _ (.inr rfl)) hc)

theorem leads_bootstrap (h : Holds 0 none l) :
    (bootstrap d fuel icountCap).Leads ledger.after (fun _ _ => Holds 0 none)
      (fun _ _ => Holds 0 none) (fun _ => True) Cell.idle l := by
  refine Proc.leads_bind.mpr (leads_await (fun r => ?_) nofun)
  cases r with
  | error e => exact h.moved rfl rfl rfl
  | ok _ =>
    have hone : Holds 1 none (l.after ⟨.acquire none, .ok ()⟩) := h.moved rfl rfl rfl
    refine Proc.leads_bind.mpr (leads_orReturn (fun _ _ => ?_) nofun)
    refine Proc.leads_bind.mpr (leads_result ?_)
    -- Whatever the result, the permit goes.
    have hend : ∀ (root : Except ClientError (Capture × Nat)) l', Holds 1 none l' →
        (do dropPermit; orReturn root : M (Capture × Nat)).Leads ledger.after
          (fun _ _ => Holds 0 none) (fun _ _ => Holds 0 none) (fun _ => True) Cell.idle l' :=
      fun root l' hl' => Proc.leads_bind.mpr (leads_dropPermit
        (leads_orReturn (fun _ _ => hl'.dropPermit) fun _ _ => hl'.dropPermit))
    refine Proc.leads_bind.mpr (leads_allocate (I := fun _ => Holds 1 none) ?_ nofun
      (fun _ _ => trivial) hone)
    · intro k w hw
      refine leads_await (fun r => ⟨rfl, ?_⟩) nofun
      cases r with
      | ok lease =>
        have hopen := hw.allocated (e := ⟨.createVm (d.deriveBootEntropySeed d.experimentSeed),
          .ok lease⟩) rfl rfl rfl rfl
        have hl := hopen.known lease rfl
        refine Proc.leads_bind.mpr (leads_bootstrapLeased hl (fun root => ?_) (fun e l' hl' => ?_)
          nofun)
        · exact hend _ _ hopen.close
        · have hholds : Holds 1 (some lease) l' := by
            rcases hl' with rfl | rfl
            · exact hopen
            · exact hopen.close.keeps hl
          exact Proc.leads_bind.mpr (leads_destroyStranded hholds fun l' hl' => hend _ _ hl')
      | error e =>
        have hmoved := hw.moved (m := 1) (e := ⟨.createVm
          (d.deriveBootEntropySeed d.experimentSeed), .error e⟩) rfl rfl rfl
        dsimp only
        split
        · exact hmoved
        · exact hend _ _ hmoved

end

/-! ### The fork path -/

/-- What the worker has while it is honest, and the permits that are out. -/
structure Floor where
  honest : Prop
  vms : List Vm
  taken : Nat
  dropped : Nat

namespace Floor

def after (w : Floor) (e : Exchange Op Ans) : Floor :=
  ⟨w.honest ∧ HonestAt w.vms e, Driver.after w.vms e, w.taken + Driver.taken e,
    w.dropped + Driver.dropped e⟩

def empty : Floor := ⟨True, [], 0, 0⟩

theorem foldl_after (w : Floor) (t : Trace) : t.foldl after w =
    ⟨w.honest ∧ Honest w.vms t, live w.vms t, w.taken + (t.map Driver.taken).sum,
      w.dropped + (t.map Driver.dropped).sum⟩ := by
  induction t generalizing w with
  | nil => simp [Honest, live]
  | cons e t ih =>
    rw [List.foldl_cons, ih]
    simp [after, Honest, live, and_assoc, Nat.add_assoc]

/-- While the worker is honest its machines are as `P` says. -/
structure Has (permits : Nat) (P : List Vm → Prop) (w : Floor) : Prop where
  vms : w.honest → P w.vms
  permits : w.taken = w.dropped + permits

variable {w : Floor} {n m : Nat} {P P' : List Vm → Prop}

theorem Has.after (h : Has n P w) (hp : n + Driver.taken e = m + Driver.dropped e)
    (hP : HonestAt w.vms e → P w.vms → P' (Driver.after w.vms e)) : Has m P' (w.after e) where
  vms hh := hP hh.2 (h.vms hh.1)
  permits := by
    have hpermits := h.permits
    simp only [Floor.after]
    omega

/-- A call that neither allocates nor destroys. -/
theorem Has.idle (h : Has n P w) (hp : n + Driver.taken e = m + Driver.dropped e)
    (hd : destroyed e = none) (ha : allocated e = []) : Has m P (w.after e) :=
  h.after hp fun _ hvms => by simpa [Driver.after, hd, ha] using hvms

end Floor

def floor : Account Floor where
  after := Floor.after
  elapsed w b := by simp [Floor.after, HonestAt, allocated, after, destroyed, taken, dropped]
  sleep w := by simp [Floor.after, HonestAt, allocated, after, destroyed, taken, dropped]

/-- A parent and forked children of it. -/
def Family (parent : Lease) (children : List Lease) (vms : List Vm) : Prop :=
  parent ∉ children ∧ ∀ v ∈ vms, v = ⟨parent, none⟩ ∨ ∃ c ∈ children, v = ⟨c, some parent⟩

variable {parent : Lease}

theorem Family.childless {children : List Lease} (h : Family parent children vms)
    (hl : lease ≠ parent) : ∀ v ∈ vms, v.parent ≠ some lease := by
  intro v hv
  rcases h.2 v hv with rfl | ⟨c, -, rfl⟩
  · simp
  · simpa using hl.symm

theorem Family.nil (h : Family parent [] vms) : ∀ v ∈ vms, v = ⟨parent, none⟩ := by
  intro v hv
  simpa using h.2 v hv

section

variable {H : Floor → Prop} {s : Cell} {w : Floor} {d : Driver} {b : BatchSpec} {parent : Lease}
  {frame n m : Nat} {E : Stop → Cell → Floor → Prop} {P R : List Vm → Prop} {f : Fork}

/-- A machine without children is destroyed, or gone. -/
theorem leads_destroyed {Q : Except ClientError Unit → Cell → Floor → Prop} (hs : s.timed = false)
    (h : Floor.Has n P w) (hc : ∀ vms, P vms → ∀ v ∈ vms, v.parent ≠ some lease)
    (hP : ∀ vms, P vms → R (vms.filter (·.lease ≠ lease)))
    (hQ : ∀ r w', Floor.Has n R w' → Q r s w') :
    (result (destroyWithRetry lease)).Leads floor.after Q E H s w := by
  refine leads_result (leads_destroyAttempts (I := Floor.Has n P) (J := Floor.Has n R) ?_ ?_
    (fun _ hw => hQ _ _ hw) (fun _ _ hw => hQ _ _ hw) (fun ht => nomatch hs.symm.trans ht) h)
  · intro w k r hw hends
    refine hw.after rfl fun hh hvms => ?_
    rw [after_of_ends hends hh (hc _ hvms)]
    exact hP _ hvms
  · intro w k r hw hends
    refine hw.idle rfl ?_ rfl
    cases r with
    | ok _ => cases hends
    | error e => rfl

variable {Q : Unit → Cell → Floor → Prop}
  {results : Option (List (Nat × Except ClientError JobResult))}

theorem leads_destroyEach {children : List Lease} (hs : s.timed = false)
    (h : Floor.Has n (Family parent children) w)
    (hQ : ∀ w', Floor.Has n (Family parent []) w' → Q () s w') :
    (destroyEach children).Leads floor.after Q E H s w := by
  induction children generalizing w with
  | nil => exact hQ w h
  | cons c children ih =>
    refine Proc.leads_bind.mpr (leads_destroyed hs h (fun vms hvms => hvms.childless ?_)
      (fun vms hvms => ⟨?_, fun v hv => ?_⟩) fun _ w' hw' => ih hw')
    · rintro rfl
      exact hvms.1 List.mem_cons_self
    · exact fun hmem => hvms.1 (List.mem_cons_of_mem _ hmem)
    · obtain ⟨hv, hne⟩ := List.mem_filter.mp hv
      rcases hvms.2 v hv with hv | ⟨c', hc', rfl⟩
      · exact .inl hv
      · refine .inr ⟨c', (List.mem_cons.mp hc').resolve_left ?_, rfl⟩
        exact of_decide_eq_true hne

theorem leads_dropPermits (h : Floor.Has (m + n) P w) (hQ : ∀ w', Floor.Has m P w' → Q () s w') :
    (dropPermits n).Leads floor.after Q E H s w := by
  induction n generalizing w with
  | zero => exact hQ w h
  | succ n ih => exact Proc.leads_bind.mpr (leads_dropPermit (ih (h.idle rfl rfl rfl)))

/-- All the permits, or none: those already taken are given back. -/
theorem leads_tryAcquireAll {more : Nat} {Q : Bool → Cell → Floor → Prop} (h : Floor.Has n P w)
    (hall : ∀ w', Floor.Has (n + more) P w' → Q true s w')
    (hnone : ∀ w', Floor.Has 0 P w' → Q false s w') :
    (tryAcquireAll n more).Leads floor.after Q E H s w := by
  induction more generalizing n w with
  | zero => exact hall w h
  | succ more ih =>
    refine Proc.leads_bind.mpr fun r => ?_
    cases r with
    | true =>
      refine ih (h.idle rfl rfl rfl) fun w' hw' => hall w' ?_
      rwa [Nat.add_right_comm] at hw'
    | false =>
      refine Proc.leads_bind.mpr (leads_dropPermits (m := 0) ?_ hnone)
      rw [Nat.zero_add]
      exact h.idle rfl rfl rfl

/-- Where the fork path is when its children are due. -/
def Begun (b : BatchSpec) (w : Floor) : Fork → Prop
  | .returned _ => Floor.Has 0 (· = []) w
  | .forked parent _ children =>
    children.length = b.bursts.length ∧
      Floor.Has (b.bursts.length + 1) (Family parent children) w

/-- The fork path gives up before it has a machine. -/
theorem leads_giveUp (h : Floor.Has n (· = []) w) :
    (do dropPermits n; pure (.returned results) : M Fork).Leads
      floor.after (fun f _ w' => Begun b w' f) E H s w :=
  Proc.leads_bind.mpr (leads_dropPermits (m := 0) (by rwa [Nat.zero_add]) fun _ hw' => hw')

/-- The fork path gives up its parent. -/
theorem leads_tearDown (hs : s.timed = false) (h : Floor.Has n (Family parent []) w) :
    (do let _ ← result (destroyWithRetry parent); dropPermits n; pure (.returned results) :
      M Fork).Leads floor.after (fun f _ w' => Begun b w' f) E H s w := by
  refine Proc.leads_bind.mpr (leads_destroyed (R := (· = [])) hs h (fun vms hvms v hv => ?_)
    (fun vms hvms => ?_) fun _ w' hw' => leads_giveUp hw')
  · simp [hvms.nil v hv]
  · exact List.filter_eq_nil_iff.mpr fun v hv => by simp [hvms.nil v hv]

theorem leads_forkChildren (hs : s.timed = false)
    (h : Floor.Has (b.bursts.length + 1) (· = [⟨parent, none⟩]) w) :
    (forkChildren d b parent frame).Leads floor.after (fun f _ w' => Begun b w' f) E H s w := by
  have hfamily : ∀ vms, vms = [⟨parent, none⟩] → Family parent [] vms := by
    rintro _ rfl
    exact ⟨List.not_mem_nil, by simp⟩
  have hhas : Floor.Has (b.bursts.length + 1) (Family parent []) w :=
    ⟨fun hh => hfamily _ (h.vms hh), h.permits⟩
  unfold forkChildren
  dsimp only
  split
  · exact leads_tearDown hs hhas
  · next seeds _ =>
    refine Proc.leads_bind.mpr (leads_await (fun r => ?_) fun ht => nomatch hs.symm.trans ht)
    cases r with
    | error e => exact leads_tearDown hs (hhas.idle rfl rfl rfl)
    | ok children =>
      have hforked : Floor.Has (b.bursts.length + 1) (Family parent children)
          (w.after ⟨.fork parent seeds, .ok children⟩) := by
        refine h.after rfl fun hh hvms => ⟨fun hmem => ?_, fun v hv => ?_⟩
        · exact hh _ (List.mem_map_of_mem hmem) ⟨parent, none⟩ (by rw [hvms]; simp) rfl
        · rw [hvms] at hv
          simpa [after, destroyed, allocated, eq_comm] using hv
      dsimp only
      split
      · exact ⟨‹_›, hforked⟩
      · exact Proc.leads_bind.mpr (leads_destroyEach hs hforked fun w' hw' => leads_tearDown hs hw')

theorem leads_restoreParent (hs : s.timed = false)
    (h : Floor.Has (b.bursts.length + 1) (· = []) w) :
    (restoreParent d b).Leads floor.after (fun f _ w' => Begun b w' f) E H s w := by
  have hclass {Q : Except ClientError Unit → Cell → Floor → Prop}
      (hQ : ∀ r w', Floor.Has (b.bursts.length + 1) (· = []) w' → Q r s w') :
      (classCheck b.requiredClass).Leads floor.after Q E H s w := by
    unfold classCheck
    split
    · exact fun r => hQ r _ (h.idle rfl rfl rfl)
    · exact hQ _ w h
  refine Proc.leads_bind.mpr (hclass fun r w' hw' => ?_)
  cases r with
  | error e => exact leads_giveUp hw'
  | ok _ =>
    refine Proc.leads_bind.mpr (leads_await (fun r => ?_) fun ht => nomatch hs.symm.trans ht)
    cases r with
    | error e => exact leads_giveUp (hw'.idle rfl rfl rfl)
    | ok vm =>
      refine leads_forkChildren hs (hw'.after rfl fun _ hvms => ?_)
      rw [hvms]
      rfl

theorem leads_tryFork : (tryFork d b).Leads floor.after (fun f _ w' => Begun b w' f)
    (fun _ _ _ => False) (fun _ => False) Cell.idle .empty := by
  have hempty : Floor.Has 0 (· = []) .empty := ⟨fun _ => rfl, rfl⟩
  refine Proc.leads_bind.mpr (leads_tryAcquireAll hempty (fun w' hw' => ?_) fun w' hw' => hw')
  rw [Nat.zero_add] at hw'
  exact leads_restoreParent rfl hw'

end

/-! ### Whole traces -/

/-- Permits that are all given back. -/
def Balanced (t : Trace) : Prop := (t.map taken).sum = (t.map dropped).sum

/-- Traces whose machines are not forked and come to their ends. -/
structure Tidy (t : Trace) : Prop where
  noFork : ∀ e ∈ t, ∀ v ∈ allocated e, v.parent = none
  settled : Settled t
  balanced : Balanced t

/-- Traces that leave neither a machine nor a permit behind. -/
def Clean (t : Trace) : Prop := Balanced t ∧ (Honest [] t → live [] t = [])

theorem Tidy.clean (h : Tidy t) : Clean t :=
  ⟨h.balanced, live_eq_nil h.noFork nofun nofun h.settled⟩

theorem Holds.tidy (h : Holds 0 none (t.foldl Ledger.after .empty)) : Tidy t := by
  obtain ⟨htaken, hdropped, -, hhanded⟩ := @Ledger.foldl_sums t .empty
  have hpending := List.eq_nil_iff_forall_not_mem.mpr fun x hx => nomatch h.pending x hx
  refine ⟨fun e he v hv => h.plain v ?_, (Ledger.settled_of_pending hpending).2, ?_⟩
  · rw [hhanded]
    exact List.mem_append_right _ (List.mem_flatMap.mpr ⟨e, he, hv⟩)
  · have hpermits := h.permits
    rw [htaken, hdropped] at hpermits
    simpa [Balanced, Ledger.empty] using hpermits

section

variable {α β : Type} {d : Driver} {spec : JobSpec} {b : BatchSpec} {fuel frame : Nat}

theorem tidy_of_leads {x : M α} {H : Ledger → Prop} {out : Except Stop α}
    (hx : x.Leads ledger.after (fun _ _ => Holds 0 none) (fun _ _ => Holds 0 none)
      H Cell.idle .empty) (h : Returns x t out) : Tidy t := by
  obtain ⟨cell, h⟩ := h
  cases out with
  | ok a => exact Holds.tidy (hx.returns h)
  | error e => exact Holds.tidy (hx.fails h)

theorem holds_empty : Holds 0 none Ledger.empty := ⟨nofun, nofun, nofun, rfl, rfl⟩

theorem tidy_runJobDeadline {deadline : Option Nat} {out : Except Stop JobResult}
    (h : Returns (runJobDeadline d fuel spec deadline) t out) : Tidy t :=
  tidy_of_leads (leads_runJobDeadline (H := fun _ => True) holds_empty (fun _ _ h => h)
    (fun _ _ h => h) fun _ _ => trivial) h

theorem leads_jobTask : (jobTask d fuel spec).Leads ledger.after (fun _ _ => Holds 0 none)
    (fun _ _ _ => False) (fun l => fuel ≤ l.refused) Cell.idle .empty := by
  refine Proc.leads_bind.mpr (leads_result ?_)
  refine leads_runJobDeadline holds_empty (fun _ _ hl => hl) (fun _ _ hl => hl) fun l hl => ?_
  rwa [show Ledger.empty.refused = 0 from rfl, Nat.zero_add] at hl

variable {r : Nat × Except ClientError JobResult} {specs : List β} {task : β → M α}
  {results : List α}

theorem holds_jobTask (h : Returns (jobTask d fuel spec) t (.ok r)) :
    Holds 0 none (t.foldl Ledger.after .empty) := by
  obtain ⟨cell, h⟩ := h
  exact leads_jobTask.returns h

/-- A computation that takes no permit, gives one back and brings the one machine it is about
to its end. -/
structure Retires (lease : Lease) (t : Trace) : Prop where
  noAlloc : NoAlloc t
  taken : (t.map taken).sum = 0
  dropped : (t.map dropped).sum = 1
  ends : ∃ x ∈ t, ends x = some lease
  about : ∀ e ∈ t, ∀ x ∈ leases e, x = lease

/-- The ledger of a task that is given a machine, and a permit. -/
def Ledger.lent (lease : Lease) : Ledger := ⟨[⟨lease, none⟩], [lease], 0, 0, 0, []⟩

theorem Ledger.retires (h : t.foldl Ledger.after (.lent lease) =
    ((Ledger.lent lease).close lease).after ⟨.dropPermit, ()⟩) : Retires lease t := by
  obtain ⟨htaken, hdropped, -, hhanded⟩ := @Ledger.foldl_sums t (.lent lease)
  have hnone : t.flatMap allocated = [] := by
    rw [h] at hhanded
    exact List.append_cancel_left (hhanded.symm.trans (List.append_nil _))
  have hpending : (t.foldl Ledger.after (.lent lease)).pending = [] := by
    rw [h]
    simp [Ledger.after, Ledger.close, Ledger.lent, allocated]
  have hforeign : (t.foldl Ledger.after (.lent lease)).foreign = [] := by
    rw [h]
    rfl
  rw [h] at htaken hdropped
  refine ⟨List.flatMap_eq_nil_iff.mp hnone, (Nat.zero_add _ ▸ htaken).symm, ?_,
    (Ledger.settled_of_pending hpending).1 lease List.mem_cons_self, fun e he x hx => ?_⟩
  · exact (Nat.zero_add _ ▸ hdropped).symm
  · have hown := (Ledger.mem_of_foreign hforeign).2 e he x hx
    rw [h] at hown
    exact List.mem_singleton.mp hown

theorem leads_childTask : (childTask d spec lease frame).Leads ledger.after
    (fun _ _ l => l = ((Ledger.lent lease).close lease).after ⟨.dropPermit, ()⟩)
    (fun _ _ _ => False) (fun _ => False) Cell.idle (.lent lease) :=
  Proc.leads_bind.mpr (leads_driveLeasedJob List.mem_cons_self
    (fun _ => Proc.leads_bind.mpr (leads_dropPermit rfl)) nofun)

theorem retires_childTask (h : Returns (childTask d spec lease frame) t (.ok r)) :
    Retires lease t := by
  obtain ⟨cell, h⟩ := h
  exact Ledger.retires (leads_childTask.returns h)

theorem leads_joinParent : (joinParent lease).Leads ledger.after
    (fun _ _ l => l = ((Ledger.lent lease).close lease).after ⟨.dropPermit, ()⟩)
    (fun _ _ _ => False) (fun _ => False) Cell.idle (.lent lease) :=
  Proc.leads_bind.mpr (leads_destroy List.mem_cons_self (fun _ => leads_dropPermit rfl) nofun)

theorem retires_joinParent (h : Returns (joinParent lease) t (.ok ())) : Retires lease t := by
  obtain ⟨cell, h⟩ := h
  exact Ledger.retires (leads_joinParent.returns h)

/-- The runs of tasks that each retire a machine of their own. -/
theorem retires_joined (leaseOf : β → Lease) (h : Joined (specs.map task) t results)
    (htask : ∀ spec u r, Returns (task spec) u (.ok r) → Retires (leaseOf spec) u) :
    NoAlloc t ∧ (t.map taken).sum = 0 ∧ (t.map dropped).sum = specs.length ∧
      ∀ spec ∈ specs, ∃ x ∈ t, ends x = some (leaseOf spec) := by
  obtain ⟨runs, hruns, hweave, -⟩ := h
  rw [List.forall₂_map_left_iff] at hruns
  have hretires : ∀ u ∈ runs.map Prod.fst, ∃ lease, Retires lease u := by
    intro u hu
    obtain ⟨run, hrun, rfl⟩ := List.mem_map.mp hu
    obtain ⟨spec, -, hspec⟩ := exists_of_forall₂ hruns.flip hrun
    exact ⟨_, htask spec _ _ hspec⟩
  refine ⟨fun e he => ?_, ?_, ?_, fun spec hspec => ?_⟩
  · obtain ⟨u, hu, he⟩ := hweave.exists_mem he
    obtain ⟨lease, hu⟩ := hretires u hu
    exact hu.noAlloc e he
  · rw [hweave.sum]
    refine List.sum_eq_zero_iff_forall_eq_nat.mpr fun n hn => ?_
    obtain ⟨u, hu, rfl⟩ := List.mem_map.mp hn
    obtain ⟨lease, hu⟩ := hretires u hu
    exact hu.taken
  · have hone : ∀ u ∈ runs.map Prod.fst, (u.map dropped).sum = 1 := by
      intro u hu
      obtain ⟨lease, hu⟩ := hretires u hu
      exact hu.dropped
    rw [hweave.sum, List.map_congr_left hone, List.map_const', List.sum_replicate_nat,
      List.length_map, hruns.length_eq, Nat.mul_one]
  · obtain ⟨run, hrun, hreturns⟩ := exists_of_forall₂ hruns hspec
    obtain ⟨x, hx, hends⟩ := (htask spec _ _ hreturns).ends
    exact ⟨x, hweave.mem (List.mem_map_of_mem hrun) hx, hends⟩

theorem BatchSpec.length_jobs (b : BatchSpec) : b.jobs.length = b.bursts.length := by
  simp [BatchSpec.jobs]

theorem begun_tryFork {f : Fork} (h : Returns (tryFork d b) t (.ok f)) :
    Begun b (t.foldl Floor.after .empty) f := by
  obtain ⟨cell, h⟩ := h
  exact leads_tryFork.returns h

theorem clean_tryRunForked {results : Option (List (Nat × Except ClientError JobResult))}
    (h : TryRunForked d b t results) : Clean t := by
  cases h with
  | returned h =>
    have hbegun := begun_tryFork h
    rw [Floor.foldl_after] at hbegun
    refine ⟨?_, fun hh => hbegun.vms ⟨trivial, hh⟩⟩
    simpa [Balanced, Floor.empty] using hbegun.permits
  | @joined t₁ t₂ t₃ parent frame children _ hfork hjoin hparent =>
    obtain ⟨hlength, hbegun⟩ := begun_tryFork hfork
    rw [Floor.foldl_after] at hbegun
    obtain ⟨hnone₂, htaken₂, hdropped₂, hends₂⟩ := retires_joined Prod.snd hjoin
      fun _ _ _ hreturns => retires_childTask hreturns
    have hparent := retires_joinParent hparent
    refine ⟨?_, fun hh => ?_⟩
    · rw [List.length_zip, BatchSpec.length_jobs, hlength, Nat.min_self] at hdropped₂
      have := hparent.taken
      have := hparent.dropped
      have := hbegun.permits
      simp only [Balanced, Floor.empty, List.map_append, List.sum_append] at *
      omega
    · obtain ⟨hh, hh₃⟩ := honest_append.mp hh
      obtain ⟨hh₁, hh₂⟩ := honest_append.mp hh
      rw [live_append, live_append]
      rw [live_append] at hh₃
      have hfamily : Family parent children (live [] t₁) := hbegun.vms ⟨trivial, hh₁⟩
      -- The children end, and with them all but the parent.
      have hleft : ∀ v ∈ live (live [] t₁) t₂, v = ⟨parent, none⟩ := by
        intro v hv
        rcases hfamily.2 v (live_subset hnone₂ hv) with rfl | ⟨c, hc, rfl⟩
        · rfl
        · obtain ⟨i, hi⟩ := List.mem_iff_getElem?.mp hc
          have hlt := (List.getElem?_eq_some_iff.mp hi).1
          have hjob : i < b.jobs.length := by rw [BatchSpec.length_jobs]; omega
          have hzip : (b.jobs.zip children)[i]? = some (b.jobs.get ⟨i, hjob⟩, c) :=
            List.getElem?_zip_eq_some.mpr ⟨List.getElem?_eq_getElem hjob, hi⟩
          have hends := hends₂ _ (List.mem_of_getElem? hzip)
          have hchildless : ∀ v ∈ live [] t₁, v.parent ≠ some c :=
            hfamily.childless fun heq => hfamily.1 (heq ▸ hc)
          exact absurd rfl (not_live_of_mem hnone₂ hchildless hends hh₂ _ hv)
      refine List.eq_nil_iff_forall_not_mem.mpr fun v hv => ?_
      have hgone := not_live_of_mem hparent.noAlloc (fun w hw => by simp [hleft w hw]) hparent.ends
        hh₃ v hv
      exact hgone (by rw [hleft v (live_subset hparent.noAlloc hv)])

theorem tidy_joined (h : Joined (specs.map task) t results)
    (htask : ∀ spec u r, Returns (task spec) u (.ok r) → Tidy u) : Tidy t := by
  obtain ⟨runs, hruns, hweave, -⟩ := h
  rw [List.forall₂_map_left_iff] at hruns
  have htidy : ∀ u ∈ runs.map Prod.fst, Tidy u := by
    intro u hu
    obtain ⟨run, hrun, rfl⟩ := List.mem_map.mp hu
    obtain ⟨spec, -, hspec⟩ := exists_of_forall₂ hruns.flip hrun
    exact htask spec _ _ hspec
  refine ⟨fun e he => ?_, settled_interleaving hweave fun u hu => (htidy u hu).settled, ?_⟩
  · obtain ⟨u, hu, he⟩ := hweave.exists_mem he
    exact (htidy u hu).noFork e he
  · rw [Balanced, hweave.sum, hweave.sum]
    exact congrArg List.sum (List.map_congr_left fun u hu => (htidy u hu).balanced)

theorem clean_append (ht : Clean t) (hu : Clean u) : Clean (t ++ u) := by
  refine ⟨?_, fun hh => ?_⟩
  · have := ht.1
    have := hu.1
    simp only [Balanced, List.map_append, List.sum_append] at *
    omega
  · obtain ⟨hht, hhu⟩ := honest_append.mp hh
    rw [ht.2 hht] at hhu
    rw [live_append, ht.2 hht, hu.2 hhu]

theorem clean_runBatch {results : List (Nat × Except ClientError JobResult)}
    (h : RunBatch d fuel b t results) : Clean t := by
  cases h with
  | forked _ h => exact clean_tryRunForked h
  | @restored t₁ t₂ _ h hjoin =>
    have hjobs : Clean t₂ := (tidy_joined hjoin fun _ _ _ h => (holds_jobTask h).tidy).clean
    refine clean_append ?_ hjobs
    rcases h with ⟨-, rfl⟩ | ⟨-, h⟩
    · exact ⟨rfl, fun _ => rfl⟩
    · exact clean_tryRunForked h

end

/-- **Nothing is left behind.** However a job, a batch or a bootstrap ends, and however its
tasks interleave, every machine it allocated is gone and every permit it took is given back. -/
theorem no_leaks (d : Driver) (fuel : Nat) (t : Trace) :
    (∀ spec deadline out, Returns (runJobDeadline d fuel spec deadline) t out →
      (Honest [] t → live [] t = []) ∧ (t.map taken).sum = (t.map dropped).sum) ∧
    (∀ b results, RunBatch d fuel b t results →
      (Honest [] t → live [] t = []) ∧ (t.map taken).sum = (t.map dropped).sum) ∧
    (∀ icountCap out, Returns (bootstrap d fuel icountCap) t out →
      (Honest [] t → live [] t = []) ∧ (t.map taken).sum = (t.map dropped).sum) := by
  refine ⟨fun spec deadline out h => ?_, fun b results h => ?_, fun icountCap out h => ?_⟩
  · exact (tidy_runJobDeadline h).clean.symm
  · exact (clean_runBatch h).symm
  · exact (tidy_of_leads (leads_bootstrap holds_empty) h).clean.symm

/-! A job whose deadline passes once it has a machine, and a fork that returns a machine too few. -/

def sampleDriver : Driver where
  experimentSeed := 0
  hardIcountCap := none
  deriveJobEntropySeed := fun _ _ _ => 0
  deriveBootEntropySeed := fun _ => 0
  body := fun _ => .pad [⟨1, 2⟩]

def sampleJob : JobSpec := ⟨0, 0, 0, none, ⟨0, [], 0, 0⟩⟩

/-- The deadline passes at the second await under it, and the machine is destroyed at the
second attempt. -/
def lateAnswers (i : Nat) : (op : Op) → Ans op
  | .acquire _ | .acquireClassCheck _ | .injectInputs _ _ => .ok ()
  | .tryAcquire => true
  | .elapsed => decide (2 < i)
  | .dropPermit | .sleep => ()
  | .createVm _ => .ok 7
  | .restoreSnapshot _ _ => .ok (7, 3)
  | .fork _ _ => .ok [8]
  | .run _ _ _ => .ok ⟨.budgetReached, none⟩
  | .takeSnapshot _ _ => .error (.new .internal "")
  | .destroyVm _ attempts => if attempts = 0 then .error (.new .unavailable "") else .ok ()

def strandedTrace : Trace :=
  [⟨.acquire none, .ok ()⟩, ⟨.elapsed, false⟩, ⟨.restoreSnapshot 0 (some 0), .ok (7, 3)⟩,
    ⟨.elapsed, true⟩, ⟨.destroyVm 7 0, .error (.new .unavailable "")⟩, ⟨.sleep, ()⟩,
    ⟨.destroyVm 7 1, .ok ()⟩, ⟨.dropPermit, ()⟩]

def sampleBatch : BatchSpec := ⟨0, 0, none, [⟨0, [], 0, 0⟩, ⟨1, [], 0, 0⟩]⟩

def miscountedTrace : Trace :=
  [⟨.tryAcquire, true⟩, ⟨.tryAcquire, true⟩, ⟨.tryAcquire, true⟩,
    ⟨.restoreSnapshot 0 none, .ok (7, 3)⟩, ⟨.fork 7 [0, 0], .ok [8]⟩,
    ⟨.destroyVm 8 0, .error (.new .unavailable "")⟩, ⟨.sleep, ()⟩, ⟨.destroyVm 8 1, .ok ()⟩,
    ⟨.destroyVm 7 0, .error (.new .unavailable "")⟩, ⟨.sleep, ()⟩, ⟨.destroyVm 7 1, .ok ()⟩,
    ⟨.dropPermit, ()⟩, ⟨.dropPermit, ()⟩, ⟨.dropPermit, ()⟩]

theorem no_leaks_stranded :
    (live [] (strandedTrace.take 3) = [⟨7, none⟩] ∧ live [] strandedTrace = []) ∧
      live [] (miscountedTrace.take 5) = [⟨7, none⟩, ⟨8, some 7⟩] ∧ live [] miscountedTrace = [] ∧
      (miscountedTrace.map taken).sum = (miscountedTrace.map dropped).sum := by
  constructor
  · obtain ⟨out, hreturns⟩ : ∃ out,
        Returns (runJobDeadline sampleDriver 1 sampleJob (some 5)) strandedTrace out :=
      ⟨_, _, by
        refine Prog.traces_of_trace (?_ : Prog.trace lateAnswers 9 0 _ = _)
        unfold runJobDeadline destroyStranded destroyWithRetry destroyAttempts destroyAttempts
        rfl⟩
    have hhonest : Honest [] strandedTrace := by
      simp [strandedTrace, Honest, HonestAt, after, allocated, destroyed, ClientError.new]
    exact ⟨rfl, ((no_leaks sampleDriver 1 strandedTrace).1 _ _ _ hreturns).1 hhonest⟩
  · obtain ⟨results, hbatch⟩ : ∃ results,
        RunBatch sampleDriver 1 sampleBatch miscountedTrace results :=
      ⟨_, .forked (by decide) (.returned ⟨_, by
        refine Prog.traces_of_trace (?_ : Prog.trace lateAnswers 14 0 _ = _)
        unfold tryFork restoreParent forkChildren destroyEach destroyWithRetry destroyAttempts
          destroyAttempts
        rfl⟩)⟩
    have hhonest : Honest [] miscountedTrace := by
      simp [miscountedTrace, Honest, HonestAt, after, allocated, destroyed, ClientError.new]
    obtain ⟨hlive, hpermits⟩ := (no_leaks sampleDriver 1 miscountedTrace).2.1 _ _ hbatch
    exact ⟨rfl, hlive hhonest, hpermits⟩

end Driver
end Orchestrator.Sched
