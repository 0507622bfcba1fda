import Orchestrator.Lib.StateError
import Orchestrator.Sched.Slots

/-! # Fakes — Hypervisor

The fake hypervisor worker: its slots, the fork tree they form and the watch events. Every
change of a slot's state is pushed to the watch events, which readers take from a shared cursor
on. An operation checks everything before it changes the worker, so one that fails leaves it as
it was; an injection or a run that fails in the guest answers its error with the worker it left.

What the fault plan decides for a request is an input: a terminal fault, or how many items of a
response are kept. The machines in the slots are a parameter, and what of a request only they
read (the configuration, inputs, stop condition, capture specification) is its bytes. What the
worker tells of a slot is its id and state: its instruction count, base and number of children
are left out, as are the worker's name and version, the last fault and the fault statistics.
-/

namespace Orchestrator.Fakes

open Core Services Lib
open Sched (SlotState DeterminismClass)

inductive FaultTerminal where
  | none
  | error (kind : ClientErrorKind)
  | timeout

structure FaultDecision where
  terminal : FaultTerminal
  keepItems : Option Nat

/-- `client_error`. -/
def FaultDecision.check (decision : FaultDecision) : Except ClientError Unit :=
  match decision.terminal with
  | .none => .ok ()
  | .error kind => .error (.new kind "deterministic fake fault")
  | .timeout => .error (.new .unavailable "deterministic fake timeout")

/-- `truncate_len`. -/
def FaultDecision.truncateLen (decision : FaultDecision) (len : Nat) : Nat :=
  decision.keepItems.elim len (min len)

structure Lease where
  slotId : Nat
  token : Nat
deriving DecidableEq, Repr

/-- How the machines in the slots behave. A failed injection or run leaves its machine as it
got it. -/
structure Guest (μ : Type) where
  boot : (config : Bytes) → μ
  config : μ → Bytes
  leaseToken : (slotId : Nat) → (config : Bytes) → (entropySeed : Nat) → Nat
  inject : (events : List Bytes) → μ → Except ClientError Unit × μ
  /-- `run_slot`: the stop reason, the frames elapsed and the SDK event. -/
  runSlot : (until? : Bytes) → (hardIcountCap : Option Nat) → μ → Except ClientError Bytes × μ
  validateCaptureSpec : (capture : Option Bytes) → Except ClientError Unit
  captureResponse : (capture : Option Bytes) → μ → Except ClientError Bytes
  snapshotRef : μ → SnapshotRef

/-- A slot, which is kept at the id of its lease. -/
structure Slot (μ : Type) where
  token : Nat
  machine : μ
  parent : Option Nat
  stateKind : SlotState

structure FakeHypervisor (μ : Type) where
  slotsTotal : UInt32
  workerClass : DeterminismClass
  nextSlotId : Nat
  slots : Std.ExtTreeMap Nat (Slot μ)
  snapshots : Std.ExtTreeMap SnapshotRef μ
  watchEvents : List (Nat × SlotState)
  watchCursor : Nat

namespace FakeHypervisor

variable {μ α : Type}

/-- `with_slots_and_fault_plan`. -/
def fresh (slotsTotal : UInt32) : FakeHypervisor μ where
  slotsTotal := slotsTotal
  workerClass := ⟨"family-6-model-85-stepping-7", "0x5003605", "6.8.0-kvm", "fake-hypervisor/0.1"⟩
  nextSlotId := 1
  slots := ∅
  snapshots := ∅
  watchEvents := []
  watchCursor := 0

/-! ### Slots and events -/

/-- `ensure_capacity`. -/
def ensureCapacity (w : FakeHypervisor μ) (needed : Nat) : Except ClientError Unit := do
  refuseIf (2 ^ 32 ≤ w.slots.size) (.new .internal "active slot count exceeds u32")
  refuseIf (w.slotsTotal.toNat - w.slots.size < needed)
    (.new .resourceExhausted "fake hypervisor slot capacity exhausted")

/-- `ensure_paused`. -/
def ensurePaused (slot : Slot μ) (operation : String) : Except ClientError Unit :=
  refuseIf (slot.stateKind ≠ .paused)
    (.new .failedPrecondition (operation ++ " requires a paused slot"))

/-- `slot` and `slot_mut`. -/
def slot (w : FakeHypervisor μ) (lease : Lease) : Except ClientError (Slot μ) :=
  match w.slots[lease.slotId]? with
  | none => .error (.new .notFound ("unknown slot " ++ toString lease.slotId))
  | some slot =>
    if slot.token ≠ lease.token then
      .error (.new .failedPrecondition "lease token does not match slot")
    else .ok slot

def put (slotId : Nat) (slot : Slot μ) (w : FakeHypervisor μ) : FakeHypervisor μ :=
  { w with slots := w.slots.insert slotId slot }

/-- Some slot has the parent. -/
def hasChild (w : FakeHypervisor μ) (slotId : Nat) : Bool :=
  w.slots.toList.any fun e => e.2.parent = some slotId

/-- `push_slot_event`, for one slot after the other. -/
def pushSlotEvents (slotIds : List Nat) (w : FakeHypervisor μ) : FakeHypervisor μ :=
  { w with
    watchEvents := w.watchEvents ++
      slotIds.filterMap fun slotId => (w.slots[slotId]?).map fun slot => (slotId, slot.stateKind) }

/-- A slot goes, with its last event. -/
def remove (slotId : Nat) (w : FakeHypervisor μ) : FakeHypervisor μ :=
  match w.slots[slotId]? with
  | some _ =>
    { w with
      slots := w.slots.erase slotId
      watchEvents := w.watchEvents ++ [(slotId, .empty)] }
  | none => w

/-- `maybe_unfreeze_parent`. -/
def maybeUnfreezeParent (parentId : Nat) (w : FakeHypervisor μ) : FakeHypervisor μ :=
  if w.hasChild parentId then w
  else
    match w.slots[parentId]? with
    | some parent =>
      let stateKind := if parent.stateKind = .frozen then .paused else parent.stateKind
      (w.put parentId { parent with stateKind }).pushSlotEvents [parentId]
    | none => w

variable (guest : Guest μ)

/-- The lease that `allocate_lease` gives after `i` others. The next id saturates. -/
def nextLease (w : FakeHypervisor μ) (config : Bytes) (i entropySeed : Nat) : Lease :=
  let slotId := min (w.nextSlotId + i) (2 ^ 64 - 1)
  ⟨slotId, guest.leaseToken slotId config entropySeed⟩

/-- Paused slots are made for leases. -/
def addSlots (machine : μ) (parent : Option Nat) (slots : Std.ExtTreeMap Nat (Slot μ))
    (leases : List Lease) : Std.ExtTreeMap Nat (Slot μ) :=
  leases.foldl (fun slots lease =>
    slots.insert lease.slotId ⟨lease.token, machine, parent, .paused⟩) slots

/-- Slots are made for the leases that were just given; their parent, if there is one, is frozen
then and has the first event. -/
def spawn (leases : List Lease) (machine : μ) (parent : Option Nat) (w : FakeHypervisor μ) :
    FakeHypervisor μ :=
  let slots := addSlots machine parent w.slots leases
  pushSlotEvents (parent.toList ++ leases.map Lease.slotId)
    { w with
      nextSlotId := min (w.nextSlotId + leases.length) (2 ^ 64 - 1)
      slots := parent.elim slots (slots.modify · fun slot => { slot with stateKind := .frozen }) }

/-! ### Operations -/

/-- `create_vm`. -/
def createVm (decision : FaultDecision) (config : Bytes) (entropySeed : Nat)
    (w : FakeHypervisor μ) : Except ClientError (Lease × FakeHypervisor μ) := do
  decision.check
  w.ensureCapacity 1
  let lease := w.nextLease guest config 0 entropySeed
  pure (lease, w.spawn [lease] (guest.boot config) none)

/-- `restore_snapshot`: the lease and the machine, whose configuration, state and frame counter
are answered. -/
def restoreSnapshot (decision : FaultDecision) (snapshot : SnapshotRef) (entropySeed : Option Nat)
    (w : FakeHypervisor μ) : Except ClientError ((Lease × μ) × FakeHypervisor μ) := do
  decision.check
  w.ensureCapacity 1
  let machine ← (w.snapshots[snapshot]?).elim (.error (.new .notFound "snapshot not found")) .ok
  let lease := w.nextLease guest (guest.config machine) 0 (entropySeed.getD 0)
  pure ((lease, machine), w.spawn [lease] machine none)

/-- `ForkRequest::validate`. -/
def validateFork (count : Nat) (entropySeeds : List Nat) : Except ClientError Unit := do
  refuseIf (count = 0) (.new .invalidRequest "fork count must be nonzero")
  refuseIf (entropySeeds.length ≠ count)
    (.new .invalidRequest "fork entropy seed count must match fork count")

/-- `fork`. -/
def fork (decision : FaultDecision) (parentLease : Lease) (count : Nat) (entropySeeds : List Nat)
    (w : FakeHypervisor μ) : Except ClientError (List Lease × FakeHypervisor μ) := do
  validateFork count entropySeeds
  decision.check
  w.ensureCapacity count
  let parent ← w.slot parentLease
  ensurePaused parent "fork"
  let children := entropySeeds.zipIdx.map fun (entropySeed, i) =>
    w.nextLease guest (guest.config parent.machine) i entropySeed
  pure (children, w.spawn children parent.machine (some parentLease.slotId))

/-- `inject_inputs`: how many events are scheduled. -/
def injectInputs (decision : FaultDecision) (lease : Lease) (events : List Bytes)
    (w : FakeHypervisor μ) : Except ClientError (Except ClientError Nat × FakeHypervisor μ) := do
  decision.check
  refuseIf (2 ^ 32 ≤ events.length) (.new .invalidRequest "too many scheduled events")
  let slot ← w.slot lease
  ensurePaused slot "inject inputs"
  let injected := guest.inject events slot.machine
  pure (injected.1.map fun _ => events.length,
    w.put lease.slotId { slot with machine := injected.2 })

/-- `run`: the stop, the machine, whose counters and state are answered, and the capture. The
slot is paused again whether or not the run fails. -/
def run (decision : FaultDecision) (lease : Lease) (until? : Bytes) (hardIcountCap : Option Nat)
    (capture : Option Bytes) (w : FakeHypervisor μ) :
    Except ClientError (Except ClientError (Bytes × μ × Bytes) × FakeHypervisor μ) := do
  decision.check
  guest.validateCaptureSpec capture
  let slot ← w.slot lease
  ensurePaused slot "run"
  let w := (w.put lease.slotId { slot with stateKind := .running }).pushSlotEvents [lease.slotId]
  let ran := guest.runSlot until? hardIcountCap slot.machine
  let w := (w.put lease.slotId { slot with machine := ran.2, stateKind := .paused }).pushSlotEvents
    [lease.slotId]
  let answer := do
    let stop ← ran.1
    let captured ← guest.captureResponse capture ran.2
    pure (stop, ran.2, captured)
  pure (answer, w)

/-- `take_snapshot`: the reference, the machine, whose counters, state and input log are
answered, and the capture. -/
def takeSnapshot (decision : FaultDecision) (lease : Lease) (capture : Option Bytes)
    (w : FakeHypervisor μ) :
    Except ClientError ((SnapshotRef × μ × Bytes) × FakeHypervisor μ) := do
  decision.check
  let slot ← w.slot lease
  ensurePaused slot "take snapshot"
  let snapshot := guest.snapshotRef slot.machine
  let captured ← guest.captureResponse capture slot.machine
  pure ((snapshot, slot.machine, captured),
    { w with snapshots := w.snapshots.insert snapshot slot.machine })

/-- `destroy_vm`. -/
def destroyVm (decision : FaultDecision) (lease : Lease) (w : FakeHypervisor μ) :
    Except ClientError (Unit × FakeHypervisor μ) := do
  decision.check
  let slot ← w.slot lease
  refuseIf (slot.stateKind = .running) (.new .failedPrecondition "cannot destroy a running slot")
  refuseIf (w.hasChild lease.slotId)
    (.new .failedPrecondition "cannot destroy a slot with live children")
  let w := w.remove lease.slotId
  pure ((), slot.parent.elim w w.maybeUnfreezeParent)

/-- `list_slots`. -/
def listSlots (decision : FaultDecision) (w : FakeHypervisor μ) :
    Except ClientError (List (Nat × SlotState)) := do
  decision.check
  let slots := w.slots.toList.map fun e => (e.1, e.2.stateKind)
  pure (slots.take (decision.truncateLen slots.length))

/-- The watch events that no reader has taken. -/
def pending (w : FakeHypervisor μ) : List (Nat × SlotState) := w.watchEvents.drop w.watchCursor

/-- `watch_slots`. -/
def watchSlots (decision : FaultDecision) (w : FakeHypervisor μ) :
    Except ClientError (List (Nat × SlotState) × FakeHypervisor μ) := do
  decision.check
  let keep := decision.truncateLen w.pending.length
  pure (w.pending.take keep,
    { w with watchCursor := min w.watchCursor w.watchEvents.length + keep })

/-- `worker_info`: the slots in total and the class. -/
def workerInfo (decision : FaultDecision) (w : FakeHypervisor μ) :
    Except ClientError (UInt32 × DeterminismClass) := do
  decision.check
  pure (w.slotsTotal, w.workerClass)

/-! ### Session reclaim -/

/-- The slots that no slot has as its parent, in the order of their ids. -/
def leaves (w : FakeHypervisor μ) : List Nat := w.slots.keys.filter fun slotId => !w.hasChild slotId

/-- One round of the loop of `reclaim_session`. -/
def reclaimPass (w : FakeHypervisor μ) : FakeHypervisor μ :=
  w.leaves.foldl (fun w slotId => w.remove slotId) w

/-- The loop of `reclaim_session`, for a number of rounds. -/
def reclaimPasses : Nat → FakeHypervisor μ → Option (FakeHypervisor μ)
  | 0, w => if w.slots.isEmpty then some w else none
  | passes + 1, w => if w.slots.isEmpty then some w else reclaimPasses passes w.reclaimPass

/-- `reclaim_session`, where it returns. A round that removes no slot is repeated forever, so
there are at most as many rounds as slots. -/
def reclaimSession (w : FakeHypervisor μ) : Option (FakeHypervisor μ) :=
  reclaimPasses w.slots.size w

theorem reclaimPasses_isEmpty {n : Nat} {w w' : FakeHypervisor μ}
    (h : reclaimPasses n w = some w') : w'.slots.isEmpty = true := by
  induction n generalizing w with
  | zero =>
    obtain ⟨hempty, ⟨⟩⟩ := Option.ite_none_right_eq_some.mp h
    exact hempty
  | succ n ih =>
    rw [reclaimPasses] at h
    split at h
    · cases h
      assumption
    · exact ih h

/-- A second session reclaim finds no slot. -/
theorem reclaimSession_again {w w' : FakeHypervisor μ} (h : w.reclaimSession = some w') :
    w'.reclaimSession = some w' := by
  have hempty := reclaimPasses_isEmpty h
  unfold reclaimSession
  cases w'.slots.size <;> exact if_pos hempty

/-! ### Requests -/

/-- What may be asked of the worker, its readers apart. -/
inductive Request where
  | createVm (config : Bytes) (entropySeed : Nat)
  | restoreSnapshot (snapshot : SnapshotRef) (entropySeed : Option Nat)
  | fork (parent : Lease) (count : Nat) (entropySeeds : List Nat)
  | injectInputs (lease : Lease) (events : List Bytes)
  | run (lease : Lease) (until? : Bytes) (hardIcountCap : Option Nat) (capture : Option Bytes)
  | takeSnapshot (lease : Lease) (capture : Option Bytes)
  | destroyVm (lease : Lease)
  | reclaimSession

/-- The worker an operation leaves. -/
def after (w : FakeHypervisor μ) (r : Except ClientError (α × FakeHypervisor μ)) :
    FakeHypervisor μ :=
  okOr w (r.map Prod.snd)

/-- The worker after a request, if that returns. -/
def serve (decision : FaultDecision) (w : FakeHypervisor μ) : Request → Option (FakeHypervisor μ)
  | .createVm config seed => some (w.after (createVm guest decision config seed w))
  | .restoreSnapshot snapshot seed =>
    some (w.after (restoreSnapshot guest decision snapshot seed w))
  | .fork parent count seeds => some (w.after (fork guest decision parent count seeds w))
  | .injectInputs lease events => some (w.after (injectInputs guest decision lease events w))
  | .run lease until? cap capture => some (w.after (run guest decision lease until? cap capture w))
  | .takeSnapshot lease capture => some (w.after (takeSnapshot guest decision lease capture w))
  | .destroyVm lease => some (w.after (destroyVm decision lease w))
  | .reclaimSession => w.reclaimSession

/-- How many slots a request allocates if it succeeds. -/
def Request.allocates : Request → Nat
  | .createVm _ _ | .restoreSnapshot _ _ => 1
  | .fork _ _ seeds => seeds.length
  | _ => 0

end FakeHypervisor
end Orchestrator.Fakes
