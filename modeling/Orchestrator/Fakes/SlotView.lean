import Orchestrator.Fakes.ForkTree

/-! # Fakes — Slot view

The scheduler's slot view beside the fake hypervisor: the view is started from a listing and then
drains the watch events, in steps between which the worker serves requests. Until then others
may read the events; from then on the view is the only reader.

`slot_view_converges`: a view that has drained everything has the states of the worker's slots,
if its start left out no slot whose events were gone. The information on the worker does not
change, so it is read together with the step after it.
-/

namespace Orchestrator.Fakes

open Services Lib Lib.Changelog
open Sched (SlotState View Action)
open FakeHypervisor

variable {μ : Type} {guest : Guest μ}

structure Session (μ : Type) where
  worker : FakeHypervisor μ
  view : Option View
  /-- What the drain task has watched and not yet recorded. -/
  taken : Option (List (Nat × SlotState))

inductive Move where
  | request (decision : FaultDecision) (request : Request)
  /-- Another reader watches. -/
  | watchOther (decision : FaultDecision)
  | start (info listing : FaultDecision) (allowClassMismatch : Bool)
  /-- The drain task watches. -/
  | watch (decision : FaultDecision)
  /-- The drain task records what it watched. -/
  | drain (info : FaultDecision)
  /-- A section of the view's callers. -/
  | act (action : Action)

namespace Session

/-- `SlotView::start`, up to its task. -/
def startView (w : FakeHypervisor μ) (info listing : FaultDecision) (allowClassMismatch : Bool) :
    Except ClientError View := do
  let (slotsTotal, workerClass) ← w.workerInfo info
  let listed ← w.listSlots listing
  pure (.start slotsTotal workerClass listed allowClassMismatch)

def step (guest : Guest μ) (s : Session μ) : Move → Option (Session μ)
  | .request decision request =>
    (s.worker.serve guest decision request).map fun worker => { s with worker }
  | .watchOther decision =>
    if s.view.isNone then some { s with worker := s.worker.after (s.worker.watchSlots decision) }
    else none
  | .start info listing allowClassMismatch =>
    if s.view.isNone then
      some ⟨s.worker, (startView s.worker info listing allowClassMismatch).toOption, none⟩
    else none
  | .watch decision =>
    if s.view.isSome ∧ s.taken.isNone then
      let watched := s.worker.watchSlots decision
      some { s with
        worker := s.worker.after watched, taken := some (okOr [] (watched.map Prod.fst)) }
    else none
  | .drain info => do
    let view ← s.view
    let events ← s.taken
    let capacity := (s.worker.workerInfo info).toOption.map Prod.fst
    let view ← view.step (.drain events capacity)
    pure ⟨s.worker, view, none⟩
  | .act action =>
    match action with
    | .drain _ _ => none
    | action => do
      let view ← s.view
      let view ← view.step action
      pure { s with view := view }

/-- Ids are left for the slots of a request. -/
def IdsLeft (s : Session μ) : Move → Prop
  | .request _ request => s.worker.nextSlotId + request.allocates < 2 ^ 64
  | _ => True

instance instDecidableIdsLeft {s : Session μ} : (m : Move) → Decidable (s.IdsLeft m)
  | .request _ _ => Nat.decLt _ _
  | .start _ _ _ | .watchOther _ | .watch _ | .drain _ | .act _ => isTrue trivial

/-- Ids are left, and every slot that the start of the view does not list has an event that is
still to be read. -/
def Meets (s : Session μ) : Move → Prop
  | .request decision request => s.IdsLeft (.request decision request)
  | .start _ listing _ => ∀ listed ∈ (s.worker.listSlots listing).toOption,
    ∀ id ∈ s.worker.slots.keys,
      id ∈ listed.map Prod.fst ∨ id ∈ s.worker.pending.map Prod.fst
  | _ => True

instance {s : Session μ} : (m : Move) → Decidable (s.Meets m)
  | .request _ _ => Nat.decLt _ _
  | .start _ _ _ => inferInstanceAs (Decidable (∀ _ ∈ _, ∀ _ ∈ _, _ ∨ _))
  | .watchOther _ | .watch _ | .drain _ | .act _ => inferInstanceAs (Decidable True)

/-- What the view records of a slot. -/
def recorded (v : View) (id : Nat) : SlotState := Changelog.view .empty v.state.known id

/-- The view comes to the states of the slots with what it has taken and what is still to be
read. -/
structure Tracks (s : Session μ) : Prop where
  sound : s.worker.Sound
  leads : ∀ v ∈ s.view,
    replay (recorded v) (s.taken.getD [] ++ s.worker.pending) = stateOf s.worker.slots

variable {s s' : Session μ} {w w' : FakeHypervisor μ}

theorem recorded_start (slotsTotal : UInt32) (workerClass : Sched.DeterminismClass)
    (listed : List (Nat × SlotState)) (allowClassMismatch : Bool) :
    recorded (.start slotsTotal workerClass listed allowClassMismatch) =
      replay (fun _ => .empty) listed :=
  view_foldl_insert ..

theorem recorded_drain (v : View) (events : List (Nat × SlotState)) (capacity : Option UInt32) :
    recorded ((v.setState (v.state.drain events capacity)).spawn .waking) =
      replay (recorded v) events :=
  view_foldl_insert ..

theorem recorded_step {v v' : View} {a : Action} (h : v.step a = some v')
    (ha : ∀ events capacity, a ≠ .drain events capacity) : recorded v' = recorded v := by
  cases View.step_section h with
  | drain events capacity => exact absurd rfl (ha events capacity)
  | _ => rfl

/-- What a reader takes is what is no longer to be read. -/
theorem watched (hw : w.Sound) (decision : FaultDecision) :
    (w.after (w.watchSlots decision)).Sound ∧
    (w.after (w.watchSlots decision)).slots = w.slots ∧
    okOr [] ((w.watchSlots decision).map Prod.fst) ++
      (w.after (w.watchSlots decision)).pending = w.pending := by
  cases h : w.watchSlots decision with
  | error e => exact ⟨hw, rfl, rfl⟩
  | ok answer =>
    obtain ⟨_, -, h⟩ := bind_eq_ok.mp h
    cases h
    have hkeep : decision.truncateLen w.pending.length ≤ w.pending.length := by
      unfold FaultDecision.truncateLen
      cases decision.keepItems <;> simp
    generalize decision.truncateLen w.pending.length = keep at hkeep ⊢
    rw [FakeHypervisor.pending, List.length_drop] at hkeep
    rw [Nat.min_eq_left hw.cursor]
    have hcursor := hw.cursor
    refine ⟨⟨hw.settled, ?_, hw.leads⟩, rfl, ?_⟩
    · show w.watchCursor + keep ≤ w.watchEvents.length
      omega
    · exact (congrArg _ List.drop_drop.symm).trans (List.take_append_drop keep w.pending)

/-- A listing and the events that are still to be read lead to the states of the slots. -/
theorem replay_listSlots {decision : FaultDecision} {listed : List (Nat × SlotState)}
    (hw : w.Sound) (h : w.listSlots decision = .ok listed)
    (hmeets : ∀ id ∈ w.slots.keys, id ∈ listed.map Prod.fst ∨ id ∈ w.pending.map Prod.fst) :
    replay (replay (fun _ => .empty) listed) w.pending = stateOf w.slots := by
  obtain ⟨_, -, h⟩ := bind_eq_ok.mp h
  cases h
  refine (hw.leads.drop w.watchCursor).replay_eq fun id hunread => ?_
  generalize hlisted : List.take _ _ = listed at hmeets ⊢
  by_cases hid : id ∈ listed.map Prod.fst
  · rw [replay_of_mem (g := stateOf w.slots) hid, replay_self]
    intro e he
    obtain ⟨⟨k, slot⟩, hslot, rfl⟩ := List.mem_map.mp (List.mem_of_mem_take (hlisted ▸ he))
    exact stateOf_eq (Std.ExtTreeMap.mem_toList_iff_getElem?_eq_some.mp hslot)
  · rw [replay_of_notMem hid]
    have hnone : id ∉ w.slots := fun hmem =>
      (hmeets id (Std.ExtTreeMap.mem_keys.mpr hmem)).elim hid hunread
    exact (not_not.mp (mt hw.settled.stateOf_ne_empty.mp hnone)).symm

variable {m : Move}

theorem sound_step (hs : s.worker.Sound) (hids : s.IdsLeft m) (h : s.step guest m = some s') :
    s'.worker.Sound := by
  cases m with
  | request decision r =>
    obtain ⟨w', hw', rfl⟩ := Option.map_eq_some_iff.mp h
    exact (serve_advances hs hids hw').sound hs
  | watchOther decision | watch decision =>
    obtain ⟨-, h⟩ := Option.ite_none_right_eq_some.mp h
    cases h
    exact (watched hs decision).1
  | start info listing allow =>
    obtain ⟨-, h⟩ := Option.ite_none_right_eq_some.mp h
    cases h
    exact hs
  | drain info =>
    obtain ⟨v, -, h⟩ := Option.bind_eq_some_iff.mp h
    obtain ⟨events, -, h⟩ := Option.bind_eq_some_iff.mp h
    cases h
    exact hs
  | act a =>
    simp only [Session.step] at h
    split at h
    · cases h
    · obtain ⟨v, -, h⟩ := Option.bind_eq_some_iff.mp h
      obtain ⟨v', -, h⟩ := Option.bind_eq_some_iff.mp h
      cases h
      exact hs

theorem Meets.idsLeft (h : s.Meets m) : s.IdsLeft m := by
  cases m with
  | request => exact h
  | _ => trivial

theorem Tracks.step (hs : s.Tracks) (hmeets : s.Meets m) (h : s.step guest m = some s') :
    s'.Tracks := by
  refine ⟨sound_step hs.sound hmeets.idsLeft h, fun v hv => ?_⟩
  cases m with
  | request decision r =>
    obtain ⟨w', hw', rfl⟩ := Option.map_eq_some_iff.mp h
    obtain ⟨es, hpending, hstate⟩ := (serve_advances hs.sound hmeets hw').pending hs.sound
    rw [hpending, ← List.append_assoc, replay_append, hs.leads v hv, hstate]
  | watchOther decision =>
    obtain ⟨hview, h⟩ := Option.ite_none_right_eq_some.mp h
    cases h
    rw [Option.mem_def.mp hv] at hview
    cases hview
  | start info listing allow =>
    obtain ⟨-, h⟩ := Option.ite_none_right_eq_some.mp h
    cases h
    have hstart : startView s.worker info listing allow = .ok v := by
      revert hv
      cases startView s.worker info listing allow with
      | error e => nofun
      | ok v' => exact fun hv => congrArg _ (Option.some.inj hv)
    obtain ⟨_, -, hstart⟩ := bind_eq_ok.mp hstart
    obtain ⟨listed, hlisted, hstart⟩ := bind_eq_ok.mp hstart
    cases hstart
    rw [recorded_start]
    exact replay_listSlots hs.sound hlisted (hmeets listed (by rw [hlisted]; rfl))
  | watch decision =>
    obtain ⟨⟨-, htaken⟩, h⟩ := Option.ite_none_right_eq_some.mp h
    cases h
    obtain ⟨-, hslots, hpending⟩ := watched hs.sound decision
    rw [Option.getD_some, hpending, hslots, ← hs.leads v hv, Option.isNone_iff_eq_none.mp htaken]
    rfl
  | drain info =>
    obtain ⟨v, hold, h⟩ := Option.bind_eq_some_iff.mp h
    obtain ⟨events, hevents, h⟩ := Option.bind_eq_some_iff.mp h
    cases h
    cases hv
    have hleads := hs.leads v hold
    rw [hevents, replay_append] at hleads
    rw [recorded_drain]
    exact hleads
  | act a =>
    simp only [Session.step] at h
    split at h
    · cases h
    · rename_i hdrain
      obtain ⟨v, hold, h⟩ := Option.bind_eq_some_iff.mp h
      obtain ⟨v', hv', h⟩ := Option.bind_eq_some_iff.mp h
      cases h
      cases hv
      rw [recorded_step hv' fun events capacity => hdrain events capacity]
      exact hs.leads v hold

theorem sound_fresh (slotsTotal : UInt32) : (fresh slotsTotal : FakeHypervisor μ).Sound :=
  ⟨settled_empty, Nat.le_refl _, leads_nil⟩

theorem tracks {slotsTotal : UInt32}
    (h : Runs (step guest) Meets ⟨.fresh slotsTotal, none, none⟩ s) : s.Tracks :=
  h.invariant ⟨sound_fresh _, nofun⟩ fun _ _ _ hs hmeets hstep => hs.step hmeets hstep

/-- **Between requests** the slots fit the worker, have ids it has given, and do not run. -/
theorem slots_at_rest {slotsTotal : UInt32}
    (h : Runs (step guest) IdsLeft ⟨.fresh slotsTotal, none, none⟩ s) :
    s.worker.slots.size ≤ s.worker.slotsTotal.toNat ∧
      ∀ (id : Nat) (slot : Slot μ), s.worker.slots[id]? = some slot →
        id < s.worker.nextSlotId ∧ (slot.stateKind = .paused ∨ slot.stateKind = .frozen) := by
  have hsound : s.worker.Sound :=
    h.invariant (I := fun s => s.worker.Sound) (sound_fresh _) fun _ _ _ hs hids hstep =>
      sound_step hs hids hstep
  have hw := hsound.settled
  refine ⟨hw.size, fun id slot hslot => ?_⟩
  have hthere : forest s.worker.slots id ≠ none := by simp [forest_eq hslot]
  refine ⟨hw.given id hthere, ?_⟩
  rw [← stateOf_eq hslot, hw.kinds, Forest.kind, if_neg hthere]
  split <;> simp

/-- Machines that do nothing. -/
def still : Guest Unit where
  boot _ := ()
  config _ := []
  leaseToken _ _ _ := 0
  inject _ _ := (.ok (), ())
  runSlot _ _ _ := (.ok [], ())
  validateCaptureSpec _ := .ok ()
  captureResponse _ _ := .ok []
  snapshotRef _ := 0

/-- A slot forks, one child runs, and another cannot be destroyed. -/
def forkAndRun : List Move :=
  [.request ⟨.none, none⟩ (.createVm [] 0), .request ⟨.none, none⟩ (.fork ⟨1, 0⟩ 2 [7, 8]),
    .request ⟨.none, none⟩ (.run ⟨2, 0⟩ [] none none),
    .request ⟨.timeout, none⟩ (.destroyVm ⟨3, 0⟩), .request ⟨.none, none⟩ (.createVm [] 0),
    .request ⟨.none, none⟩ (.createVm [] 0)]

theorem slots_at_rest_forkAndRun :
    ∃ s, exec (step still) IdsLeft forkAndRun ⟨.fresh 4, none, none⟩ = some s ∧
      s.worker.slots.size = 4 ∧ ∀ (id : Nat) (slot : Slot Unit), s.worker.slots[id]? = some slot →
        id < s.worker.nextSlotId ∧ (slot.stateKind = .paused ∨ slot.stateKind = .frozen) := by
  have hrun : (exec (step still) IdsLeft forkAndRun ⟨.fresh 4, none, none⟩).any fun s =>
      s.worker.slots.size = 4 := by
    decide +kernel
  obtain ⟨s, hs, hsize⟩ := (Option.any_eq_true _ _).mp hrun
  exact ⟨s, hs, of_decide_eq_true hsize, (slots_at_rest (runs_exec hs)).2⟩

/-- **The slot view converges to the worker.** A view that has recorded all the watch events has
the states of the worker's slots. The frozen slots are those with children, parents are there,
and a session reclaim leaves no slot. -/
theorem slot_view_converges {slotsTotal : UInt32}
    (h : Runs (step guest) Meets ⟨.fresh slotsTotal, none, none⟩ s) :
    (∀ v, s.view = some v → s.taken = none → s.worker.pending = [] →
      (∀ id, recorded v id = stateOf s.worker.slots id) ∧
      v.state.live.toNat = s.worker.slots.size) ∧
    (∀ (id : Nat) (slot : Slot μ), s.worker.slots[id]? = some slot →
      (slot.stateKind = .frozen ↔ ∃ (c : Nat) (child : Slot μ),
        s.worker.slots[c]? = some child ∧ child.parent = some id)) ∧
    (∀ (c : Nat) (child : Slot μ) (p : Nat), s.worker.slots[c]? = some child →
      child.parent = some p → p ∈ s.worker.slots) ∧
    ∃ w, s.worker.reclaimSession = some w ∧ w.slots = ∅ := by
  have hs := tracks h
  obtain ⟨w, hends, hempty, -⟩ := reclaimSession_ends hs.sound
  refine ⟨fun v hv htaken hpending => ?_, fun id slot hslot => ?_, fun c child p hchild hp => ?_,
    w, hends, hempty⟩
  · have hrecorded : recorded v = stateOf s.worker.slots := by
      have hleads := hs.leads v hv
      rwa [htaken, hpending] at hleads
    have hcount : (v.state.known.values.filter (· ≠ .empty)).length = s.worker.slots.size := by
      refine length_values_filter fun id => ?_
      show recorded v id ≠ .empty ↔ _
      rw [hrecorded, hs.sound.settled.stateOf_ne_empty]
    have hsize : s.worker.slots.size < UInt32.size :=
      Nat.lt_of_le_of_lt hs.sound.settled.size s.worker.slotsTotal.toNat_lt
    refine ⟨congrFun hrecorded, ?_⟩
    rw [Sched.ViewState.live, hcount, if_pos hsize, UInt32.toNat_ofNat_of_lt' hsize]
  · rw [hs.sound.settled.frozen_iff hslot]
    exact exists_congr fun c => Option.map_eq_some_iff
  · have hparent := hs.sound.settled.rooted.present c p (hp ▸ forest_eq hchild)
    obtain ⟨slot, hslot⟩ := exists_slot hparent
    exact mem_slots hslot

/-- A view starts, its first slot forks, and it drains. -/
def forkWatched : List Move :=
  [.request ⟨.none, none⟩ (.createVm [] 0), .watchOther ⟨.none, none⟩,
    .start ⟨.none, none⟩ ⟨.none, none⟩ false, .request ⟨.none, none⟩ (.fork ⟨1, 0⟩ 2 [7, 8]),
    .watch ⟨.none, none⟩, .drain ⟨.none, none⟩]

theorem slot_view_converges_forkWatched :
    ∃ s, exec (step still) Meets forkWatched ⟨.fresh 4, none, none⟩ = some s ∧
      s.worker.slots.size = 3 ∧ ∃ v, s.view = some v ∧ v.state.live.toNat = 3 := by
  have hrun : (exec (step still) Meets forkWatched ⟨.fresh 4, none, none⟩).any fun s =>
      s.worker.slots.size = 3 ∧ s.view.isSome ∧ s.taken.isNone ∧ s.worker.pending.isEmpty := by
    decide +kernel
  obtain ⟨s, hs, hend⟩ := (Option.any_eq_true _ _).mp hrun
  obtain ⟨hsize, hview, htaken, hpending⟩ := of_decide_eq_true hend
  obtain ⟨v, hv⟩ := Option.isSome_iff_exists.mp hview
  refine ⟨s, hs, hsize, v, hv, ?_⟩
  rw [((slot_view_converges (runs_exec hs)).1 v hv (Option.isNone_iff_eq_none.mp htaken)
    (List.isEmpty_iff.mp hpending)).2, hsize]

/-- A fault cuts the listing short, after others have read the events. -/
def listingCut : List Move :=
  [.request ⟨.none, none⟩ (.createVm [] 0), .watchOther ⟨.none, none⟩,
    .request ⟨.none, none⟩ (.createVm [] 0), .watchOther ⟨.none, none⟩,
    .start ⟨.none, none⟩ ⟨.none, some 1⟩ false, .watch ⟨.none, none⟩, .drain ⟨.none, none⟩]

/-- **The view does not learn of a slot that the listing left out.** -/
theorem slot_view_misses_slot :
    ∃ (s : Session Unit) (v : View), Runs (step still) Any ⟨.fresh 4, none, none⟩ s ∧
      s.view = some v ∧ s.taken = none ∧ s.worker.pending = [] ∧
      recorded v 2 = .empty ∧ stateOf s.worker.slots 2 = .paused ∧
      v.state.live = 1 ∧ s.worker.slots.size = 2 := by
  have hrun : (exec (step still) Any listingCut ⟨.fresh 4, none, none⟩).any fun s =>
      s.taken.isNone ∧ s.worker.pending.isEmpty ∧ stateOf s.worker.slots 2 = .paused ∧
      s.worker.slots.size = 2 ∧ s.view.any fun v =>
        recorded v 2 = .empty ∧ v.state.live = 1 := by
    decide +kernel
  obtain ⟨s, hs, hend⟩ := (Option.any_eq_true _ _).mp hrun
  obtain ⟨htaken, hpending, hstate, hsize, hview⟩ := of_decide_eq_true hend
  obtain ⟨v, hv, hlive⟩ := (Option.any_eq_true _ _).mp hview
  obtain ⟨hempty, hlive⟩ := of_decide_eq_true hlive
  exact ⟨s, v, runs_exec hs, hv, Option.isNone_iff_eq_none.mp htaken, List.isEmpty_iff.mp hpending,
    hempty, hstate, hlive, hsize⟩

end Session
end Orchestrator.Fakes
