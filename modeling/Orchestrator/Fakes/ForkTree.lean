import Orchestrator.Fakes.Hypervisor
import Orchestrator.Lib.Changelog
import Orchestrator.Lib.Forest

/-! # Fakes — The fork tree

What holds of the fake hypervisor between requests: its slots form a forest in which exactly the
slots with children are frozen, and the watch events lead to the states of the slots.

* `Sound`: the invariant; `News`: the events of a step tell what it changed.
* `reclaimSession_ends`: a session reclaim ends and leaves no slot.
* `serve_advances`: every request keeps the invariant and tells its news, unless the slot ids
  run out.
-/

namespace Orchestrator.Fakes

open Services Lib Lib.Changelog
open Sched (SlotState)

namespace FakeHypervisor

variable {μ α : Type} {guest : Guest μ} {m m' : Std.ExtTreeMap Nat (Slot μ)} {next : Nat}
  {total : UInt32} {w w' s t : FakeHypervisor μ} {lease : Lease} {slot slot' : Slot μ} {id : Nat}

def forest (m : Std.ExtTreeMap Nat (Slot μ)) : Forest Nat := fun id => m[id]?.map Slot.parent

/-- The state of a slot; one that is not there is empty. -/
def stateOf (m : Std.ExtTreeMap Nat (Slot μ)) (id : Nat) : SlotState :=
  m[id]?.elim .empty Slot.stateKind

theorem forest_eq (h : m[id]? = some slot) : forest m id = some slot.parent := by
  rw [forest, h, Option.map_some]

theorem stateOf_eq (h : m[id]? = some slot) : stateOf m id = slot.stateKind := by
  rw [stateOf, h, Option.elim_some]

theorem exists_slot (h : forest m id ≠ none) : ∃ slot, m[id]? = some slot :=
  Option.ne_none_iff_exists'.mp fun hnone => h (by rw [forest, hnone, Option.map_none])

theorem mem_slots (h : m[id]? = some slot) : id ∈ m :=
  Std.ExtTreeMap.mem_iff_isSome_getElem?.mpr (by rw [h]; rfl)

theorem hasChild_iff : w.hasChild id = true ↔ (forest w.slots).Busy id := by
  rw [hasChild, List.any_eq_true]
  constructor
  · rintro ⟨⟨c, child⟩, hmem, hp⟩
    have hchild := Std.ExtTreeMap.mem_toList_iff_getElem?_eq_some.mp hmem
    exact ⟨c, (forest_eq hchild).trans (congrArg some (of_decide_eq_true hp))⟩
  · rintro ⟨c, hc⟩
    obtain ⟨child, hchild, hp⟩ := Option.map_eq_some_iff.mp hc
    exact ⟨(c, child), Std.ExtTreeMap.mem_toList_iff_getElem?_eq_some.mpr hchild, decide_eq_true hp⟩

/-- What holds of the slots between requests. -/
structure Settled (m : Std.ExtTreeMap Nat (Slot μ)) (next : Nat) (total : UInt32) : Prop where
  given : ∀ id, forest m id ≠ none → id < next
  rooted : (forest m).Rooted
  kinds : ∀ id, stateOf m id = (forest m).kind .empty .paused .frozen id
  size : m.size ≤ total.toNat

structure Sound (w : FakeHypervisor μ) : Prop where
  settled : Settled w.slots w.nextSlotId w.slotsTotal
  cursor : w.watchCursor ≤ w.watchEvents.length
  leads : Leads w.watchEvents (stateOf w.slots)

theorem settled_empty : Settled (∅ : Std.ExtTreeMap Nat (Slot μ)) next total :=
  ⟨fun _ hk => absurd rfl hk, ⟨nofun, nofun⟩, fun _ => (if_pos rfl).symm, Nat.zero_le _⟩

theorem Settled.stateOf_ne_empty (h : Settled m next total) : stateOf m id ≠ .empty ↔ id ∈ m := by
  rw [Std.ExtTreeMap.mem_iff_isSome_getElem?]
  have hkind := h.kinds id
  unfold Forest.kind stateOf forest at *
  grind

theorem Settled.frozen_iff (h : Settled m next total) (hslot : m[id]? = some slot) :
    slot.stateKind = .frozen ↔ (forest m).Busy id := by
  rw [← stateOf_eq hslot, h.kinds, Forest.kind, forest_eq hslot]
  grind

/-! ### Events -/

/-- The events since `w` tell what has changed. -/
def News (w s : FakeHypervisor μ) : Prop :=
  s.watchCursor = w.watchCursor ∧
    ∃ es, s.watchEvents = w.watchEvents ++ es ∧ replay (stateOf w.slots) es = stateOf s.slots

theorem News.trans (h : News w s) (h' : News s t) : News w t := by
  obtain ⟨hcursor, es, htold, hreplay⟩ := h
  obtain ⟨hcursor', es', htold', hreplay'⟩ := h'
  refine ⟨hcursor'.trans hcursor, es ++ es', ?_, ?_⟩
  · rw [htold', htold, List.append_assoc]
  · rw [replay_append, hreplay, hreplay']

theorem news_same (hevents : s.watchEvents = w.watchEvents)
    (hcursor : s.watchCursor = w.watchCursor) (hstate : stateOf s.slots = stateOf w.slots) :
    News w s :=
  ⟨hcursor, [], by rw [hevents, List.append_nil], hstate.symm⟩

/-- A step that keeps the invariant, and tells its news. -/
def Advances (w w' : FakeHypervisor μ) : Prop :=
  Settled w'.slots w'.nextSlotId w'.slotsTotal ∧ News w w'

theorem Advances.sound (h : Advances w w') (hw : w.Sound) : w'.Sound := by
  obtain ⟨hsettled, hcursor, es, htold, hreplay⟩ := h
  refine ⟨hsettled, ?_, htold ▸ hw.leads.append hreplay⟩
  have hlength := congrArg List.length htold
  have hw := hw.cursor
  rw [List.length_append] at hlength
  omega

theorem Advances.pending (h : Advances w w') (hw : w.Sound) :
    ∃ es, w'.pending = w.pending ++ es ∧ replay (stateOf w.slots) es = stateOf w'.slots := by
  obtain ⟨-, hcursor, es, htold, hreplay⟩ := h
  refine ⟨es, ?_, hreplay⟩
  rw [FakeHypervisor.pending, htold, hcursor, List.drop_append_of_le_length hw.cursor]
  rfl

theorem Sound.advances (hw : w.Sound) : Advances w w := ⟨hw.settled, news_same rfl rfl rfl⟩

theorem news_push (ids : List Nat) (hevents : s.watchEvents = w.watchEvents)
    (hcursor : s.watchCursor = w.watchCursor) (hslots : ∀ id ∈ ids, forest s.slots id ≠ none)
    (hstate : ∀ id, id ∉ ids → stateOf s.slots id = stateOf w.slots id) :
    News w (s.pushSlotEvents ids) := by
  refine ⟨hcursor, _, congrArg (· ++ _) hevents, ?_⟩
  refine Leads.replay_eq ⟨_, replay_self fun e he => ?_⟩ fun id hid => (hstate id ?_).symm
  · obtain ⟨id, -, hsome⟩ := List.mem_filterMap.mp he
    obtain ⟨slot, hslot, rfl⟩ := Option.map_eq_some_iff.mp hsome
    exact stateOf_eq hslot
  · intro hmem
    obtain ⟨slot, hslot⟩ := exists_slot (hslots id hmem)
    refine hid (List.mem_map_of_mem (a := (id, slot.stateKind))
      (List.mem_filterMap.mpr ⟨id, hmem, ?_⟩))
    rw [hslot, Option.map_some]

/-! ### Slots in place -/

theorem slot_eq_ok (h : w.slot lease = .ok slot) : w.slots[lease.slotId]? = some slot := by
  grind [FakeHypervisor.slot]

theorem forest_insert (k : Nat) :
    forest (m.insert id slot) k = if k = id then some slot.parent else forest m k := by
  grind [forest, getElem?_insert_if]

theorem stateOf_insert (k : Nat) :
    stateOf (m.insert id slot) k = if k = id then slot.stateKind else stateOf m k := by
  grind [stateOf, getElem?_insert_if]

theorem size_insert (h : m[id]? = some slot) : (m.insert id slot').size = m.size := by
  rw [Std.ExtTreeMap.size_insert, if_pos (Std.ExtTreeMap.mem_iff_contains.mp (mem_slots h))]

theorem news_put : News w ((w.put id slot).pushSlotEvents [id]) := by
  refine news_push [id] rfl rfl (fun k hk => ?_) fun k hk => ?_
  · grind [put, forest_insert]
  · grind [put, stateOf_insert]

theorem Settled.insert (h : Settled m next total) (hslot : m[id]? = some slot)
    (hparent : slot'.parent = slot.parent) (hkind : slot'.stateKind = slot.stateKind) :
    Settled (m.insert id slot') next total := by
  have hforest : forest (m.insert id slot') = forest m := funext fun k => by
    grind [forest_insert, forest_eq]
  have hstate : stateOf (m.insert id slot') = stateOf m := funext fun k => by
    grind [stateOf_insert, stateOf_eq]
  exact ⟨hforest ▸ h.given, hforest ▸ h.rooted, hforest ▸ hstate ▸ h.kinds,
    size_insert hslot ▸ h.size⟩

theorem advances_machine (hw : w.Sound) (hslot : w.slots[id]? = some slot) (machine : μ) :
    Advances w (w.put id { slot with machine }) := by
  refine ⟨hw.settled.insert hslot rfl rfl, news_same rfl rfl (funext fun k => ?_)⟩
  grind [put, stateOf_insert, stateOf_eq]

theorem advances_run (hw : w.Sound) (hslot : w.slots[id]? = some slot)
    (hpaused : slot.stateKind = .paused) (machine : μ) :
    Advances w (((w.put id { slot with stateKind := .running }).pushSlotEvents [id]).put id
      { slot with machine, stateKind := .paused } |>.pushSlotEvents [id]) := by
  have hslots : (w.slots.insert id { slot with stateKind := .running }).insert id
      { slot with machine, stateKind := .paused } =
      w.slots.insert id { slot with machine, stateKind := .paused } := by
    refine Std.ExtTreeMap.ext_getElem? fun k => ?_
    grind [getElem?_insert_if]
  refine ⟨?_, news_put.trans news_put⟩
  exact (congrArg (Settled · w.nextSlotId w.slotsTotal) hslots).mpr
    (hw.settled.insert hslot rfl hpaused.symm)

/-! ### New slots -/

theorem getElem?_addSlots (machine : μ) (parent : Option Nat) (m : Std.ExtTreeMap Nat (Slot μ))
    (leases : List Lease) (id : Nat) :
    id ∈ leases.map Lease.slotId ∧ (∃ token,
      (addSlots machine parent m leases)[id]? = some ⟨token, machine, parent, .paused⟩) ∨
    id ∉ leases.map Lease.slotId ∧ (addSlots machine parent m leases)[id]? = m[id]? := by
  induction leases generalizing m with
  | nil => exact .inr ⟨List.not_mem_nil, rfl⟩
  | cons lease leases ih =>
    have ih := ih (m.insert lease.slotId ⟨lease.token, machine, parent, .paused⟩)
    rw [addSlots, List.foldl_cons, ← addSlots]
    grind [getElem?_insert_if]

theorem size_addSlots (machine : μ) (parent : Option Nat) (m : Std.ExtTreeMap Nat (Slot μ))
    (leases : List Lease) : (addSlots machine parent m leases).size ≤ m.size + leases.length := by
  induction leases generalizing m with
  | nil => exact Nat.le_refl _
  | cons lease leases ih =>
    refine Nat.le_trans (ih _) ?_
    rw [List.length_cons, Nat.add_comm leases.length, ← Nat.add_assoc]
    exact Nat.add_le_add_right Std.ExtTreeMap.size_insert_le _

theorem ensureCapacity_ok {n : Nat} (h : w.ensureCapacity n = .ok ())
    (hsize : w.slots.size ≤ w.slotsTotal.toNat) : w.slots.size + n ≤ w.slotsTotal.toNat := by
  obtain ⟨_, -, hroom⟩ := bind_eq_ok.mp h
  rw [refuseIf_eq_ok] at hroom
  omega

/-- Slots are created: without a parent, or as the children of a slot, which is frozen. -/
theorem advances_spawn (seeds : List Nat) (parent : Option Nat) {config : Bytes} {machine : μ}
    (hw : w.Sound) (hroom : w.nextSlotId + seeds.length < 2 ^ 64) (hne : seeds ≠ [])
    (hcap : w.ensureCapacity seeds.length = .ok ())
    (hparent : ∀ p, parent = some p → forest w.slots p ≠ none) :
    Advances w (w.spawn (seeds.zipIdx.map fun (seed, i) => w.nextLease guest config i seed) machine
      parent) := by
  generalize hleases : (seeds.zipIdx.map fun (seed, i) => w.nextLease guest config i seed) = leases
  have hlength : leases.length = seeds.length := by
    rw [← hleases, List.length_map, List.length_zipIdx]
  have hids : ∀ k ∈ leases.map Lease.slotId,
      w.nextSlotId ≤ k ∧ k < min (w.nextSlotId + leases.length) (2 ^ 64 - 1) := by
    intro k hk
    rw [← hleases, List.map_map] at hk
    obtain ⟨⟨seed, i⟩, hmem, rfl⟩ := List.mem_map.mp hk
    have hi := List.snd_lt_of_mem_zipIdx hmem
    show w.nextSlotId ≤ min (w.nextSlotId + i) _ ∧ min (w.nextSlotId + i) _ < _
    omega
  have hne : leases.map Lease.slotId ≠ [] := by
    rw [Ne, List.map_eq_nil_iff, ← List.length_eq_zero_iff, hlength, List.length_eq_zero_iff]
    exact hne
  have hslots : ∀ id : Nat, _ := getElem?_addSlots machine parent w.slots leases
  have hsize := Nat.le_trans (size_addSlots machine parent w.slots leases)
    (hlength ▸ ensureCapacity_ok hcap hw.settled.size)
  dsimp only [spawn]
  generalize addSlots machine parent w.slots leases = m at hslots hsize ⊢
  generalize leases.map Lease.slotId = ids at hids hne hslots ⊢
  have hgiven := hw.settled.given
  have hroom : (forest w.slots).Room ids parent := ⟨hne, by grind, by grind⟩
  -- The parent is frozen once its children are there.
  obtain ⟨m', hm', hsize', hforest, hstate⟩ : ∃ m', parent.elim m (m.modify · fun slot =>
      { slot with stateKind := .frozen }) = m' ∧ m'.size = m.size ∧
      (∀ id, forest m' id = (forest w.slots).grow ids parent id) ∧
      ∀ id, stateOf m' id = if id ∈ ids then .paused else
        if parent = some id then .frozen else stateOf w.slots id := by
    refine ⟨_, rfl, ?_⟩
    cases parent with
    | none => exact ⟨rfl, by grind [forest, Forest.grow], by grind [stateOf]⟩
    | some p =>
      refine ⟨Std.ExtTreeMap.size_modify, fun id => ?_, fun id => ?_⟩
      · grind [forest, Forest.grow]
      · grind [stateOf, forest, Forest.Room]
  have hgrow : forest m' = (forest w.slots).grow ids parent := funext hforest
  have hsettled : Settled m' (min (w.nextSlotId + leases.length) (2 ^ 64 - 1)) w.slotsTotal := by
    refine ⟨by grind [Forest.grow], hgrow ▸ hw.settled.rooted.grow hroom, fun k => ?_,
      hsize' ▸ hsize⟩
    rw [hgrow, Forest.kind_grow hw.settled.rooted hroom, ← hw.settled.kinds]
    exact hstate k
  rw [hm']
  exact ⟨hsettled, news_push _ rfl rfl (by grind [Forest.grow]) (by grind)⟩

/-! ### Slots that go -/

theorem forest_remove : forest (w.remove id).slots = (forest w.slots).prune id := by
  funext k
  simp only [forest, remove, Forest.prune]
  grind [getElem?_erase_if]

theorem stateOf_remove (k : Nat) :
    stateOf (w.remove id).slots k = if k = id then .empty else stateOf w.slots k := by
  simp only [stateOf, remove]
  grind [getElem?_erase_if]

theorem size_remove (h : w.slots[id]? = some slot) : (w.remove id).slots.size < w.slots.size := by
  have hmem := Std.ExtTreeMap.mem_iff_contains.mp (mem_slots h)
  have hpos : w.slots.size ≠ 0 := fun h0 => by
    rw [Std.ExtTreeMap.eq_empty_iff_size_eq_zero.mpr h0] at hmem
    cases hmem
  rw [remove, h, Std.ExtTreeMap.size_erase, if_pos hmem]
  omega

theorem news_remove : News w (w.remove id) := by
  have hstate : ∀ k, stateOf (w.remove id).slots k = _ := stateOf_remove
  cases hslot : w.slots[id]? with
  | none =>
    rw [remove, hslot]
    exact news_same rfl rfl rfl
  | some slot =>
    rw [remove, hslot] at hstate ⊢
    refine ⟨rfl, [(id, .empty)], rfl, funext fun k => ?_⟩
    rw [hstate, replay_cons, replay_nil, Function.update_apply]

open Classical in
/-- A slot without children goes, and its parent is paused again if that was its last child. -/
theorem Settled.destroy (h : Settled m next total) (hslot : m[id]? = some slot)
    (hleaf : ¬ (forest m).Busy id) (hforest : forest m' = (forest m).prune id)
    (hstate : ∀ k, stateOf m' k = if k = id then .empty
      else if slot.parent = some k ∧ ¬ (forest m').Busy k then .paused else stateOf m k)
    (hsize : m'.size < m.size) : Settled m' next total := by
  refine ⟨fun k hk => h.given k ?_, hforest ▸ h.rooted.prune hleaf, fun k => ?_,
    Nat.le_trans (Nat.le_of_lt hsize) h.size⟩
  · rw [hforest, Forest.prune] at hk
    grind
  · rw [hstate, hforest, Forest.kind_prune h.rooted, h.kinds, forest_eq hslot]
    simp only [Option.some_inj]

open Classical in
theorem advances_destroy (hw : w.Sound) (hslot : w.slots[id]? = some slot)
    (hleaf : ¬ (forest w.slots).Busy id) :
    Advances w (slot.parent.elim (w.remove id) (w.remove id).maybeUnfreezeParent) := by
  have hforest : forest (w.remove id).slots = (forest w.slots).prune id := forest_remove
  have hstate : ∀ k, stateOf (w.remove id).slots k = _ := stateOf_remove
  have hnews : News w (w.remove id) := news_remove
  have hsize : (w.remove id).slots.size < w.slots.size := size_remove hslot
  have hrest : (w.remove id).nextSlotId = w.nextSlotId ∧
      (w.remove id).slotsTotal = w.slotsTotal := by
    rw [remove, hslot]
    exact ⟨rfl, rfl⟩
  generalize w.remove id = s at hforest hstate hnews hsize hrest ⊢
  have hstay (hbusy : ∀ p, slot.parent = some p → (forest s.slots).Busy p) : Advances w s := by
    refine ⟨hrest.1 ▸ hrest.2 ▸ hw.settled.destroy hslot hleaf hforest (fun k => ?_) hsize, hnews⟩
    grind [hstate k]
  cases hp : slot.parent with
  | none => exact hstay (by grind)
  | some p =>
    rw [Option.elim_some, maybeUnfreezeParent]
    split
    · exact hstay (by grind [hasChild_iff])
    · have hidle := mt hasChild_iff.mpr ‹_›
      -- The parent is there, and frozen by the child that goes.
      have hchild : forest w.slots id = some (some p) := hp ▸ forest_eq hslot
      have hne : p ≠ id := Nat.ne_of_lt (hw.settled.rooted.ascending id p hchild)
      have hpresent := hw.settled.rooted.present id p hchild
      have hhost : forest s.slots p ≠ none := by
        rwa [hforest, Forest.prune, if_neg hne]
      obtain ⟨host, hhost⟩ := exists_slot hhost
      have hkind : host.stateKind = .frozen := by
        rw [← stateOf_eq hhost, hstate, if_neg hne, hw.settled.kinds, Forest.kind, if_neg hpresent,
          if_pos ⟨id, hchild⟩]
      have hforest' : forest (s.slots.insert p { host with stateKind := .paused }) =
          forest s.slots := funext fun k => by grind [forest_insert, forest_eq]
      have hsettled := hw.settled.destroy hslot hleaf (hforest'.trans hforest)
        (fun k => by rw [hforest']; grind [stateOf_insert, hstate k]) (size_insert hhost ▸ hsize)
      rw [← hrest.1, ← hrest.2] at hsettled
      simp only [hhost, hkind, if_true]
      exact ⟨hsettled, hnews.trans news_put⟩

/-! ### Session reclaim -/

theorem foldl_remove (hs : (forest s.slots).Ascending) (ids : List Nat) :
    let s' := ids.foldl (fun w id => w.remove id) s
    (forest s'.slots).Ascending ∧ News s s' ∧ s'.slots.size ≤ s.slots.size := by
  induction ids generalizing s with
  | nil => exact ⟨hs, news_same rfl rfl rfl, Nat.le_refl _⟩
  | cons id ids ih =>
    obtain ⟨hasc, hnews, hle⟩ := ih (s := s.remove id) (forest_remove ▸ hs.prune id)
    refine ⟨hasc, news_remove.trans hnews, Nat.le_trans hle ?_⟩
    unfold remove
    split
    · exact Std.ExtTreeMap.size_erase_le
    · exact Nat.le_refl _

theorem size_reclaimPass (hs : (forest s.slots).Ascending) (hne : s.slots ≠ ∅) :
    s.reclaimPass.slots.size < s.slots.size := by
  have hkeys : s.slots.keys.toFinset.Nonempty := by
    rw [List.toFinset_nonempty_iff]
    intro hnil
    refine hne (Std.ExtTreeMap.eq_empty_iff_size_eq_zero.mpr ?_)
    rw [← Std.ExtTreeMap.length_keys, hnil, List.length_nil]
  obtain ⟨leaf, hleaf, hidle⟩ := Forest.exists_leaf hs hkeys fun k hk => by
    obtain ⟨slot, hslot⟩ := exists_slot hk
    exact List.mem_toFinset.mpr (Std.ExtTreeMap.mem_keys.mpr (mem_slots hslot))
  have hmem (id : Nat) : id ∈ s.leaves ↔ id ∈ s.slots.keys ∧ ¬ (forest s.slots).Busy id := by
    rw [leaves, List.mem_filter, ← hasChild_iff, Bool.not_eq_true', Bool.not_eq_true]
  have hleaf := (hmem leaf).mpr ⟨List.mem_toFinset.mp hleaf, hidle⟩
  rw [reclaimPass]
  cases hleaves : s.leaves with
  | nil => exact absurd (hleaves ▸ hleaf) List.not_mem_nil
  | cons id ids =>
    have hid := ((hmem id).mp (hleaves ▸ List.mem_cons_self)).1
    rw [Std.ExtTreeMap.mem_keys, Std.ExtTreeMap.mem_iff_isSome_getElem?] at hid
    obtain ⟨slot, hslot⟩ := Option.isSome_iff_exists.mp hid
    have hrest := foldl_remove (s := s.remove id) (forest_remove ▸ hs.prune id) ids
    exact Nat.lt_of_le_of_lt hrest.2.2 (size_remove hslot)

theorem reclaimPasses_ends (hs : (forest s.slots).Ascending) {n : Nat} (hn : s.slots.size ≤ n) :
    ∃ s', reclaimPasses n s = some s' ∧ s'.slots = ∅ ∧ News s s' := by
  induction n generalizing s with
  | zero =>
    have hempty := Std.ExtTreeMap.eq_empty_iff_size_eq_zero.mpr (Nat.le_zero.mp hn)
    exact ⟨s, if_pos (Std.ExtTreeMap.isEmpty_iff.mpr hempty), hempty, news_same rfl rfl rfl⟩
  | succ n ih =>
    rw [reclaimPasses]
    split
    · exact ⟨s, rfl, Std.ExtTreeMap.isEmpty_iff.mp ‹_›, news_same rfl rfl rfl⟩
    · have hsmaller := size_reclaimPass hs (mt Std.ExtTreeMap.isEmpty_iff.mpr ‹_›)
      obtain ⟨hasc, hnews, -⟩ := foldl_remove hs s.leaves
      obtain ⟨s', hends, hempty, hnews'⟩ :=
        ih hasc (Nat.le_of_lt_succ (Nat.lt_of_lt_of_le hsmaller hn))
      exact ⟨s', hends, hempty, hnews.trans hnews'⟩

/-- **A session reclaim ends and leaves no slot.** -/
theorem reclaimSession_ends (hw : w.Sound) :
    ∃ w', w.reclaimSession = some w' ∧ w'.slots = ∅ ∧ Advances w w' := by
  obtain ⟨w', hends, hempty, hnews⟩ :=
    reclaimPasses_ends hw.settled.rooted.ascending (Nat.le_refl _)
  exact ⟨w', hends, hempty, hempty ▸ settled_empty, hnews⟩

/-! ### Requests -/

theorem ensurePaused_ok {operation : String} (h : ensurePaused slot operation = .ok ()) :
    slot.stateKind = .paused :=
  not_not.mp (refuseIf_eq_ok.mp h)

/-- An operation that fails leaves the worker as it was. -/
theorem advances_after {r : Except ClientError (α × FakeHypervisor μ)} (hw : w.Sound)
    (h : ∀ a s, r = .ok (a, s) → Advances w s) : Advances w (w.after r) := by
  cases r with
  | error e => exact hw.advances
  | ok p => exact h p.1 p.2 rfl

/-- **A request keeps the invariant and tells its news**, unless the slot ids run out. -/
theorem serve_advances {decision : FaultDecision} {r : Request} (hw : w.Sound)
    (hroom : w.nextSlotId + r.allocates < 2 ^ 64) (h : serve guest decision w r = some w') :
    Advances w w' := by
  cases r <;> try cases h <;> refine advances_after hw fun a s h => ?_
  case createVm config seed =>
    simp only [createVm, bind_eq_ok] at h
    obtain ⟨_, -, _, hcap, h⟩ := h
    cases h
    exact advances_spawn [seed] none hw hroom (List.cons_ne_nil _ _) hcap fun _ hp => by cases hp
  case restoreSnapshot snapshot seed =>
    simp only [restoreSnapshot, bind_eq_ok] at h
    obtain ⟨_, -, _, hcap, machine, -, h⟩ := h
    cases h
    exact advances_spawn [seed.getD 0] none hw hroom (List.cons_ne_nil _ _) hcap
      fun _ hp => by cases hp
  case fork parent count seeds =>
    simp only [fork, validateFork, bind_eq_ok, refuseIf_eq_ok] at h
    obtain ⟨_, ⟨_, hcount, hlength⟩, _, -, _, hcap, slot, hslot, _, -, h⟩ := h
    cases h
    obtain rfl := not_not.mp hlength
    have hparent := forest_eq (slot_eq_ok hslot)
    refine advances_spawn seeds (some parent.slotId) hw hroom
      (mt List.length_eq_zero_iff.mpr hcount) hcap fun p hp => ?_
    rw [← Option.some.inj hp, hparent]
    exact Option.some_ne_none _
  case injectInputs =>
    simp only [injectInputs, bind_eq_ok] at h
    obtain ⟨_, -, _, -, slot, hslot, _, -, h⟩ := h
    cases h
    exact advances_machine hw (slot_eq_ok hslot) _
  case run =>
    simp only [run, bind_eq_ok] at h
    obtain ⟨_, -, _, -, slot, hslot, _, hpaused, h⟩ := h
    cases h
    exact advances_run hw (slot_eq_ok hslot) (ensurePaused_ok hpaused) _
  case takeSnapshot =>
    simp only [takeSnapshot, bind_eq_ok] at h
    obtain ⟨_, -, slot, -, _, -, captured, -, h⟩ := h
    cases h
    exact ⟨hw.settled, news_same rfl rfl rfl⟩
  case destroyVm =>
    simp only [destroyVm, bind_eq_ok] at h
    obtain ⟨_, -, slot, hslot, _, -, _, hleaf, h⟩ := h
    cases h
    exact advances_destroy hw (slot_eq_ok hslot) (mt hasChild_iff.mpr (refuseIf_eq_ok.mp hleaf))
  case reclaimSession =>
    obtain ⟨s, hs, -, hadv⟩ := reclaimSession_ends hw
    cases hs.symm.trans h
    exact hadv

end FakeHypervisor
end Orchestrator.Fakes
