import Orchestrator.Sched.Driver

/-! # Sched — The input schedule

`burst_events` adds up frames in saturating 32-bit arithmetic. Saturation is absorbed by
further sums, so what it schedules is the exact schedule with every number clamped once
(`burstEvents_ok`), and the schedule is exact just if nothing had to be clamped: the frame of
the last segment and the frames held together are the largest numbers there are.
-/

namespace Orchestrator.Sched

open Core Services

/-- The frames that a list of segments holds. -/
def held (segments : List PadSegment) : Nat := (segments.map PadSegment.holdFrames).sum

@[simp] theorem held_nil : held [] = 0 := rfl

@[simp] theorem held_cons (segment : PadSegment) (rest : List PadSegment) :
    held (segment :: rest) = segment.holdFrames + held rest := rfl

theorem held_append (l l' : List PadSegment) : held (l ++ l') = held l + held l' := by
  rw [held, List.map_append, List.sum_append]
  rfl

/-- What is meant: each segment starts when those before it have been held, counted from the
frame after the parent's. -/
structure Exact (segments : List PadSegment) (parentFrame : Nat) (events : List ScheduledEvent)
    (budget : Nat) : Prop where
  scheduled : ∀ i : Nat, events[i]? = segments[i]?.map fun segment =>
    ⟨parentFrame + 1 + held (segments.take i), 0, segment.buttons⟩
  later : ∀ e ∈ events, parentFrame < e.frame
  ordered : (events.map ScheduledEvent.frame).Pairwise (· ≤ ·)
  budget : budget = held segments

/-- The last event's frame and the budget are 32-bit numbers. -/
def Fits (segments : List PadSegment) (parentFrame : Nat) : Prop :=
  parentFrame + 1 + held segments.dropLast < 2 ^ 32 ∧ held segments < 2 ^ 32

instance (segments : List PadSegment) (parentFrame : Nat) : Decidable (Fits segments parentFrame) :=
  inferInstanceAs (Decidable (_ ∧ _))

/-! ### One clamp -/

/-- The nearest 32-bit number. -/
def clamp (n : Nat) : Nat := min n (2 ^ 32 - 1)

theorem saturatingAdd_clamp_left (a b : Nat) : saturatingAdd (clamp a) b = clamp (a + b) := by
  simp only [saturatingAdd, clamp]
  omega

theorem saturatingAdd_base (parentFrame before : Nat) :
    saturatingAdd (saturatingAdd parentFrame 1) (clamp before) =
      clamp (parentFrame + 1 + before) := by
  simp only [saturatingAdd, clamp]
  omega

theorem clamp_eq_self {n : Nat} : clamp n = n ↔ n < 2 ^ 32 := by
  simp only [clamp]
  omega

theorem clamp_mono {m n : Nat} (h : m ≤ n) : clamp m ≤ clamp n := by
  simp only [clamp]
  omega

/-- The events of segments that follow `before` held frames. -/
def plan (parentFrame : Nat) : Nat → List PadSegment → List ScheduledEvent
  | _, [] => []
  | before, segment :: rest =>
    ⟨clamp (parentFrame + 1 + before), 0, segment.buttons⟩ ::
      plan parentFrame (before + segment.holdFrames) rest

theorem foldl_eq_plan (parentFrame before : Nat) (segments : List PadSegment)
    (events : List ScheduledEvent) :
    segments.foldl (fun (events, offset) segment =>
        (events ++ [⟨saturatingAdd (saturatingAdd parentFrame 1) offset, 0, segment.buttons⟩],
          saturatingAdd offset segment.holdFrames)) (events, clamp before) =
      (events ++ plan parentFrame before segments, clamp (before + held segments)) := by
  induction segments generalizing before events with
  | nil => rw [plan, List.append_nil, held_nil]; rfl
  | cons segment rest ih =>
    simp only [List.foldl_cons, saturatingAdd_base, saturatingAdd_clamp_left, ih, plan, held_cons,
      List.append_assoc, List.singleton_append, Nat.add_assoc]

variable {segments : List PadSegment}

theorem burstEvents_ok {parentFrame budget : Nat} {events : List ScheduledEvent}
    (h : burstEvents segments parentFrame = .ok (events, budget)) :
    segments ≠ [] ∧ events = plan parentFrame 0 segments ∧ budget = clamp (held segments) := by
  unfold burstEvents at h
  split at h
  · cases h
  · rename_i hne
    have hfold := foldl_eq_plan parentFrame 0 segments []
    rw [show clamp 0 = 0 from rfl, List.nil_append, Nat.zero_add] at hfold
    simp only [hfold] at h
    split at h
    · cases h
    · cases h
      exact ⟨fun hnil => hne (List.isEmpty_iff.mpr hnil), rfl, rfl⟩

theorem getElem?_plan (parentFrame before : Nat) (segments : List PadSegment) (i : Nat) :
    (plan parentFrame before segments)[i]? = segments[i]?.map fun segment =>
      ⟨clamp (parentFrame + 1 + (before + held (segments.take i))), 0, segment.buttons⟩ := by
  induction segments generalizing before i with
  | nil => rfl
  | cons segment rest ih =>
    cases i with
    | zero => rfl
    | succ i =>
      rw [plan, List.getElem?_cons_succ, List.getElem?_cons_succ, ih, List.take_succ_cons,
        held_cons, Nat.add_assoc before]

theorem le_frame_of_mem_plan {parentFrame before : Nat} {e : ScheduledEvent}
    (h : e ∈ plan parentFrame before segments) : clamp (parentFrame + 1 + before) ≤ e.frame := by
  obtain ⟨i, hi⟩ := List.mem_iff_getElem?.mp h
  rw [getElem?_plan] at hi
  obtain ⟨segment, -, rfl⟩ := Option.map_eq_some_iff.mp hi
  exact clamp_mono (by omega)

theorem ordered_plan (parentFrame before : Nat) (segments : List PadSegment) :
    ((plan parentFrame before segments).map ScheduledEvent.frame).Pairwise (· ≤ ·) := by
  induction segments generalizing before with
  | nil => exact List.Pairwise.nil
  | cons segment rest ih =>
    refine List.Pairwise.cons (fun frame hframe => ?_) (ih _)
    obtain ⟨e, he, rfl⟩ := List.mem_map.mp hframe
    exact Nat.le_trans (clamp_mono (by omega)) (le_frame_of_mem_plan he)

/-- No event starts after the last one. -/
theorem held_take_le {i : Nat} (h : i < segments.length) :
    held (segments.take i) ≤ held segments.dropLast := by
  have hsplit : segments.dropLast = segments.take i ++ segments.dropLast.drop i := by
    rw [List.dropLast_eq_take]
    conv_lhs => rw [← List.take_append_drop i (segments.take (segments.length - 1))]
    rw [List.take_take, Nat.min_eq_left (by omega)]
  rw [hsplit, held_append]
  exact Nat.le_add_right _ _

/-- Whenever `burst_events` returns events, they are the schedule that was meant if and only
if its last frame and its length are 32-bit numbers; otherwise it has been clamped to another
one. -/
theorem schedule_exact_iff (segments : List PadSegment) (parentFrame budget : Nat)
    (events : List ScheduledEvent)
    (h : burstEvents segments parentFrame = .ok (events, budget)) :
    Exact segments parentFrame events budget ↔ Fits segments parentFrame := by
  obtain ⟨hne, rfl, rfl⟩ := burstEvents_ok h
  constructor
  · intro hexact
    refine ⟨?_, clamp_eq_self.mp hexact.budget⟩
    obtain ⟨last, hlast⟩ : ∃ last, segments[segments.length - 1]? = some last := by
      rw [← List.getLast?_eq_getElem?]
      exact ⟨_, List.getLast?_eq_some_getLast hne⟩
    have hat := hexact.scheduled (segments.length - 1)
    rw [getElem?_plan, hlast, Option.map_some, Option.map_some, Nat.zero_add,
      ← List.dropLast_eq_take] at hat
    exact clamp_eq_self.mp (congrArg ScheduledEvent.frame (Option.some.inj hat))
  · rintro ⟨hlast, htotal⟩
    have hscheduled : ∀ i : Nat, (plan parentFrame 0 segments)[i]? = segments[i]?.map fun segment =>
        ⟨parentFrame + 1 + held (segments.take i), 0, segment.buttons⟩ := by
      intro i
      rw [getElem?_plan, Nat.zero_add]
      refine Option.map_congr fun segment hsegment => ?_
      have hi := (List.getElem?_eq_some_iff.mp hsegment).1
      rw [clamp_eq_self.mpr (Nat.lt_of_le_of_lt (Nat.add_le_add_left (held_take_le hi) _) hlast)]
    refine ⟨hscheduled, fun e he => ?_, ordered_plan parentFrame 0 segments,
      clamp_eq_self.mpr htotal⟩
    obtain ⟨i, hi⟩ := List.mem_iff_getElem?.mp he
    rw [hscheduled] at hi
    obtain ⟨segment, -, rfl⟩ := Option.map_eq_some_iff.mp hi
    exact Nat.lt_of_lt_of_le (Nat.lt_succ_self _) (Nat.le_add_right _ _)

/-- Two segments after frame 9: the second one starts at frame 10 + 3. -/
theorem schedule_exact_iff_two :
    Exact [⟨1, 3⟩, ⟨2, 4⟩] 9 [⟨10, 0, 1⟩, ⟨13, 0, 2⟩] 7 :=
  (schedule_exact_iff [⟨1, 3⟩, ⟨2, 4⟩] 9 7 [⟨10, 0, 1⟩, ⟨13, 0, 2⟩] (by rfl)).mpr (by decide)

/-- From the last frame a counter can show, a single event is scheduled at the parent's own
frame; and a burst whose second segment would start after the last frame is clamped to it. -/
theorem schedule_clamped :
    burstEvents [⟨1, 1⟩] (2 ^ 32 - 1) = .ok ([⟨2 ^ 32 - 1, 0, 1⟩], 1) ∧
    ¬ Exact [⟨1, 1⟩] (2 ^ 32 - 1) [⟨2 ^ 32 - 1, 0, 1⟩] 1 ∧
    burstEvents [⟨1, 10⟩, ⟨2, 1⟩] (2 ^ 32 - 5) =
      .ok ([⟨2 ^ 32 - 4, 0, 1⟩, ⟨2 ^ 32 - 1, 0, 2⟩], 11) ∧
    ¬ Exact [⟨1, 10⟩, ⟨2, 1⟩] (2 ^ 32 - 5) [⟨2 ^ 32 - 4, 0, 1⟩, ⟨2 ^ 32 - 1, 0, 2⟩] 11 := by
  refine ⟨by rfl, fun h => ?_, by rfl, fun h => ?_⟩
  · exact absurd (h.later _ (List.mem_singleton_self _)) (by decide)
  · exact absurd (h.scheduled 1) (by decide)

end Orchestrator.Sched
