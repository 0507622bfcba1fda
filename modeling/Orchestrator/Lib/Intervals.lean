import Mathlib.Data.List.Sort

/-! # Lib — Intervals

Half-open intervals of addresses. Merging a list of them, ordered by where they begin, gives
intervals that are apart, cover the same addresses, and do not split any interval of the list.
A slice of a sequence is the part of it in such an interval.

* `Separated.foldl_absorb`, `covers_foldl_absorb`, `spans_foldl_absorb`: the merge.
* `slice_slice`, `slice_append_right`: slices of slices and of concatenations.
-/

namespace Orchestrator.Lib.Intervals

/-- One of the intervals has the address. -/
def Covers (is : List (Nat × Nat)) (x : Nat) : Prop := ∃ i ∈ is, i.1 ≤ x ∧ x < i.2

/-- One of the intervals has all of `j`. -/
def Spans (is : List (Nat × Nat)) (j : Nat × Nat) : Prop := ∃ i ∈ is, i.1 ≤ j.1 ∧ j.2 ≤ i.2

/-- Intervals with addresses, in increasing order, that neither overlap nor touch. -/
structure Separated (is : List (Nat × Nat)) : Prop where
  proper : ∀ i ∈ is, i.1 < i.2
  apart : is.Pairwise fun i j => i.2 < j.1

/-- Extends the last interval, or begins a new one. -/
def absorb (merged : List (Nat × Nat)) (i : Nat × Nat) : List (Nat × Nat) :=
  match merged.getLast? with
  | some (start, stop) =>
    if i.1 ≤ stop then merged.dropLast ++ [(start, max stop i.2)] else merged ++ [i]
  | none => [i]

/-- The last interval begins at or before `n`. -/
def Begun (is : List (Nat × Nat)) (n : Nat) : Prop := ∀ last, is.getLast? = some last → last.1 ≤ n

variable {is merged : List (Nat × Nat)} {i j : Nat × Nat}

theorem absorb_nil (i : Nat × Nat) : absorb [] i = [i] := rfl

theorem absorb_concat (init : List (Nat × Nat)) (last i : Nat × Nat) :
    absorb (init ++ [last]) i =
      if i.1 ≤ last.2 then init ++ [(last.1, max last.2 i.2)] else init ++ [last] ++ [i] := by
  simp only [absorb, List.getLast?_concat, List.dropLast_concat]

/-! ### One interval -/

theorem begun_absorb (h : Begun merged i.1) : Begun (absorb merged i) i.1 := by
  intro last hlast
  rcases List.eq_nil_or_concat merged with rfl | ⟨init, m, rfl⟩
  · cases hlast
    exact Nat.le_refl _
  · rw [List.concat_eq_append, absorb_concat] at hlast
    split at hlast
    · rw [List.getLast?_concat] at hlast
      cases hlast
      exact h m (by rw [List.concat_eq_append, List.getLast?_concat])
    · rw [List.getLast?_concat] at hlast
      cases hlast
      exact Nat.le_refl _

theorem Separated.absorb (h : Separated merged) (hi : i.1 < i.2) (hb : Begun merged i.1) :
    Separated (absorb merged i) := by
  rcases List.eq_nil_or_concat merged with rfl | ⟨init, last, rfl⟩
  · exact ⟨by simpa [absorb_nil] using hi, by simp [absorb_nil]⟩
  · rw [List.concat_eq_append] at h hb ⊢
    have hlast : last.1 < last.2 := h.proper last (by simp)
    obtain ⟨hinit, -, hapart⟩ := List.pairwise_append.mp h.apart
    rw [absorb_concat]
    split
    · rename_i hle
      refine ⟨fun j hj => ?_, List.pairwise_append.mpr ⟨hinit, by simp, fun a ha b hb => ?_⟩⟩
      · rcases List.mem_append.mp hj with hj | hj
        · exact h.proper j (List.mem_append_left _ hj)
        · rw [List.mem_singleton.mp hj]
          exact Nat.lt_of_lt_of_le hlast (Nat.le_max_left _ _)
      · rw [List.mem_singleton.mp hb]
        exact hapart a ha last List.mem_cons_self
    · rename_i hgt
      refine ⟨fun j hj => ?_, List.pairwise_append.mpr ⟨h.apart, by simp, fun a ha b hb => ?_⟩⟩
      · rcases List.mem_append.mp hj with hj | hj
        · exact h.proper j hj
        · rw [List.mem_singleton.mp hj]
          exact hi
      · rw [List.mem_singleton.mp hb]
        -- an earlier interval ends before the last one, which ends before `i` begins
        rcases List.mem_append.mp ha with ha | ha
        · have := hapart a ha last List.mem_cons_self
          omega
        · rw [List.mem_singleton.mp ha]
          omega

theorem covers_concat (init : List (Nat × Nat)) (last : Nat × Nat) (x : Nat) :
    Covers (init ++ [last]) x ↔ Covers init x ∨ last.1 ≤ x ∧ x < last.2 := by
  simp [Covers, or_and_right, exists_or]

theorem covers_absorb (hb : Begun merged i.1) (x : Nat) :
    Covers (absorb merged i) x ↔ Covers merged x ∨ i.1 ≤ x ∧ x < i.2 := by
  rcases List.eq_nil_or_concat merged with rfl | ⟨init, last, rfl⟩
  · simp [absorb_nil, Covers]
  · rw [List.concat_eq_append] at hb ⊢
    have hle : last.1 ≤ i.1 := hb last List.getLast?_concat
    rw [absorb_concat]
    split
    · rw [covers_concat, covers_concat]
      grind
    · rw [covers_concat]

theorem spans_absorb (hb : Begun merged i.1) (h : Spans merged j ∨ j = i) :
    Spans (absorb merged i) j := by
  rcases List.eq_nil_or_concat merged with rfl | ⟨init, last, rfl⟩
  · rcases h with ⟨m, hm, -⟩ | rfl
    · cases hm
    · exact ⟨j, List.mem_cons_self, Nat.le_refl _, Nat.le_refl _⟩
  · rw [List.concat_eq_append] at hb h ⊢
    have hle : last.1 ≤ i.1 := hb last List.getLast?_concat
    rw [absorb_concat]
    split
    · rcases h with ⟨m, hm, hm₁, hm₂⟩ | rfl
      · rcases List.mem_append.mp hm with hm | hm
        · exact ⟨m, List.mem_append_left _ hm, hm₁, hm₂⟩
        · cases List.mem_singleton.mp hm
          exact ⟨_, List.mem_append_right _ List.mem_cons_self, hm₁,
            Nat.le_trans hm₂ (Nat.le_max_left _ _)⟩
      · exact ⟨_, List.mem_append_right _ List.mem_cons_self, hle, Nat.le_max_right _ _⟩
    · rcases h with ⟨m, hm, hm₁, hm₂⟩ | rfl
      · exact ⟨m, List.mem_append_left _ hm, hm₁, hm₂⟩
      · exact ⟨j, List.mem_append_right _ List.mem_cons_self, Nat.le_refl _, Nat.le_refl _⟩

/-! ### The merge -/

/-- What a merge of ordered intervals goes on with. -/
structure Ahead (merged is : List (Nat × Nat)) : Prop where
  proper : ∀ i ∈ is, i.1 < i.2
  ordered : is.Pairwise fun i j => i.1 ≤ j.1
  begun : ∀ i ∈ is, Begun merged i.1

theorem Ahead.absorb (h : Ahead merged (i :: is)) : Ahead (absorb merged i) is where
  proper j hj := h.proper j (List.mem_cons_of_mem _ hj)
  ordered := (List.pairwise_cons.mp h.ordered).2
  begun j hj last hlast :=
    Nat.le_trans (begun_absorb (h.begun i List.mem_cons_self) last hlast)
      ((List.pairwise_cons.mp h.ordered).1 j hj)

theorem Ahead.start (hproper : ∀ i ∈ is, i.1 < i.2) (hordered : is.Pairwise fun i j => i.1 ≤ j.1) :
    Ahead [] is :=
  ⟨hproper, hordered, fun _ _ _ h => by cases h⟩

theorem Separated.foldl_absorb (hm : Separated merged) (h : Ahead merged is) :
    Separated (is.foldl Intervals.absorb merged) := by
  induction is generalizing merged with
  | nil => exact hm
  | cons i is ih =>
    exact ih (hm.absorb (h.proper i List.mem_cons_self) (h.begun i List.mem_cons_self)) h.absorb

theorem covers_foldl_absorb (h : Ahead merged is) (x : Nat) :
    Covers (is.foldl absorb merged) x ↔ Covers merged x ∨ Covers is x := by
  induction is generalizing merged with
  | nil => simp [Covers]
  | cons i is ih =>
    rw [List.foldl_cons, ih h.absorb, covers_absorb (h.begun i List.mem_cons_self), or_assoc]
    simp [Covers, or_and_right, exists_or]

theorem spans_foldl_absorb (h : Ahead merged is) (hj : Spans merged j ∨ j ∈ is) :
    Spans (is.foldl absorb merged) j := by
  induction is generalizing merged with
  | nil => exact hj.resolve_right List.not_mem_nil
  | cons i is ih =>
    refine ih h.absorb ?_
    rcases hj with hj | hj
    · exact .inl (spans_absorb (h.begun i List.mem_cons_self) (.inl hj))
    · rcases List.mem_cons.mp hj with rfl | hj
      · exact .inl (spans_absorb (h.begun j List.mem_cons_self) (.inr rfl))
      · exact .inr hj

/-! ### Slices -/

section

variable {α : Type}

/-- The part of a sequence from `offset` on, of the given length. -/
def slice (bytes : List α) (offset len : Nat) : List α := (bytes.drop offset).take len

theorem length_slice {bytes : List α} {offset len : Nat} (h : offset + len ≤ bytes.length) :
    (slice bytes offset len).length = len := by
  rw [slice, List.length_take, List.length_drop]
  omega

theorem slice_slice (bytes : List α) {offset len k n : Nat} (h : k + n ≤ len) :
    slice (slice bytes offset len) k n = slice bytes (offset + k) n := by
  rw [slice, slice, slice, List.drop_take, List.drop_drop, List.take_take, Nat.min_eq_left]
  omega

theorem slice_append_left {xs : List α} (ys : List α) {k n : Nat} (h : k + n ≤ xs.length) :
    slice (xs ++ ys) k n = slice xs k n := by
  rw [slice, slice, List.drop_append_of_le_length (by omega), List.take_append_of_le_length]
  rw [List.length_drop]
  omega

theorem slice_append_right (xs ys : List α) (k n : Nat) :
    slice (xs ++ ys) (xs.length + k) n = slice ys k n := by
  rw [slice, slice, List.drop_append, List.drop_eq_nil_of_le (Nat.le_add_right _ _),
    Nat.add_sub_cancel_left, List.nil_append]

end

end Orchestrator.Lib.Intervals
