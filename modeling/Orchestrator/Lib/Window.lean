import Orchestrator.Lib.Collections

/-! # Lib — Windows

Maps with numbered entries of which a writer adds the next one and drops old ones. From some
number on nothing is missing: the entries there are exactly those below the next number.
Below it, what an interrupted clean-up left may or may not be one segment.

* `Window.insert`, `Window.erase`, `Window.raise`: what the writer does to a window.
* `Cleared.none_below_iff`: a clean-up that goes down to the first gap leaves nothing exactly
  when there was one segment.
-/

namespace Orchestrator.Lib

variable {ν : Type} {m m' : Std.ExtTreeMap Nat ν} {low top k : Nat} {v : ν}

/-- From `low` on, the keys of a map are the numbers below `top`. -/
structure Window (m : Std.ExtTreeMap Nat ν) (low top : Nat) : Prop where
  le : low ≤ top
  mem : ∀ k, low ≤ k → (m[k]?.isSome = true ↔ k < top)

/-- Below `high`, the keys of a map are one segment that ends just below `high`. -/
def Segment (m : Std.ExtTreeMap Nat ν) (high : Nat) : Prop :=
  ∀ k j, k ≤ j → j < high → m[k]?.isSome = true → m[j]?.isSome = true

namespace Window

theorem of_empty (h : ∀ k : Nat, m[k]? = none) (n : Nat) : Window m n n :=
  ⟨Nat.le_refl n, fun k hk => by simp [h k, hk]⟩

theorem congr (h : Window m low top) (hm : ∀ k, low ≤ k → m'[k]? = m[k]?) : Window m' low top :=
  ⟨h.le, fun k hk => by rw [hm k hk, h.mem k hk]⟩

theorem raise {low' : Nat} (h : Window m low top) (hl : low ≤ low') (ht : low' ≤ top) :
    Window m low' top :=
  ⟨ht, fun k hk => h.mem k (hl.trans hk)⟩

theorem insert (h : Window m low top) (ht : k ≤ top) :
    Window (m.insert k v) low (max top (k + 1)) := by
  refine ⟨h.le.trans (Nat.le_max_left _ _), fun j hj => ?_⟩
  rw [getElem?_insert_if]
  split
  · rename_i heq
    simp [heq]
  · rename_i hne
    rw [h.mem j hj]
    omega

theorem erase (h : Window m low top) (hk : k < low) : Window (m.erase k) low top := by
  refine h.congr fun j hj => ?_
  rw [getElem?_erase_if, if_neg (by omega)]

/-- The next number is not in use. -/
theorem top_unused (h : Window m low top) (hk : top ≤ k) : m[k]? = none := by
  by_contra hne
  exact absurd ((h.mem k (h.le.trans hk)).mp (Option.isSome_iff_ne_none.mpr hne)) (by omega)

theorem top_eq {top' : Nat} (h : Window m low top) (h' : Window m low top') : top = top' := by
  rcases Nat.lt_trichotomy top top' with hlt | heq | hlt
  · exact absurd ((h.mem top h.le).mp ((h'.mem top h.le).mpr hlt)) (Nat.lt_irrefl _)
  · exact heq
  · exact absurd ((h'.mem top' h'.le).mp ((h.mem top' h'.le).mpr hlt)) (Nat.lt_irrefl _)

end Window

/-- What a clean-up from `high` down to the first gap does: it removes the entries from `low`
on, and stops because there is none below. -/
structure Cleared (before after : Std.ExtTreeMap Nat ν) (high low : Nat) : Prop where
  le : low ≤ high
  segment : ∀ k, low ≤ k → k < high → before[k]?.isSome = true
  stops : ∀ k, k + 1 = low → before[k]? = none
  removed : ∀ k, after[k]? = if low ≤ k ∧ k < high then none else before[k]?

namespace Cleared

variable {before middle after : Std.ExtTreeMap Nat ν} {high : Nat}

/-- There is nothing just below. -/
theorem stop (hgap : ∀ k, k + 1 = high → before[k]? = none)
    (h : ∀ k : Nat, after[k]? = before[k]?) : Cleared before after high high :=
  ⟨Nat.le_refl _, fun k hk hlt => absurd hlt (Nat.not_lt.mpr hk), hgap, fun k => by
    rw [h k, if_neg (by omega)]⟩

/-- The entry just below is removed, and the clean-up goes on from there. -/
theorem step (hsome : before[high]?.isSome = true)
    (hstep : ∀ k : Nat, middle[k]? = if k = high then none else before[k]?)
    (h : Cleared middle after high low) : Cleared before after (high + 1) low := by
  have hle := h.le
  refine ⟨Nat.le_succ_of_le hle, fun k hk hlt => ?_, fun k hk => ?_, fun k => ?_⟩
  · by_cases heq : k = high
    · rw [heq]
      exact hsome
    · have hmem := h.segment k hk (by omega)
      rwa [hstep, if_neg heq] at hmem
  · have hnone := h.stops k hk
    rwa [hstep, if_neg (by omega)] at hnone
  · rw [h.removed, hstep]
    by_cases heq : k = high
    · rw [if_neg (by omega), if_pos heq, if_pos (by omega)]
    · by_cases hk : low ≤ k ∧ k < high
      · rw [if_pos hk, if_pos (by omega)]
      · rw [if_neg hk, if_neg heq, if_neg (by omega)]

theorem none_below_iff (h : Cleared before after high low) :
    (∀ k, k < high → after[k]? = none) ↔ Segment before high := by
  constructor
  · intro hclean k j hkj hj hk
    refine h.segment j (Nat.le_trans ?_ hkj) hj
    by_contra hlt
    have hnone := hclean k (by omega)
    rw [h.removed, if_neg (by omega)] at hnone
    rw [hnone] at hk
    cases hk
  · intro hseg k hk
    rw [h.removed]
    split
    · rfl
    · by_contra hne
      have hlow := h.le
      have hgap := h.stops (low - 1) (by omega)
      have hsome := hseg k (low - 1) (by omega) (by omega) (Option.isSome_iff_ne_none.mpr hne)
      rw [hgap] at hsome
      cases hsome

end Cleared
end Orchestrator.Lib
