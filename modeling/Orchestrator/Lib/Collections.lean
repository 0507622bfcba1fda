import Mathlib.Algebra.Ring.Nat
import Mathlib.Data.List.Induction
import Mathlib.Data.List.Sort

/-! # Lib — Collections

Lookups after the updates of an arena (append an element, change one in place, or both at
once) and of a finite map, in the form the model's proofs rewrite with.
-/

namespace Orchestrator.Lib

section Vectors

variable {α : Type}

theorem getElem?_modify_concat (l : List α) (p : Nat) (f : α → α) (x : α) (i : Nat) :
    (l.modify p f ++ [x])[i]? =
      if i = l.length then some x else if i = p then l[i]?.map f else l[i]? := by
  rw [List.getElem?_append]
  grind [List.length_modify]

theorem getElem?_modify_if (l : List α) (p : Nat) (f : α → α) (i : Nat) :
    (l.modify p f)[i]? = if i = p then l[i]?.map f else l[i]? := by
  rw [List.getElem?_modify]
  grind

variable {l : List α} {x y : α} {i : Nat} {β : Type} {k : α} {f : α → Option β}

theorem getElem?_concat_eq_some (h : (l ++ [x])[i]? = some y) :
    l[i]? = some y ∨ i = l.length ∧ x = y := by
  rw [List.getElem?_append] at h
  split at h
  · exact .inl h
  · obtain ⟨hi, hx⟩ := List.getElem?_eq_some_iff.mp h
    rw [List.length_singleton] at hi
    refine .inr ⟨by omega, ?_⟩
    simpa using hx

theorem getElem?_set_eq_some {j : Nat} (h : (l.set i x)[j]? = some y) :
    j = i ∧ x = y ∨ j ≠ i ∧ l[j]? = some y := by
  by_cases hj : j = i
  · subst hj
    obtain ⟨hlt, hx⟩ := List.getElem?_eq_some_iff.mp h
    exact .inl ⟨rfl, by simpa using hx⟩
  · rw [List.getElem?_set_ne (Ne.symm hj)] at h
    exact .inr ⟨hj, h⟩

/-- A change in place that a projection does not see leaves the projected vector alone. -/
theorem map_modify_of_eq {f : α → α} {g : α → β} (l : List α) (p : Nat) (h : ∀ x, g (f x) = g x) :
    (l.modify p f).map g = l.map g := by
  apply List.ext_getElem?
  intro i
  rw [List.getElem?_map, List.getElem?_map, getElem?_modify_if]
  split
  · rw [Option.map_map]
    exact congrArg (fun k => l[i]?.map k) (funext h)
  · rfl

/-- Replacing an element changes a sum by the difference of the two. -/
theorem sum_map_set_add (f : α → Nat) (h : l[i]? = some x) (y : α) :
    ((l.set i y).map f).sum + f x = (l.map f).sum + f y := by
  induction l generalizing i with
  | nil => cases h
  | cons a l ih =>
    cases i with
    | zero =>
      cases h
      simp only [List.set_cons_zero, List.map_cons, List.sum_cons]
      omega
    | succ i =>
      have := ih h
      simp only [List.set_cons_succ, List.map_cons, List.sum_cons]
      omega

/-- `x` occurs in `l` and `y` occurs after it. -/
def Precedes (l : List α) (x y : α) : Prop := [x, y].Sublist l

instance [DecidableEq α] (l : List α) (x y : α) : Decidable (Precedes l x y) :=
  inferInstanceAs (Decidable ([x, y].Sublist l))

namespace Precedes

variable {l : List α} {x y z e : α}

theorem mem_left (h : Precedes l x y) : x ∈ l := List.Sublist.mem (by simp) h

theorem concat : Precedes (l ++ [e]) x y ↔ Precedes l x y ∨ x ∈ l ∧ y = e := by
  constructor
  · intro h
    obtain ⟨l₁, l₂, hl, h₁, h₂⟩ := List.sublist_append_iff.mp h
    rcases List.sublist_singleton.mp h₂ with rfl | rfl
    · rw [List.append_nil] at hl
      subst hl
      exact .inl h₁
    · have hl : [x] ++ [y] = l₁ ++ [e] := hl
      obtain ⟨rfl, hy⟩ := List.append_inj' hl rfl
      obtain rfl := List.singleton_inj.mp hy
      exact .inr ⟨List.singleton_sublist.mp h₁, rfl⟩
  · rintro (h | ⟨hx, rfl⟩)
    · exact h.trans (List.sublist_append_left ..)
    · exact (List.singleton_sublist.mpr hx).append (.refl [y])

/-- What does not precede `y` comes after everything that does. -/
theorem of_not (h : Precedes l x y) (hz : z ∈ l) (hne : z ≠ y) (hzy : ¬ Precedes l z y) :
    Precedes l x z := by
  induction l using List.reverseRecOn with
  | nil => cases hz
  | append_singleton l e ih =>
    rcases concat.mp h with h' | ⟨hx, rfl⟩
    · rcases List.mem_append.mp hz with hz | hz
      · exact concat.mpr (.inl (ih h' hz fun hp => hzy (concat.mpr (.inl hp))))
      · exact concat.mpr (.inr ⟨h'.mem_left, List.mem_singleton.mp hz⟩)
    · rcases List.mem_append.mp hz with hz | hz
      · exact absurd (concat.mpr (.inr ⟨hz, rfl⟩)) hzy
      · exact absurd (List.mem_singleton.mp hz) hne

end Precedes

/-- A key that is not in an association list is not removed from it. -/
theorem filter_key_of_notMem [DecidableEq α] {l : List (α × β)} (h : k ∉ l.map Prod.fst) :
    l.filter (·.1 != k) = l := by
  refine List.filter_eq_self.mpr fun e he => ?_
  have hne : e.1 ≠ k := fun hk => h (hk ▸ List.mem_map_of_mem he)
  simpa using hne

/-- Removing a key that no two elements share removes one element. -/
theorem length_filter_key {κ : Type} [DecidableEq κ] {f : α → κ} {a : α} (hn : (l.map f).Nodup)
    (h : a ∈ l) : (l.filter (f · ≠ f a)).length + 1 = l.length := by
  have hone : l.countP (f · = f a) = 1 := by
    have hcount := List.count_eq_one_of_mem hn (List.mem_map_of_mem (f := f) h)
    rw [List.count, List.countP_map] at hcount
    exact hcount
  rw [List.length_eq_countP_add_countP (f · = f a) (l := l), hone, Nat.add_comm,
    ← List.countP_eq_length_filter]
  simp

/-- Removing a key that is in an association list without repetitions removes it once. -/
theorem perm_of_lookup [DecidableEq α] {l : List (α × β)} {v : β} (h : l.lookup k = some v)
    (hn : (l.map Prod.fst).Nodup) :
    (k, v) ∈ l ∧ (l.map Prod.fst).Perm (k :: (l.filter (·.1 != k)).map Prod.fst) := by
  induction l with
  | nil => cases h
  | cons e l ih =>
    obtain ⟨hnew, hn⟩ := List.nodup_cons.mp hn
    by_cases hk : k = e.1
    · subst hk
      rw [List.lookup_cons, BEq.rfl] at h
      cases h
      refine ⟨List.mem_cons_self, ?_⟩
      rw [List.filter_cons_of_neg (by simp), filter_key_of_notMem hnew]
      rfl
    · rw [List.lookup_cons, beq_false_of_ne hk] at h
      obtain ⟨hmem, hperm⟩ := ih h hn
      refine ⟨List.mem_cons_of_mem _ hmem, ?_⟩
      rw [List.filter_cons_of_pos (by simpa using Ne.symm hk)]
      exact (hperm.cons e.1).trans (List.Perm.swap ..)

theorem lookup_isSome_of_mem [DecidableEq α] {l : List (α × β)} (h : k ∈ l.map Prod.fst) :
    (l.lookup k).isSome := by
  induction l with
  | nil => cases h
  | cons e l ih =>
    rw [List.lookup_cons]
    by_cases hk : k = e.1
    · simp [hk]
    · rw [beq_false_of_ne hk]
      exact ih ((List.mem_cons.mp h).resolve_left hk)

theorem lookup_of_mem [DecidableEq α] {l : List (α × β)} {v : β} (hn : (l.map Prod.fst).Nodup)
    (h : (k, v) ∈ l) : l.lookup k = some v := by
  induction l with
  | nil => cases h
  | cons e l ih =>
    obtain ⟨hnew, hn⟩ := List.nodup_cons.mp hn
    rw [List.lookup_cons]
    rcases List.mem_cons.mp h with rfl | h
    · rw [BEq.rfl]
    · have hk : k ≠ e.1 := fun hk => hnew (hk ▸ List.mem_map_of_mem h)
      rw [beq_false_of_ne hk]
      exact ih hn h

/-- Of lists that are empty but for one, that one is the whole. -/
theorem flatten_eq_of_alone {l : List (List α)} {x : List α} (h : l[i]? = some x)
    (hl : ∀ (j : Nat) (y : List α), l[j]? = some y → j ≠ i → y = []) : l.flatten = x := by
  induction l generalizing i with
  | nil => cases h
  | cons a l ih =>
    cases i with
    | zero =>
      cases h
      have hrest : l.flatten = [] := List.flatten_eq_nil_iff.mpr fun y hy => by
        obtain ⟨j, hj⟩ := List.mem_iff_getElem?.mp hy
        exact hl (j + 1) y hj (Nat.succ_ne_zero j)
      rw [List.flatten_cons, hrest, List.append_nil]
    | succ i =>
      rw [List.flatten_cons, hl 0 a rfl (Nat.succ_ne_zero i).symm, List.nil_append]
      exact ih h fun j y hj hne => hl (j + 1) y hj (by omega)

/-- A longer list whose first elements look the same selects the same first elements. -/
theorem filterMap_prefix {l' : List α}
    (h : ∀ (i : Nat) (a : α), l[i]? = some a → ∃ b, l'[i]? = some b ∧ f b = f a) :
    l.filterMap f <+: l'.filterMap f := by
  induction l generalizing l' with
  | nil => exact List.nil_prefix
  | cons a rest ih =>
    obtain ⟨b, hb, hf⟩ := h 0 a rfl
    cases l' with
    | nil => cases hb
    | cons b' rest' =>
      obtain rfl : b' = b := Option.some.inj hb
      have hrest := ih fun i x hx => h (i + 1) x hx
      rw [List.filterMap_cons, List.filterMap_cons, hf]
      cases f a with
      | none => exact hrest
      | some y => exact (List.prefix_cons_inj y).mpr hrest

/-- Where a selection has no repetition, no key is selected twice. -/
theorem ne_split_of_nodup {a b c : List α} {k : β} (h : (l.filterMap f).Nodup) (hx : f x = some k)
    (hy : f y = some k) : l ≠ a ++ x :: (b ++ y :: c) := by
  rintro rfl
  simp [hx, hy, List.nodup_append, List.nodup_cons] at h

/-- A key that a selection without repetition selects has one place in the list. -/
theorem split_unique_of_nodup {a b a' b' : List α} {k : β} (h : (l.filterMap f).Nodup)
    (hx : f x = some k) (hy : f y = some k) (e : l = a ++ x :: b) (e' : l = a' ++ y :: b') :
    a = a' ∧ x = y := by
  rcases List.append_eq_append_iff.mp (e.symm.trans e') with ⟨c, rfl, hc⟩ | ⟨c, rfl, hc⟩
  · cases c with
    | nil => simp_all
    | cons z c =>
      obtain ⟨rfl, rfl⟩ := List.cons.inj hc
      exact absurd e (ne_split_of_nodup h hx hy)
  · cases c with
    | nil => simp_all
    | cons z c =>
      obtain ⟨rfl, rfl⟩ := List.cons.inj hc
      exact absurd e' (ne_split_of_nodup h hy hx)

end Vectors

section Maps

variable {κ ν : Type} [Ord κ] [Std.TransOrd κ] [Std.LawfulEqOrd κ] [DecidableEq κ]

theorem getElem?_insert_if (m : Std.ExtTreeMap κ ν) (k : κ) (v : ν) (a : κ) :
    (m.insert k v)[a]? = if a = k then some v else m[a]? := by
  rw [Std.ExtTreeMap.getElem?_insert]
  by_cases h : a = k
  · subst h
    simp
  · have hcmp : compare k a ≠ .eq := fun he => h (Std.LawfulEqOrd.eq_of_compare he).symm
    simp [h, hcmp]

theorem getElem?_erase_if (m : Std.ExtTreeMap κ ν) (k : κ) (a : κ) :
    (m.erase k)[a]? = if a = k then none else m[a]? := by
  rw [Std.ExtTreeMap.getElem?_erase]
  by_cases h : a = k
  · subst h
    simp
  · have hcmp : compare k a ≠ .eq := fun he => h (Std.LawfulEqOrd.eq_of_compare he).symm
    simp [h, hcmp]

omit [Std.LawfulEqOrd κ] [DecidableEq κ] in
/-- The values of a map, by its entries. -/
theorem values_eq_map_toList (m : Std.ExtTreeMap κ ν) : m.values = m.toList.map Prod.snd := by
  obtain ⟨⟨q⟩⟩ := m
  induction q using Quotient.ind with
  | _ t =>
    change t.inner.values = (Std.DTreeMap.Internal.Impl.Const.toList t.inner).map Prod.snd
    rw [Std.DTreeMap.Internal.Impl.values_eq_map_snd,
      Std.DTreeMap.Internal.Impl.Const.toList_eq_toListModel_map, List.map_map]
    rfl

/-- A map collected from its entries, in any order. -/
theorem ofList_of_perm {l : List (κ × ν)} (m : Std.ExtTreeMap κ ν) (h : l.Perm m.toList) :
    Std.ExtTreeMap.ofList l = m := by
  have hdistinct : l.Pairwise fun a b => ¬ compare a.1 b.1 = .eq := by
    refine (h.pairwise_iff fun {a b} hab he => hab ?_).mpr Std.ExtTreeMap.distinct_keys_toList
    exact Std.OrientedCmp.eq_symm he
  refine Std.ExtTreeMap.ext_getElem? fun k => ?_
  cases hk : m[k]? with
  | some v =>
    have hmem : (k, v) ∈ l := h.mem_iff.mpr (Std.ExtTreeMap.mem_toList_iff_getElem?_eq_some.mpr hk)
    exact Std.ExtTreeMap.getElem?_ofList_of_mem Std.ReflCmp.compare_self hdistinct hmem
  | none =>
    refine Std.ExtTreeMap.getElem?_ofList_of_contains_eq_false ?_
    rw [Bool.eq_false_iff, Ne, List.contains_iff_mem]
    intro hmem
    obtain ⟨⟨k', v⟩, hv, rfl⟩ := List.mem_map.mp hmem
    have hsome := Std.ExtTreeMap.mem_toList_iff_getElem?_eq_some.mp (h.mem_iff.mp hv)
    rw [hk] at hsome
    cases hsome

end Maps

section DenseMaps

/-! A map whose keys are the numbers below a bound is a list. -/

theorem keys_of_dense {ν : Type} (m : Std.ExtTreeMap Nat ν) {n : Nat} (h : ∀ k, k ∈ m ↔ k < n) :
    m.toList.map (·.1) = List.range n := by
  refine List.Pairwise.eq_of_mem_iff (r := (· < ·)) ?_ List.pairwise_lt_range fun k => ?_
  · rw [List.pairwise_map]
    exact Std.ExtTreeMap.ordered_keys_toList.imp fun h => Nat.compare_eq_lt.mp h
  · rw [List.mem_range, ← h, List.mem_map]
    constructor
    · rintro ⟨⟨k', v⟩, hmem, rfl⟩
      have := Std.ExtTreeMap.mem_toList_iff_getElem?_eq_some.mp hmem
      rw [Std.ExtTreeMap.mem_iff_isSome_getElem?, this]
      rfl
    · intro hk
      obtain ⟨v, hv⟩ := Option.isSome_iff_exists.mp (Std.ExtTreeMap.mem_iff_isSome_getElem?.mp hk)
      exact ⟨(k, v), Std.ExtTreeMap.mem_toList_iff_getElem?_eq_some.mpr hv, rfl⟩

theorem getElem?_values_of_dense {ν : Type} (m : Std.ExtTreeMap Nat ν) {n : Nat}
    (h : ∀ k, k ∈ m ↔ k < n) (i : Nat) : (m.toList.map (·.2))[i]? = m[i]? := by
  have hkeys := keys_of_dense m h
  rw [List.getElem?_map]
  cases hi : m.toList[i]? with
  | none =>
    have hlen : n ≤ i := by
      have := congrArg List.length hkeys
      rw [List.length_map, List.length_range] at this
      exact this ▸ List.getElem?_eq_none_iff.mp hi
    have : i ∉ m := fun hmem => Nat.not_lt.mpr hlen ((h i).mp hmem)
    rw [Std.ExtTreeMap.getElem?_eq_none this]
    rfl
  | some entry =>
    obtain ⟨k, v⟩ := entry
    have hk : (List.range n)[i]? = some k := by rw [← hkeys, List.getElem?_map, hi]; rfl
    obtain ⟨-, rfl⟩ : i < n ∧ i = k := by
      simpa [List.getElem?_range, List.getElem?_eq_some_iff] using hk
    exact (Std.ExtTreeMap.mem_toList_iff_getElem?_eq_some.mp (List.mem_of_getElem? hi)).symm

end DenseMaps
end Orchestrator.Lib
