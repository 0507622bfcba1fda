import Orchestrator.Lib.Collections

/-! # Lib — Changelog

A source changes keyed values and appends each new value to a log; a replica applies the log in
order, from wherever it has got to.

* `replay`: the values after the entries of a log.
* `Leads.replay_eq`: a replica that is right wherever the log says nothing ends with the values
  the log leads to.
* `view_foldl_insert`, `length_values_filter`: a finite map as a replica, with a value for the
  keys it does not have.
-/

namespace Orchestrator.Lib.Changelog

variable {κ ν : Type} [DecidableEq κ]

/-- The values after the entries of a log, in order. -/
def replay (f : κ → ν) (log : List (κ × ν)) : κ → ν :=
  log.foldl (fun f e => Function.update f e.1 e.2) f

variable {f g now : κ → ν} {log log' : List (κ × ν)} {k : κ}

@[simp] theorem replay_nil : replay f [] = f := rfl

@[simp] theorem replay_cons (e : κ × ν) :
    replay f (e :: log) = replay (Function.update f e.1 e.2) log := rfl

theorem replay_append : replay f (log ++ log') = replay (replay f log) log' :=
  List.foldl_append ..

/-- What a log does not mention it leaves alone. -/
theorem replay_of_notMem (h : k ∉ log.map Prod.fst) : replay f log k = f k := by
  induction log generalizing f with
  | nil => rfl
  | cons e log ih =>
    obtain ⟨hne, hrest⟩ := not_or.mp (List.mem_cons.not.mp h)
    rw [replay_cons, ih hrest, Function.update_of_ne hne]

/-- What a log mentions does not depend on where it starts. -/
theorem replay_of_mem (h : k ∈ log.map Prod.fst) : replay f log k = replay g log k := by
  induction log generalizing f g with
  | nil => cases h
  | cons e log ih =>
    rw [replay_cons, replay_cons]
    by_cases hrest : k ∈ log.map Prod.fst
    · exact ih hrest
    · grind [replay_of_notMem]

/-- Entries that carry the present values change nothing. -/
theorem replay_self (h : ∀ e ∈ log, now e.1 = e.2) : replay now log = now := by
  induction log with
  | nil => rfl
  | cons e log ih =>
    obtain ⟨he, hlog⟩ := List.forall_mem_cons.mp h
    rw [replay_cons, ← he, Function.update_eq_self, ih hlog]

/-- The log leads to these values from some others. -/
def Leads (log : List (κ × ν)) (now : κ → ν) : Prop := ∃ f, replay f log = now

theorem leads_nil : Leads [] now := ⟨now, rfl⟩

namespace Leads

/-- The source goes on. -/
theorem append (h : Leads log now) {now' : κ → ν} (h' : replay now log' = now') :
    Leads (log ++ log') now' := by
  obtain ⟨f, rfl⟩ := h
  exact ⟨f, replay_append.trans h'⟩

/-- The end of a log leads where the log does. -/
theorem drop (h : Leads log now) (n : Nat) : Leads (log.drop n) now := by
  obtain ⟨f, rfl⟩ := h
  refine ⟨replay f (log.take n), ?_⟩
  rw [← replay_append, List.take_append_drop]

/-- A replica that is right wherever the log says nothing catches up. -/
theorem replay_eq (h : Leads log now) (hrest : ∀ k, k ∉ log.map Prod.fst → g k = now k) :
    replay g log = now := by
  obtain ⟨f, rfl⟩ := h
  refine funext fun k => ?_
  by_cases hk : k ∈ log.map Prod.fst
  · exact replay_of_mem hk
  · rw [replay_of_notMem hk, hrest k hk]

end Leads

/-! ### Maps as replicas -/

section Maps

variable [Ord κ] [Std.TransOrd κ] [Std.LawfulEqOrd κ]

/-- The value of a key, with one for the keys that are not there. -/
def view (absent : ν) (m : Std.ExtTreeMap κ ν) (k : κ) : ν := m[k]?.getD absent

theorem view_insert (absent : ν) (m : Std.ExtTreeMap κ ν) (k : κ) (v : ν) :
    view absent (m.insert k v) = Function.update (view absent m) k v := by
  funext a
  rw [view, getElem?_insert_if, Function.update_apply]
  split
  · rfl
  · rfl

theorem view_foldl_insert (absent : ν) (m : Std.ExtTreeMap κ ν) (log : List (κ × ν)) :
    view absent (log.foldl (fun m e => m.insert e.1 e.2) m) = replay (view absent m) log := by
  induction log generalizing m with
  | nil => rfl
  | cons e log ih => rw [List.foldl_cons, ih, view_insert, replay_cons]

omit [DecidableEq κ] in
/-- A map has as many present values as another has keys, if they are at the same keys. -/
theorem length_values_filter {μ : Type} [DecidableEq ν] {absent : ν} {m : Std.ExtTreeMap κ ν}
    {s : Std.ExtTreeMap κ μ} (h : ∀ k, view absent m k ≠ absent ↔ k ∈ s) :
    (m.values.filter (· ≠ absent)).length = s.size := by
  have hkeys : ((m.toList.filter (·.2 ≠ absent)).map Prod.fst).Perm s.keys := by
    refine (List.perm_ext_iff_of_nodup ?_ Std.ExtTreeMap.nodup_keys).mpr fun k => ?_
    · refine (List.filter_sublist.map _).nodup ?_
      rw [Std.ExtTreeMap.map_fst_toList_eq_keys]
      exact Std.ExtTreeMap.nodup_keys
    · rw [Std.ExtTreeMap.mem_keys, ← h, view]
      simp only [List.mem_map, List.mem_filter, Prod.exists,
        Std.ExtTreeMap.mem_toList_iff_getElem?_eq_some]
      grind
  rw [values_eq_map_toList, List.filter_map, List.length_map, ← Std.ExtTreeMap.length_keys,
    ← hkeys.length_eq, List.length_map]
  rfl

end Maps
end Orchestrator.Lib.Changelog
