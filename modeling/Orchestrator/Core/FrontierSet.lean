import Mathlib.Data.Finset.Card
import Orchestrator.Core.Frontier

/-! # Core — The frontier as a finite set

`Frontier` carries the agreement of its vector and its index. Here the two are taken as the
source keeps them, a vector and a hash map that nothing ties together, and the calls mutate
them in the source's order: a removal takes the id out of the map before it knows whether the
id was there, swaps the last entry into the hole and repairs one position.

* `Fields.Carries`: the two fields hold what a `Frontier` holds. Every call keeps it
  (`Carries.insert`, `Carries.remove`).
* `frontier_is_set`: a history of calls answers as a finite set does.
-/

namespace Orchestrator.Core

open Lib

namespace Frontier

/-- The source's two fields, without the promise that they agree. -/
structure Fields where
  entries : List NodeId
  index : Std.ExtTreeMap NodeId Nat

namespace Fields

/-- `Frontier::new`. -/
def new : Fields := ⟨[], ∅⟩

/-- What a call returns, and the fields it leaves behind. A failed call has run up to its
early return. -/
abbrev Answer := Except (Abort FrontierError) Unit

def insert (f : Fields) (id : NodeId) : Answer × Fields :=
  if id ∈ f.index then (.error (.error (.duplicate id)), f)
  else (.ok (), ⟨f.entries ++ [id], f.index.insert id f.entries.length⟩)

def remove (f : Fields) (id : NodeId) : Answer × Fields :=
  -- `HashMap::remove` answers what it took out, and is made before the `?`
  let index := f.index.erase id
  match f.index[id]? with
  | none => (.error (.error (.missing id)), ⟨f.entries, index⟩)
  | some i =>
    match f.entries[i]? with
    | none => (.error .panic, ⟨f.entries, index⟩)
    | some removed =>
      let entries := swapRemove f.entries i
      -- the `debug_assert_eq!` of debug builds
      if removed ≠ id then (.error .panic, ⟨entries, index⟩)
      else
        match entries[i]? with
        | none => (.ok (), ⟨entries, index⟩)
        | some swapped => (.ok (), ⟨entries, index.insert swapped i⟩)

def contains (f : Fields) (id : NodeId) : Bool := decide (id ∈ f.index)

/-- `sort_unstable` on a copy of the entries. -/
def deterministicEntries (f : Fields) : List NodeId := f.entries.insertionSort (· ≤ ·)

/-! ### The fields of a frontier -/

structure Carries (raw : Fields) (f : Frontier) : Prop where
  entries : raw.entries = f.entries
  index : ∀ id, raw.index[id]? = f.index id

theorem carries_new : new.Carries Frontier.empty :=
  ⟨rfl, fun _ => by rw [new, Std.ExtTreeMap.getElem?_empty]; rfl⟩

section Calls

variable {raw : Fields} {f : Frontier}

theorem Carries.mem_index (h : raw.Carries f) (id : NodeId) : id ∈ raw.index ↔ id ∈ f.entries := by
  rw [Std.ExtTreeMap.mem_iff_isSome_getElem?, h.index]
  exact f.contains_iff id

variable {id : NodeId}

theorem Carries.insert (h : raw.Carries f) (hid : id ∉ f.entries) :
    ∃ f' raw', f.insert id = .ok f' ∧ raw.insert id = (.ok (), raw') ∧ raw'.Carries f' := by
  have hc : f.contains id = false := by
    rw [← Bool.not_eq_true]
    exact fun hc => hid ((f.contains_iff id).mp hc)
  refine ⟨_, _, dif_pos hc, if_neg (fun hm => hid ((h.mem_index id).mp hm)), ?_, fun x => ?_⟩
  · rw [h.entries]
  · rw [getElem?_insert_if, h.entries, h.index]

theorem Carries.insert_mem (h : raw.Carries f) (hid : id ∈ f.entries) :
    raw.insert id = (.error (.error (.duplicate id)), raw) :=
  if_pos ((h.mem_index id).mpr hid)

/-- The three map updates of a removal, looked up at once. -/
theorem Carries.getElem?_erase (h : raw.Carries f) (i : Nat) (x : NodeId) :
    (match (swapRemove f.entries i)[i]? with
      | none => raw.index.erase id
      | some swapped => (raw.index.erase id).insert swapped i)[x]? = f.reindex id i x := by
  rw [reindex]
  cases (swapRemove f.entries i)[i]? with
  | none => rw [if_neg (by simp), getElem?_erase_if, h.index]
  | some swapped =>
    rw [getElem?_insert_if, getElem?_erase_if, h.index]
    simp only [Option.some.injEq, eq_comm]

theorem Carries.remove (h : raw.Carries f) (hid : id ∈ f.entries) :
    ∃ f' raw', f.remove id = .ok f' ∧ raw.remove id = (.ok (), raw') ∧ raw'.Carries f' := by
  obtain ⟨i, hi⟩ := List.mem_iff_getElem?.mp hid
  have hidx : f.index id = some i := (f.indexed id i).mpr hi
  refine ⟨⟨swapRemove f.entries i, f.reindex id i, f.indexed_reindex hidx⟩, ⟨_, _⟩, ?_, ?_,
    rfl, fun x => h.getElem?_erase i x⟩
  · unfold Frontier.remove
    split
    · rename_i hn
      rw [hidx] at hn
      cases hn
    · rename_i j hj
      rw [hidx] at hj
      cases hj
      rfl
  · unfold Fields.remove
    simp only [h.index, hidx, h.entries, hi, ne_eq, not_true_eq_false, if_false]
    cases (swapRemove f.entries i)[i]? <;> rfl

theorem Carries.remove_notMem (h : raw.Carries f) (hid : id ∉ f.entries) :
    raw.remove id = (.error (.error (.missing id)), raw) := by
  have hn : id ∉ raw.index := fun hm => hid ((h.mem_index id).mp hm)
  have hkeep : raw.index.erase id = raw.index := by
    apply Std.ExtTreeMap.ext_getElem?
    intro x
    rw [getElem?_erase_if]
    split
    · rename_i hx
      rw [hx, Std.ExtTreeMap.getElem?_eq_none hn]
    · rfl
  rw [Fields.remove, Std.ExtTreeMap.getElem?_eq_none hn]
  simp only [hkeep]

end Calls

/-! ### Histories of calls -/

inductive Call where
  | insert (id : NodeId)
  | remove (id : NodeId)

def call (f : Fields) : Call → Answer × Fields
  | .insert id => f.insert id
  | .remove id => f.remove id

/-- The answers of a history of calls, and the fields after it. -/
def calls (f : Fields) : List Call → List Answer × Fields
  | [] => ([], f)
  | c :: rest =>
    let (answer, f') := f.call c
    let (answers, f'') := f'.calls rest
    (answer :: answers, f'')

end Fields

/-- A call on an abstract set: a member is not inserted again, a non-member is not removed,
and a refused call leaves the set as it is. -/
def Fields.Call.onSet (s : Finset NodeId) : Fields.Call → Fields.Answer × Finset NodeId
  | .insert id =>
    if id ∈ s then (.error (.error (.duplicate id)), s) else (.ok (), Insert.insert id s)
  | .remove id =>
    if id ∈ s then (.ok (), s.erase id) else (.error (.error (.missing id)), s)

def setCalls (s : Finset NodeId) : List Fields.Call → List Fields.Answer × Finset NodeId
  | [] => ([], s)
  | c :: rest =>
    let (answer, s') := c.onSet s
    let (answers, s'') := setCalls s' rest
    (answer :: answers, s'')

namespace Fields

/-- The fields hold a frontier whose entries are the set. -/
def Holds (raw : Fields) (s : Finset NodeId) : Prop :=
  ∃ f, raw.Carries f ∧ ∀ id, id ∈ f.entries ↔ id ∈ s

variable {raw : Fields} {s : Finset NodeId}

theorem Holds.call (h : raw.Holds s) (c : Call) :
    (raw.call c).1 = (c.onSet s).1 ∧ (raw.call c).2.Holds (c.onSet s).2 := by
  obtain ⟨f, hf, hs⟩ := h
  cases c with
  | insert id =>
    by_cases hid : id ∈ s
    · simp only [Fields.call, Call.onSet, if_pos hid, hf.insert_mem ((hs id).mpr hid)]
      exact ⟨trivial, f, hf, hs⟩
    · obtain ⟨f', raw', hins, hraw, hf'⟩ := hf.insert (fun hm => hid ((hs id).mp hm))
      simp only [Fields.call, Call.onSet, if_neg hid, hraw]
      refine ⟨trivial, f', hf', fun x => ?_⟩
      rw [mem_insert hins, hs, Finset.mem_insert, or_comm]
  | remove id =>
    by_cases hid : id ∈ s
    · obtain ⟨f', raw', hrem, hraw, hf'⟩ := hf.remove ((hs id).mpr hid)
      simp only [Fields.call, Call.onSet, if_pos hid, hraw]
      refine ⟨trivial, f', hf', fun x => ?_⟩
      rw [mem_remove hrem, hs, Finset.mem_erase, and_comm]
    · simp only [Fields.call, Call.onSet, if_neg hid,
        hf.remove_notMem (fun hm => hid ((hs id).mp hm))]
      exact ⟨trivial, f, hf, hs⟩

theorem Holds.calls (h : raw.Holds s) (cs : List Call) :
    (raw.calls cs).1 = (setCalls s cs).1 ∧ (raw.calls cs).2.Holds (setCalls s cs).2 := by
  induction cs generalizing raw s with
  | nil => exact ⟨rfl, h⟩
  | cons c rest ih =>
    obtain ⟨hans, hstep⟩ := h.call c
    obtain ⟨hrest, hend⟩ := ih hstep
    exact ⟨congrArg₂ List.cons hans hrest, hend⟩

theorem Holds.deterministicEntries (h : raw.Holds s) :
    raw.deterministicEntries.SortedLT ∧ ∀ id, id ∈ raw.deterministicEntries ↔ id ∈ s := by
  obtain ⟨f, hf, hs⟩ := h
  rw [Fields.deterministicEntries, hf.entries]
  have hnodup : (f.entries.insertionSort (· ≤ ·)).Nodup :=
    (List.perm_insertionSort _ _).nodup_iff.mpr f.nodup
  refine ⟨List.sortedLE_insertionSort.sortedLT_of_nodup hnodup, fun id => ?_⟩
  rw [List.mem_insertionSort, hs]

end Fields

/-- After any history of calls, answered or refused, the frontier has answered as a finite
set, holds exactly that set, indexes each entry at its position and nothing else, and lists
the set in increasing order. -/
theorem frontier_is_set (cs : List Fields.Call) :
    let raw := (Fields.new.calls cs).2
    let s := (setCalls ∅ cs).2
    (Fields.new.calls cs).1 = (setCalls ∅ cs).1 ∧
    (∀ id, raw.contains id = true ↔ id ∈ s) ∧
    (∀ id, id ∈ raw.entries ↔ id ∈ s) ∧ raw.entries.length = s.card ∧
    (∀ (id : NodeId) (i : Nat), raw.index[id]? = some i ↔ raw.entries[i]? = some id) ∧
    raw.deterministicEntries.SortedLT ∧ (∀ id, id ∈ raw.deterministicEntries ↔ id ∈ s) := by
  intro raw s
  have hstart : Fields.new.Holds ∅ :=
    ⟨Frontier.empty, Fields.carries_new, fun id => by simp [Frontier.empty]⟩
  obtain ⟨hans, hholds⟩ := hstart.calls cs
  have hlist := hholds.deterministicEntries
  obtain ⟨f, hf, hs⟩ : raw.Holds s := hholds
  refine ⟨hans, fun id => ?_, fun id => ?_, ?_, fun id i => ?_, hlist⟩
  · rw [Fields.contains, decide_eq_true_iff, hf.mem_index, hs]
  · rw [hf.entries, hs]
  · have hset : f.entries.toFinset = s := Finset.ext fun id => by rw [List.mem_toFinset, hs]
    rw [hf.entries, ← hset, List.toFinset_card_of_nodup f.nodup]
  · rw [hf.index, hf.entries]
    exact f.indexed id i

end Frontier
end Orchestrator.Core
