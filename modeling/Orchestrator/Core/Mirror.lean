import Orchestrator.Core.Types
import Orchestrator.Lib.Collections

/-! # Core — Mirror

The selection-side mirror of the scorer's cell counts and the map that routes a state hash
to the node that first had it. Both are finite maps; a count that would leave `u32` makes
`bump` panic, which the model returns as `none`.
-/

namespace Orchestrator.Core

open Lib

structure CellMirror where
  counts : Std.ExtTreeMap CellKey Nat

namespace CellMirror

def new : CellMirror := ⟨∅⟩

def count (m : CellMirror) (cell : CellKey) : Nat := m.counts[cell]?.getD 0

/-- `bump_by`; `none` is the panic on overflow. -/
def bumpBy (m : CellMirror) (cell : CellKey) (amount : Nat) : Option CellMirror :=
  if amount = 0 then some m
  else (checkedAdd32 (m.count cell) amount).map fun n => ⟨m.counts.insert cell n⟩

def bump (m : CellMirror) (cell : CellKey) : Option CellMirror := m.bumpBy cell 1

/-- `CellMirror::novelty`. -/
def novelty {F : Type} [Float64 F] (m : CellMirror) (cell : CellKey) : F :=
  Float64.noveltyOfCount (m.count cell)

def resetForRebin (_ : CellMirror) : CellMirror := ⟨∅⟩

def sortedCounts (m : CellMirror) : List (CellKey × Nat) := m.counts.toList

/-- One step of `from_sorted_counts`, which skips zero counts. -/
def insertCount (m : CellMirror) (entry : CellKey × Nat) : CellMirror :=
  if entry.2 ≠ 0 then ⟨m.counts.insert entry.1 entry.2⟩ else m

def fromSortedCounts (counts : List (CellKey × Nat)) : CellMirror :=
  counts.foldl insertCount new

theorem count_bump {m m' : CellMirror} {cell : CellKey} (h : m.bump cell = some m')
    (c : CellKey) : m'.count c = m.count c + if c = cell then 1 else 0 := by
  simp only [bump, bumpBy, checkedAdd32, Nat.one_ne_zero, if_false, Option.map_eq_some_iff] at h
  obtain ⟨n, hn, rfl⟩ := h
  split at hn
  · cases hn
    simp only [count, getElem?_insert_if]
    by_cases hc : c = cell
    · subst hc
      simp
    · simp [hc]
  · cases hn

end CellMirror

structure SeenMap where
  map : Std.ExtTreeMap StateHash NodeId

namespace SeenMap

def new : SeenMap := ⟨∅⟩

def get (s : SeenMap) (hash : StateHash) : Option NodeId := s.map[hash]?

/-- `SeenMap::insert` keeps the first node of a hash. -/
def insert (s : SeenMap) (hash : StateHash) (node : NodeId) : SeenMap :=
  match s.get hash with
  | some _ => s
  | none => ⟨s.map.insert hash node⟩

def contains (s : SeenMap) (hash : StateHash) : Bool := (s.get hash).isSome

def sortedEntries (s : SeenMap) : List (StateHash × NodeId) := s.map.toList

/-- One step of `from_sorted_entries`. -/
def insertEntry (s : SeenMap) (entry : StateHash × NodeId) : SeenMap := s.insert entry.1 entry.2

def fromSortedEntries (entries : List (StateHash × NodeId)) : SeenMap :=
  entries.foldl insertEntry new

@[simp] theorem get_new (hash : StateHash) : new.get hash = none := by
  simp [new, get]

theorem get_insert (s : SeenMap) (hash : StateHash) (node : NodeId) (h : StateHash) :
    (s.insert hash node).get h = if h = hash then some ((s.get hash).getD node) else s.get h := by
  unfold insert
  split
  · rename_i n hn
    by_cases hh : h = hash
    · subst hh
      simp [hn]
    · simp [hh]
  · rename_i hn
    simp only [get, getElem?_insert_if]
    simp only [get] at hn
    simp [hn]

theorem contains_iff (s : SeenMap) (hash : StateHash) :
    s.contains hash = true ↔ ∃ id, s.get hash = some id :=
  Option.isSome_iff_exists

theorem contains_insert (s : SeenMap) (hash : StateHash) (node : NodeId) (h : StateHash) :
    (s.insert hash node).contains h = true ↔ s.contains h = true ∨ h = hash := by
  rw [contains, contains, get_insert]
  by_cases hh : h = hash
  · simp [hh]
  · simp [hh]

/-- Inserting any list of entries adds nothing but entries of it. -/
theorem get_foldl_insert_mem {entries : List (StateHash × NodeId)} {s : SeenMap} {hash : StateHash}
    {id : NodeId} (h : (entries.foldl insertEntry s).get hash = some id) :
    s.get hash = some id ∨ (hash, id) ∈ entries := by
  induction entries generalizing s with
  | nil => exact .inl h
  | cons e rest ih =>
    rcases ih h with h | h
    · rw [insertEntry, get_insert] at h
      split at h
      · rename_i hh
        cases hget : s.get e.1 with
        | none =>
          rw [hget] at h
          cases h
          exact .inr (hh ▸ List.mem_cons_self)
        | some first =>
          rw [hget] at h
          cases h
          exact .inl (hh ▸ hget)
      · exact .inl h
    · exact .inr (List.mem_cons_of_mem _ h)

theorem contains_foldl_insert (entries : List (StateHash × NodeId)) (s : SeenMap)
    (hash : StateHash) :
    (entries.foldl insertEntry s).contains hash = true ↔
      s.contains hash = true ∨ entries.any (·.1 = hash) = true := by
  induction entries generalizing s with
  | nil => simp
  | cons e rest ih =>
    rw [List.foldl_cons, ih, insertEntry, contains_insert, or_assoc, List.any_cons,
      Bool.or_eq_true, decide_eq_true_iff]
    exact or_congr_right (or_congr_left eq_comm)

end SeenMap
end Orchestrator.Core
