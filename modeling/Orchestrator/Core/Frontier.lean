import Orchestrator.Core.Tree

/-! # Core — Frontier

The frontier is a vector of node ids with an index from ids to positions, kept in step by
`insert` and `swap_remove`. The structure carries the agreement of the two, so membership,
the absence of repeats and the effect of a removal are read off the vector alone.

* `Frontier.nodup`: no id is repeated.
* `Frontier.mem_insert`, `Frontier.mem_remove`: membership after each operation.
* `Frontier.mem_deterministicCandidates`: what the selection step is offered.
-/

namespace Orchestrator.Core

open Lib

variable {F : Type} [Float64 F]

inductive FrontierError where
  | duplicate (id : NodeId)
  | missing (id : NodeId)
  | unknownNode (id : NodeId)
deriving DecidableEq, Repr

structure Frontier where
  entries : List NodeId
  index : NodeId → Option Nat
  indexed : ∀ id i, index id = some i ↔ entries[i]? = some id

namespace Frontier

def empty : Frontier := ⟨[], fun _ => none, by simp⟩

def withRoot : Frontier where
  entries := [NodeId.root]
  index := fun x => if x = NodeId.root then some 0 else none
  indexed := by
    intro id i
    cases i <;> simp [eq_comm]

/-- `contains_key` on the index. -/
def contains (f : Frontier) (id : NodeId) : Bool := (f.index id).isSome

theorem contains_iff (f : Frontier) (id : NodeId) : f.contains id = true ↔ id ∈ f.entries := by
  rw [contains, Option.isSome_iff_exists, List.mem_iff_getElem?]
  exact exists_congr (f.indexed id)

theorem nodup (f : Frontier) : f.entries.Nodup := by
  rw [List.nodup_iff_injective_get]
  intro i j hij
  have hi := (f.indexed (f.entries.get i) i).mpr (List.getElem?_eq_getElem i.2)
  have hj := (f.indexed (f.entries.get i) j).mpr
    (by rw [hij]; exact List.getElem?_eq_getElem j.2)
  exact Fin.ext (Option.some.inj (hi.symm.trans hj))

/-! ### Insertion -/

variable {id : NodeId} {f f' : Frontier}

theorem indexed_insert (f : Frontier) (h : f.contains id = false) :
    ∀ x i, (if x = id then some f.entries.length else f.index x) = some i ↔
      (f.entries ++ [id])[i]? = some x := by
  have hnone : f.index id = none := by simpa [contains] using h
  intro x i
  have hx := f.indexed x i
  have hid := f.indexed id i
  grind

def insert (f : Frontier) (id : NodeId) : Except FrontierError Frontier :=
  if h : f.contains id = false then
    .ok { entries := f.entries ++ [id]
          index := fun x => if x = id then some f.entries.length else f.index x
          indexed := f.indexed_insert h }
  else .error (.duplicate id)

/-! ### Removal -/

/-- `Vec::swap_remove`: the last entry takes the place of the removed one. -/
def swapRemove (entries : List NodeId) (i : Nat) : List NodeId :=
  match entries.getLast? with
  | none => []
  | some last => (entries.set i last).dropLast

/-- The index after `swap_remove` at `i`: the removed id goes, the swapped one is
re-pointed. -/
def reindex (f : Frontier) (id : NodeId) (i : Nat) (x : NodeId) : Option Nat :=
  if (swapRemove f.entries i)[i]? = some x then some i
  else if x = id then none
  else f.index x

theorem getElem?_swapRemove (entries : List NodeId) {i : Nat} (hi : i < entries.length) (j : Nat) :
    (swapRemove entries i)[j]? =
      if j + 1 < entries.length then
        if j = i then entries[entries.length - 1]? else entries[j]?
      else none := by
  cases hl : entries.getLast? with
  | none => simp [List.getLast?_eq_none_iff.mp hl] at hi
  | some last =>
    have hlast : entries[entries.length - 1]? = some last := by
      rw [← List.getLast?_eq_getElem?]; exact hl
    simp only [swapRemove, hl, List.getElem?_dropLast, List.length_set, List.getElem?_set]
    grind

theorem indexed_reindex (f : Frontier) {i : Nat} (h : f.index id = some i) :
    ∀ x j, f.reindex id i x = some j ↔ (swapRemove f.entries i)[j]? = some x := by
  have hid := (f.indexed id i).mp h
  have hi : i < f.entries.length := (List.getElem?_eq_some_iff.mp hid).1
  intro x j
  have hx := f.indexed x
  have hlast := f.indexed x (f.entries.length - 1)
  simp only [reindex, getElem?_swapRemove f.entries hi]
  grind

def remove (f : Frontier) (id : NodeId) : Except FrontierError Frontier :=
  match h : f.index id with
  | none => .error (.missing id)
  | some i =>
    .ok { entries := swapRemove f.entries i
          index := f.reindex id i
          indexed := f.indexed_reindex h }

theorem insert_ok (h : f.insert id = .ok f') : id ∉ f.entries ∧ f'.entries = f.entries ++ [id] := by
  unfold insert at h
  split at h
  · rename_i hc
    cases h
    refine ⟨fun hm => ?_, rfl⟩
    rw [(f.contains_iff id).mpr hm] at hc
    cases hc
  · cases h

theorem mem_insert (h : f.insert id = .ok f') (x : NodeId) :
    x ∈ f'.entries ↔ x ∈ f.entries ∨ x = id := by
  rw [(insert_ok h).2, List.mem_append, List.mem_singleton]

theorem mem_remove (h : f.remove id = .ok f') (x : NodeId) :
    x ∈ f'.entries ↔ x ∈ f.entries ∧ x ≠ id := by
  unfold remove at h
  split at h
  · cases h
  · rename_i i hi
    cases h
    have hid := (f.indexed id i).mp hi
    have hlt : i < f.entries.length := (List.getElem?_eq_some_iff.mp hid).1
    -- positions of `x` are unique, so its old position decides where it went
    rw [List.mem_iff_getElem?, List.mem_iff_getElem?]
    simp only [getElem?_swapRemove f.entries hlt]
    constructor
    · rintro ⟨j, hj⟩
      have hx := f.indexed x
      grind
    · rintro ⟨⟨j, hj⟩, hne⟩
      have hj' : j < f.entries.length := (List.getElem?_eq_some_iff.mp hj).1
      by_cases hlast : j + 1 = f.entries.length
      · exact ⟨i, by grind⟩
      · exact ⟨j, by grind⟩

/-! ### Candidates -/

/-- The loop of `deterministic_candidates`, before the sort. -/
def candidatesIn (tree : Tree F) : List NodeId → Except FrontierError (List NodeId)
  | [] => .ok []
  | id :: rest =>
    match tree.get id with
    | none => .error (.unknownNode id)
    | some record =>
      match candidatesIn tree rest with
      | .error e => .error e
      | .ok candidates =>
        if record.isFrontierCandidate then .ok (id :: candidates) else .ok candidates

def deterministicCandidates (f : Frontier) (tree : Tree F) :
    Except FrontierError (List NodeId) :=
  match candidatesIn tree f.entries with
  | .error e => .error e
  | .ok candidates => .ok (candidates.insertionSort (· ≤ ·))

theorem mem_candidatesIn {tree : Tree F} {ids candidates : List NodeId}
    (h : candidatesIn tree ids = .ok candidates) (x : NodeId) :
    x ∈ candidates ↔ x ∈ ids ∧ ∃ r, tree.get x = some r ∧ r.status = .frontier := by
  induction ids generalizing candidates with
  | nil => cases h; simp
  | cons id rest ih =>
    unfold candidatesIn at h
    split at h
    · cases h
    · rename_i record hr
      split at h
      · cases h
      · rename_i tail ht
        have hcand := Tree.isFrontierCandidate_iff hr
        split at h
        · rename_i hc
          cases h
          rw [List.mem_cons, List.mem_cons, ih ht]
          constructor
          · rintro (rfl | ⟨hm, hs⟩)
            · exact ⟨.inl rfl, record, hr, hcand.mp hc⟩
            · exact ⟨.inr hm, hs⟩
          · rintro ⟨rfl | hm, hs⟩
            · exact .inl rfl
            · exact .inr ⟨hm, hs⟩
        · rename_i hc
          cases h
          rw [List.mem_cons, ih ht]
          constructor
          · rintro ⟨hm, hs⟩
            exact ⟨.inr hm, hs⟩
          · rintro ⟨rfl | hm, hs⟩
            · obtain ⟨r, hr', hst⟩ := hs
              rw [hr] at hr'
              cases hr'
              exact absurd (hcand.mpr hst) hc
            · exact ⟨hm, hs⟩

theorem mem_deterministicCandidates {tree : Tree F} {candidates : List NodeId}
    (h : f.deterministicCandidates tree = .ok candidates) (x : NodeId) :
    x ∈ candidates ↔ x ∈ f.entries ∧ ∃ r, tree.get x = some r ∧ r.status = .frontier := by
  unfold deterministicCandidates at h
  split at h
  · cases h
  · rename_i cs hcs
    cases h
    rw [List.mem_insertionSort, mem_candidatesIn hcs]

end Frontier
end Orchestrator.Core
