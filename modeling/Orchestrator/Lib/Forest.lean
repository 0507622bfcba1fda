import Mathlib.Data.Finset.Max

/-! # Lib — Forest

Nodes that each have a parent or are roots. Children come after their parent, in batches, and a
node without children may go.

* `kind_grow`, `kind_prune`: how both changes change which nodes have children.
* `exists_leaf`: a finite forest that is not empty has a node without children.
-/

namespace Orchestrator.Lib

/-- Which nodes there are, each with its parent if it has one. -/
abbrev Forest (κ : Type) := κ → Option (Option κ)

namespace Forest

variable {κ σ : Type} {f : Forest κ} {k c : κ} {new : List κ} {parent : Option κ}
  {absent idle busy : σ}

/-- The node has a child. -/
def Busy (f : Forest κ) (k : κ) : Prop := ∃ c, f c = some (some k)

/-- Parents come before their children. -/
def Ascending [LT κ] (f : Forest κ) : Prop := ∀ c p, f c = some (some p) → p < c

structure Rooted [LT κ] (f : Forest κ) : Prop where
  ascending : f.Ascending
  present : ∀ c p, f c = some (some p) → f p ≠ none

/-- The last node has no child. -/
theorem exists_leaf [LinearOrder κ] (h : f.Ascending) {nodes : Finset κ} (hne : nodes.Nonempty)
    (hmem : ∀ k, f k ≠ none → k ∈ nodes) : ∃ k ∈ nodes, ¬ f.Busy k := by
  refine ⟨nodes.max' hne, nodes.max'_mem hne, ?_⟩
  rintro ⟨c, hc⟩
  have hle := nodes.le_max' c (hmem c (by rw [hc]; nofun))
  exact absurd (h c _ hc) (not_lt.mpr hle)

open Classical in
/-- Whether a node is there, and has children. -/
noncomputable def kind (absent idle busy : σ) (f : Forest κ) (k : κ) : σ :=
  if f k = none then absent else if f.Busy k then busy else idle

variable [DecidableEq κ]

/-- New nodes come, all under one parent or all as roots. -/
def grow (f : Forest κ) (new : List κ) (parent : Option κ) : Forest κ :=
  fun k => if k ∈ new then some parent else f k

/-- The new nodes are new, and come after their parent. -/
structure Room [LT κ] (f : Forest κ) (new : List κ) (parent : Option κ) : Prop where
  nonempty : new ≠ []
  fresh : ∀ k ∈ new, f k = none
  host : ∀ p, parent = some p → f p ≠ none ∧ ∀ k ∈ new, p < k

theorem Rooted.grow [LT κ] (hf : f.Rooted) (h : f.Room new parent) :
    (f.grow new parent).Rooted := by
  have hasc := hf.ascending
  have hpresent := hf.present
  refine ⟨?_, ?_⟩
  · unfold Ascending Forest.grow at *
    grind [Room]
  · unfold Forest.grow
    grind [Room]

theorem busy_grow [LT κ] (h : f.Room new parent) :
    (f.grow new parent).Busy k ↔ parent = some k ∨ f.Busy k := by
  obtain ⟨c, hc⟩ := List.exists_mem_of_ne_nil new h.nonempty
  unfold Busy grow
  grind [Room]

theorem kind_grow [LT κ] (hf : f.Rooted) (h : f.Room new parent) :
    kind absent idle busy (f.grow new parent) k =
      if k ∈ new then idle else if parent = some k then busy else kind absent idle busy f k := by
  have hpresent := hf.present
  have hbusy := busy_grow (k := k) h
  unfold kind grow Busy at *
  grind [Room]

def prune (f : Forest κ) (c : κ) : Forest κ := fun k => if k = c then none else f k

theorem Ascending.prune [LT κ] (h : f.Ascending) (c : κ) : (f.prune c).Ascending := by
  unfold Ascending Forest.prune at *
  grind

theorem Rooted.prune [LT κ] (hf : f.Rooted) (hleaf : ¬ f.Busy c) : (f.prune c).Rooted := by
  refine ⟨hf.ascending.prune c, ?_⟩
  have hpresent := hf.present
  unfold Forest.prune Busy at *
  grind

open Classical in
/-- The parent of a node that goes is idle again if that was its last child. -/
theorem kind_prune [LT κ] (hf : f.Rooted) :
    kind absent idle busy (f.prune c) k =
      if k = c then absent
      else if f c = some (some k) ∧ ¬ (f.prune c).Busy k then idle
      else kind absent idle busy f k := by
  have hpresent := hf.present
  have hbusy : f.Busy k ↔ f c = some (some k) ∨ (f.prune c).Busy k := by
    unfold prune Busy
    grind
  rw [kind, kind, show f.prune c k = if k = c then none else f k from rfl]
  grind

end Forest
end Orchestrator.Lib
