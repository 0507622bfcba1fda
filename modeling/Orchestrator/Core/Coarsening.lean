import Orchestrator.Core.FeatureMap

/-! # Core — Coarsening

What L4 coarsening changes of a feature map, and what it does not: the sizes of buckets and
grids grow, the version goes up, and the compiled layout stays as it is. A coarsening pass
over a map that compiles fails only where a size or the version no longer fits.

* `compileFeatureMap_coarser`: the layout.
* `coarsenL4PreservingLayout_eq_ok`: when a pass succeeds.
* `FeatureMap.grown_iterate`: what any number of passes changes.
-/

namespace Orchestrator.Core

open Lib

variable {radius : RadiusFactor} {layouts : RegionLayouts} {map : FeatureMap}

/-! ### A pass without its checks -/

/-- A size after one pass. -/
def RadiusFactor.scale (radius : RadiusFactor) (size : Nat) : Nat :=
  max ((size * radius.numerator + (radius.denominator - 1)) / radius.denominator) 1

def Discretize.sizes : Discretize → List Nat
  | .bucket size => [size]
  | .grid _ _ _ cellW cellH => [cellW, cellH]
  | .none | .identity | .threshold _ | .bits => []

def Discretize.rescale (radius : RadiusFactor) : Discretize → Discretize
  | .bucket size => .bucket (radius.scale size)
  | .grid x y room cellW cellH => .grid x y room (radius.scale cellW) (radius.scale cellH)
  | d => d

def Feature.rescale (radius : RadiusFactor) (f : Feature) : Feature :=
  { f with discretize := f.discretize.rescale radius }

def CompiledField.rescale (radius : RadiusFactor) (f : CompiledField) : CompiledField :=
  { f with discretize := f.discretize.rescale radius }

def FeatureMap.sizes (map : FeatureMap) : List Nat := map.features.flatMap (·.discretize.sizes)

def FeatureMap.coarser (radius : RadiusFactor) (map : FeatureMap) : FeatureMap :=
  { map with
    metadata := { map.metadata with version := map.metadata.version + 1 }
    features := map.features.map (·.rescale radius) }

/-- Whether another pass leaves the version in 32 bits and every size in 64. -/
def FeatureMap.Fits (radius : RadiusFactor) (map : FeatureMap) : Prop :=
  map.metadata.version + 1 < 2 ^ 32 ∧ ∀ size ∈ map.sizes, radius.scale size < 2 ^ 64

theorem RadiusFactor.scale_pos (radius : RadiusFactor) (size : Nat) : radius.scale size ≠ 0 := by
  unfold scale
  omega

theorem Discretize.rescale_eq_none (d : Discretize) : d.rescale radius = .none ↔ d = .none := by
  cases d <;> simp [rescale]

theorem Discretize.rescale_eq_bits (d : Discretize) : d.rescale radius = .bits ↔ d = .bits := by
  cases d <;> simp [rescale]

theorem Discretize.sizes_rescale (d : Discretize) :
    (d.rescale radius).sizes = d.sizes.map radius.scale := by
  cases d <;> rfl

theorem FeatureMap.sizes_coarser (map : FeatureMap) :
    (map.coarser radius).sizes = map.sizes.map radius.scale := by
  simp only [sizes, coarser, List.flatMap_map, List.map_flatMap]
  exact List.flatMap_congr fun f _ => f.discretize.sizes_rescale

theorem scalePositive_eq_ok {size scaled : Nat} :
    scalePositive size radius = .ok scaled ↔
      radius.scale size < 2 ^ 64 ∧ scaled = radius.scale size := by
  simp only [scalePositive, RadiusFactor.scale, bind_eq_ok, refuseIf_eq_ok, pure, Except.pure,
    Except.ok.injEq, exists_and_left, exists_const]
  omega

variable {f : Feature} {fs : List Feature} {compiled : CompiledFeatureMap}

variable {g : Feature} {map' : FeatureMap} {index : Nat} {layout : List ExtractRange}

theorem coarsenFeature_eq_ok :
    coarsenFeature radius f = .ok g ↔
      (∀ size ∈ f.discretize.sizes, radius.scale size < 2 ^ 64) ∧ g = f.rescale radius := by
  obtain ⟨name, region, offset, valueType, width, semantics, stability, d, validWhen⟩ := f
  cases d with
  | bucket size =>
    simp only [coarsenFeature, Feature.rescale, bind_eq_ok, scalePositive_eq_ok, Discretize.sizes,
      Discretize.rescale, List.forall_mem_singleton, pure, Except.pure, Except.ok.injEq]
    constructor
    · rintro ⟨_, ⟨hsize, rfl⟩, rfl⟩
      exact ⟨hsize, rfl⟩
    · rintro ⟨hsize, rfl⟩
      exact ⟨_, ⟨hsize, rfl⟩, rfl⟩
  | grid x y room cellW cellH =>
    simp only [coarsenFeature, Feature.rescale, bind_eq_ok, scalePositive_eq_ok, Discretize.sizes,
      Discretize.rescale, List.forall_mem_cons, pure, Except.pure, Except.ok.injEq]
    constructor
    · rintro ⟨_, ⟨hw, rfl⟩, _, ⟨hh, rfl⟩, rfl⟩
      exact ⟨⟨hw, hh, by simp⟩, rfl⟩
    · rintro ⟨⟨hw, hh, -⟩, rfl⟩
      exact ⟨_, ⟨hw, rfl⟩, _, ⟨hh, rfl⟩, rfl⟩
  | _ => simp [coarsenFeature, Feature.rescale, Discretize.sizes, Discretize.rescale, eq_comm]

theorem coarsenFeatures_eq_ok {gs : List Feature} :
    coarsenFeatures radius fs = .ok gs ↔
      (∀ size ∈ fs.flatMap (·.discretize.sizes), radius.scale size < 2 ^ 64) ∧
        gs = fs.map (·.rescale radius) := by
  induction fs generalizing gs with
  | nil => simp [coarsenFeatures, eq_comm]
  | cons f fs ih =>
    simp only [coarsenFeatures, bind_eq_ok, coarsenFeature_eq_ok, ih, List.flatMap_cons,
      List.forall_mem_append, List.map_cons, pure, Except.pure, Except.ok.injEq]
    constructor
    · rintro ⟨_, ⟨hf, rfl⟩, _, ⟨hfs, rfl⟩, rfl⟩
      exact ⟨⟨hf, hfs⟩, rfl⟩
    · rintro ⟨⟨hf, hfs⟩, rfl⟩
      exact ⟨_, ⟨hf, rfl⟩, _, ⟨hfs, rfl⟩, rfl⟩

theorem coarsenFeature_ne_layoutChanged (f : Feature) :
    coarsenFeature radius f ≠ .error .layoutChangedByCoarsening := by
  have hscale : ∀ size, scalePositive size radius ≠ .error .layoutChangedByCoarsening := by
    intro size
    simp [scalePositive, bind_eq_error, refuseIf_eq_error, pure, Except.pure]
  unfold coarsenFeature
  split <;> simp [bind_eq_error, hscale, pure, Except.pure]

theorem coarsenFeatures_ne_layoutChanged (fs : List Feature) :
    coarsenFeatures radius fs ≠ .error .layoutChangedByCoarsening := by
  induction fs with
  | nil => nofun
  | cons f fs ih =>
    simp [coarsenFeatures, bind_eq_error, coarsenFeature_ne_layoutChanged, ih, pure, Except.pure]

theorem coarsenL4_eq_ok :
    coarsenL4 map layouts radius = .ok map' ↔
      validateFeatureMap map layouts = .ok () ∧ map.Fits radius ∧ map' = map.coarser radius := by
  simp only [coarsenL4, bind_eq_ok, refuseIf_eq_ok, coarsenFeatures_eq_ok, FeatureMap.Fits,
    FeatureMap.coarser, pure, Except.pure, Except.ok.injEq]
  constructor
  · rintro ⟨_, hvalid, _, hversion, _, ⟨hsizes, rfl⟩, rfl⟩
    exact ⟨hvalid, ⟨by omega, hsizes⟩, rfl⟩
  · rintro ⟨hvalid, ⟨hversion, hsizes⟩, rfl⟩
    exact ⟨(), hvalid, (), by omega, _, ⟨hsizes, rfl⟩, rfl⟩

/-! ### What does not depend on the sizes -/

theorem validateGridTarget_coarser (f : Feature) (target : String) (mustBeInteger : Bool) :
    validateGridTarget (map.coarser radius) (f.rescale radius) target mustBeInteger =
      validateGridTarget map f target mustBeInteger := by
  have hfind : (map.coarser radius).features.find? (·.name == target) =
      (map.features.find? (·.name == target)).map (·.rescale radius) := List.find?_map
  unfold validateGridTarget
  rw [hfind]
  cases map.features.find? (·.name == target) with
  | none => rfl
  | some g =>
    have hnone : (g.rescale radius).discretize = .none ↔ g.discretize = .none :=
      g.discretize.rescale_eq_none
    simp only [Option.map_some, ne_eq, hnone]
    rfl

theorem validateDiscretize_coarser (h : validateDiscretize map f = .ok ()) :
    validateDiscretize (map.coarser radius) (f.rescale radius) = .ok () := by
  simp only [validateDiscretize, bind_eq_ok, refuseIf_eq_ok] at h ⊢
  obtain ⟨_, hbits, h⟩ := h
  refine ⟨(), ?_, ?_⟩
  · simpa only [Feature.rescale, ne_eq, Discretize.rescale_eq_bits, Discretize.rescale_eq_none]
      using hbits
  · cases hd : f.discretize with
    | bucket size =>
      simp [Feature.rescale, hd, Discretize.rescale, radius.scale_pos]
    | grid x y room cellW cellH =>
      rw [hd] at h
      simp only [bind_eq_ok, refuseIf_eq_ok] at h
      obtain ⟨_, -, _, hx, _, hy, hroom⟩ := h
      have hd' : (f.rescale radius).discretize =
          .grid x y room (radius.scale cellW) (radius.scale cellH) := by
        simp [Feature.rescale, hd, Discretize.rescale]
      simp only [hd', bind_eq_ok, refuseIf_eq_ok, validateGridTarget_coarser, hx, hy, hroom]
      simp [radius.scale_pos]
    | _ => simp [Feature.rescale, hd, Discretize.rescale]

theorem validateFeatures_coarser {seen : List String} (h : validateFeatures map seen fs = .ok ()) :
    validateFeatures (map.coarser radius) seen (fs.map (·.rescale radius)) = .ok () := by
  induction fs generalizing seen with
  | nil => rfl
  | cons f fs ih =>
    simp only [validateFeatures, bind_eq_ok, refuseIf_eq_ok] at h
    obtain ⟨_, hname, _, hseen, _, hbounds, _, hdiscretize, hrest⟩ := h
    simp only [List.map_cons, validateFeatures, bind_eq_ok, refuseIf_eq_ok]
    exact ⟨(), hname, (), hseen, (), hbounds, (), validateDiscretize_coarser hdiscretize, ih hrest⟩

theorem validateFeatureMap_coarser (h : validateFeatureMap map layouts = .ok ()) :
    validateFeatureMap (map.coarser radius) layouts = .ok () := by
  simp only [validateFeatureMap, bind_eq_ok, refuseIf_eq_ok] at h ⊢
  obtain ⟨_, hschema, _, hname, _, hregions, hfeatures⟩ := h
  exact ⟨(), hschema, (), hname, (), hregions, validateFeatures_coarser hfeatures⟩

theorem intervals_rescale (region : String) (fs : List Feature) :
    intervals region (fs.map (·.rescale radius)) = intervals region fs := by
  induction fs with
  | nil => rfl
  | cons f fs ih =>
    simp only [List.map_cons, intervals, ih]
    rfl

theorem compileRanges_rescale (fs : List Feature) (regions : List FeatureRegion) :
    compileRanges (fs.map (·.rescale radius)) layouts regions =
      compileRanges fs layouts regions := by
  induction regions with
  | nil => rfl
  | cons region regions ih => simp only [compileRanges, intervals_rescale, ih]

theorem coveringRange_rescale (f : Feature) (width base : Nat) (layout : List ExtractRange) :
    coveringRange (f.rescale radius) width base layout = coveringRange f width base layout := by
  induction layout generalizing base with
  | nil => rfl
  | cons range layout ih => simp only [coveringRange, ih]; rfl

theorem compileField_rescale {field : CompiledField} (h : compileField index f layout = .ok field) :
    compileField index (f.rescale radius) layout = .ok (field.rescale radius) := by
  simp only [compileField, bind_eq_ok] at h ⊢
  obtain ⟨width, hwidth, h⟩ := h
  refine ⟨width, hwidth, ?_⟩
  rw [coveringRange_rescale]
  split at h
  · cases h
  · simp only [bind_eq_ok, refuseIf_eq_ok, pure, Except.pure, Except.ok.injEq] at h ⊢
    obtain ⟨_, hoffset, _, hpacked, _, hindex, rfl⟩ := h
    exact ⟨(), hoffset, (), hpacked, (), hindex, rfl⟩

theorem compileFields_rescale {fields : List CompiledField}
    (h : compileFields layout index fs = .ok fields) :
    compileFields layout index (fs.map (·.rescale radius)) =
      .ok (fields.map (·.rescale radius)) := by
  induction fs generalizing index fields with
  | nil =>
    cases h
    rfl
  | cons f fs ih =>
    simp only [compileFields, bind_eq_ok, List.map_cons, pure, Except.pure, Except.ok.injEq] at h ⊢
    obtain ⟨field, hfield, others, hothers, rfl⟩ := h
    exact ⟨_, compileField_rescale hfield, _, ih hothers, rfl⟩

/-- **Coarsening keeps the layout.** -/
theorem compileFeatureMap_coarser (radius : RadiusFactor)
    (h : compileFeatureMap map layouts = .ok compiled) :
    ∃ compiled', compileFeatureMap (map.coarser radius) layouts = .ok compiled' ∧
      compiled'.layout = compiled.layout ∧
      compiled'.metadata.version = compiled.metadata.version + 1 := by
  simp only [compileFeatureMap, bind_eq_ok, pure, Except.pure, Except.ok.injEq] at h
  obtain ⟨_, hvalid, layout, hlayout, totalLen, htotal, fields, hfields, rfl⟩ := h
  have hlayout' : compileRanges (map.coarser radius).features layouts (map.coarser radius).regions =
      .ok layout := (compileRanges_rescale ..).trans hlayout
  refine ⟨⟨(map.coarser radius).metadata, layout, fields.map (·.rescale radius), totalLen⟩, ?_,
    rfl, rfl⟩
  simp only [compileFeatureMap, bind_eq_ok, pure, Except.pure, Except.ok.injEq]
  exact ⟨(), validateFeatureMap_coarser hvalid, layout, hlayout', totalLen, htotal, _,
    compileFields_rescale hfields, rfl⟩

/-! ### Passes -/

theorem validateFeatureMap_of_compile (h : compileFeatureMap map layouts = .ok compiled) :
    validateFeatureMap map layouts = .ok () := by
  simp only [compileFeatureMap, bind_eq_ok] at h
  obtain ⟨_, hvalid, -⟩ := h
  exact hvalid

/-- A pass over a map that compiles fails only for want of room. -/
theorem coarsenL4PreservingLayout_eq_ok (h : compileFeatureMap map layouts = .ok compiled) :
    coarsenL4PreservingLayout map layouts radius = .ok map' ↔
      map.Fits radius ∧ map' = map.coarser radius := by
  have hvalid := validateFeatureMap_of_compile h
  obtain ⟨compiled', hcompiled', hlayout, -⟩ := compileFeatureMap_coarser radius h
  simp only [coarsenL4PreservingLayout, bind_eq_ok, coarsenL4_eq_ok, refuseIf_eq_ok, hvalid, pure,
    Except.pure, Except.ok.injEq]
  constructor
  · rintro ⟨_, -, _, ⟨-, hfits, rfl⟩, _, -, _, -, rfl⟩
    exact ⟨hfits, rfl⟩
  · rintro ⟨hfits, rfl⟩
    refine ⟨compiled, h, _, ⟨trivial, hfits, rfl⟩, compiled', hcompiled', (), ?_, rfl⟩
    exact not_not_intro hlayout.symm

/-- One of so many passes takes the version out of 32 bits or a size out of 64. -/
def FeatureMap.Overflows (radius : RadiusFactor) (map : FeatureMap) (passes : Nat) : Prop :=
  ∃ i < passes, 2 ^ 32 ≤ map.metadata.version + i + 1 ∨
    ∃ size ∈ map.sizes, 2 ^ 64 ≤ radius.scale^[i + 1] size

theorem FeatureMap.version_iterate (map : FeatureMap) (passes : Nat) :
    ((coarser radius)^[passes] map).metadata.version = map.metadata.version + passes := by
  induction passes with
  | zero => rfl
  | succ passes ih =>
    rw [Function.iterate_succ_apply']
    exact congrArg (· + 1) ih

theorem FeatureMap.sizes_iterate (map : FeatureMap) (passes : Nat) :
    ((coarser radius)^[passes] map).sizes = map.sizes.map radius.scale^[passes] := by
  induction passes with
  | zero => simp
  | succ passes ih =>
    rw [Function.iterate_succ_apply', sizes_coarser, ih, List.map_map, Function.iterate_succ']

theorem FeatureMap.fits_iterate (map : FeatureMap) (passes : Nat) :
    ((coarser radius)^[passes] map).Fits radius ↔
      map.metadata.version + passes + 1 < 2 ^ 32 ∧
        ∀ size ∈ map.sizes, radius.scale^[passes + 1] size < 2 ^ 64 := by
  unfold Fits
  rw [version_iterate, sizes_iterate]
  simp only [List.forall_mem_map, Function.iterate_succ_apply']

theorem FeatureMap.not_overflows_succ (map : FeatureMap) (passes : Nat) :
    ¬ map.Overflows radius (passes + 1) ↔
      ¬ map.Overflows radius passes ∧ ((coarser radius)^[passes] map).Fits radius := by
  rw [fits_iterate]
  unfold Overflows
  simp only [not_exists, not_and, not_or, not_le]
  constructor
  · intro h
    exact ⟨fun i hi => h i (by omega), h passes (by omega)⟩
  · rintro ⟨hbefore, hlast⟩ i hi
    rcases Nat.lt_succ_iff_lt_or_eq.mp hi with hi | rfl
    · exact hbefore i hi
    · exact hlast

theorem compileFeatureMap_iterate (radius : RadiusFactor)
    (h : compileFeatureMap map layouts = .ok compiled) (passes : Nat) :
    ∃ compiled', compileFeatureMap ((FeatureMap.coarser radius)^[passes] map) layouts =
      .ok compiled' ∧ compiled'.layout = compiled.layout := by
  induction passes with
  | zero => exact ⟨compiled, h, rfl⟩
  | succ passes ih =>
    obtain ⟨compiled₁, h₁, hlayout₁⟩ := ih
    obtain ⟨compiled₂, h₂, hlayout₂, -⟩ := compileFeatureMap_coarser radius h₁
    rw [Function.iterate_succ_apply']
    exact ⟨compiled₂, h₂, hlayout₂.trans hlayout₁⟩

/-- The layout check never fires. -/
theorem coarsenL4PreservingLayout_ne_layoutChanged
    (h : compileFeatureMap map layouts = .ok compiled) :
    coarsenL4PreservingLayout map layouts radius ≠ .error .layoutChangedByCoarsening := by
  obtain ⟨compiled', hcompiled', hlayout, -⟩ := compileFeatureMap_coarser radius h
  have hvalid := validateFeatureMap_of_compile h
  intro heq
  simp only [coarsenL4PreservingLayout, bind_eq_error, h, reduceCtorEq, false_or, Except.ok.injEq,
    exists_eq_left'] at heq
  rcases heq with heq | ⟨map', hmap', heq⟩
  · simp only [coarsenL4, bind_eq_error, hvalid, reduceCtorEq, refuseIf_eq_error, and_false,
      coarsenFeatures_ne_layoutChanged, pure, Except.pure, exists_false, or_false] at heq
  · obtain ⟨-, -, rfl⟩ := coarsenL4_eq_ok.mp hmap'
    simp only [hcompiled', reduceCtorEq, Except.ok.injEq, exists_eq_left',
      refuseIf_eq_error, hlayout, ne_eq, not_true_eq_false, false_and, pure, Except.pure, and_false,
      exists_false, or_false] at heq

/-! ### What passes change -/

/-- The same discretization, with sizes that are no smaller. -/
def Discretize.Grown : Discretize → Discretize → Prop
  | .bucket size, .bucket size' => size ≤ size'
  | .grid x y room w h, .grid x' y' room' w' h' =>
    x' = x ∧ y' = y ∧ room' = room ∧ w ≤ w' ∧ h ≤ h'
  | d, d' => d' = d

/-- The same feature, but for sizes that are no smaller. -/
structure Feature.Grown (f g : Feature) : Prop where
  same : g = { f with discretize := g.discretize }
  discretize : f.discretize.Grown g.discretize

/-- The same document, but for a version that is so many ahead and sizes that are no smaller. -/
structure FeatureMap.Grown (passes : Nat) (map map' : FeatureMap) : Prop where
  schemaVersion : map'.schemaVersion = map.schemaVersion
  name : map'.metadata.name = map.metadata.name
  version : map'.metadata.version = map.metadata.version + passes
  regions : map'.regions = map.regions
  features : List.Forall₂ Feature.Grown map.features map'.features

theorem RadiusFactor.le_scale (h : radius.denominator ≤ radius.numerator) (size : Nat) :
    size ≤ radius.scale size := by
  refine le_trans ?_ (Nat.le_max_left _ _)
  rw [Nat.le_div_iff_mul_le radius.positive]
  exact le_trans (Nat.mul_le_mul_left size h) (Nat.le_add_right _ _)

theorem Discretize.Grown.refl (d : Discretize) : d.Grown d := by
  cases d <;> simp [Grown]

theorem Discretize.Grown.rescale {d d' : Discretize}
    (hradius : radius.denominator ≤ radius.numerator) (h : d.Grown d') :
    d.Grown (d'.rescale radius) := by
  have hscale := RadiusFactor.le_scale hradius
  cases d <;> cases d' <;> simp only [Grown, Discretize.rescale, reduceCtorEq] at h ⊢
  case bucket.bucket size size' => exact h.trans (hscale size')
  case grid.grid x y room w h x' y' room' w' h' =>
    obtain ⟨hx, hy, hroom, hw, hh⟩ := ‹_ ∧ _›
    exact ⟨hx, hy, hroom, hw.trans (hscale w'), hh.trans (hscale h')⟩
  all_goals exact h

theorem Feature.Grown.rescale (hradius : radius.denominator ≤ radius.numerator) (h : f.Grown g) :
    f.Grown (g.rescale radius) where
  same := by rw [h.same]; rfl
  discretize := h.discretize.rescale hradius

/-- **Only the version and the sizes change, and the sizes grow.** -/
theorem FeatureMap.grown_iterate (hradius : radius.denominator ≤ radius.numerator)
    (map : FeatureMap) (passes : Nat) : map.Grown passes ((coarser radius)^[passes] map) := by
  induction passes with
  | zero =>
    exact ⟨rfl, rfl, rfl, rfl, List.forall₂_same.mpr fun f _ => ⟨rfl, .refl _⟩⟩
  | succ passes ih =>
    rw [Function.iterate_succ_apply']
    refine ⟨ih.schemaVersion, ih.name, congrArg (· + 1) ih.version, ih.regions, ?_⟩
    exact List.forall₂_map_right_iff.mpr (ih.features.imp fun _ _ h => h.rescale hradius)

end Orchestrator.Core
