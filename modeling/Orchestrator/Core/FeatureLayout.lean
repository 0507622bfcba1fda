import Orchestrator.Core.FeatureMap
import Orchestrator.Lib.Intervals

/-! # Core — The compiled layout

What a compiled feature map says of the memory of the regions. Within a region the extracted
ranges are the merged intervals of its features, and a field's packed offset finds the bytes of
its feature in the concatenation of all ranges.

* `compileRanges_ok`: the ranges of each region.
* `coveringRange_ok`, `exists_coveringRange`: the range a field is read from.
* `feature_map_compilation`
-/

namespace Orchestrator.Core

open Lib Lib.Intervals

variable {map : FeatureMap} {layouts : RegionLayouts} {layout : List ExtractRange}

/-- The ranges of a region. -/
def rangesOf (layout : List ExtractRange) (region : String) : List ExtractRange :=
  layout.filter (·.region = region)

/-- A range as an interval of addresses. -/
def ExtractRange.interval (range : ExtractRange) : Nat × Nat :=
  (range.offset, range.offset + range.len)

/-- The bytes a range extracts from the memory of the regions. -/
def ExtractRange.extract {α : Type} (memory : String → List α) (range : ExtractRange) : List α :=
  slice (memory range.region) range.offset range.len

/-- The extracted ranges one after the other. -/
def packed {α : Type} (memory : String → List α) (layout : List ExtractRange) : List α :=
  layout.flatMap (·.extract memory)

/-- A memory image has the bytes of every region the layouts know. -/
def MemoryImage {α : Type} (layouts : RegionLayouts) (memory : String → List α) : Prop :=
  ∀ region layout, layouts.lookup region = some layout → (memory region).length = layout.size

/-- What the fields and the ranges of a compiled map are to the features of its source. -/
structure CompiledFeatureMap.Faithful (compiled : CompiledFeatureMap) (map : FeatureMap)
    (layouts : RegionLayouts) : Prop where
  /-- The ranges of a region are in increasing order, and neither overlap nor touch. -/
  separated : ∀ region, Separated ((rangesOf compiled.layout region).map (·.interval))
  /-- They cover what the features of the region cover. -/
  covers : ∀ region x, Covers ((rangesOf compiled.layout region).map (·.interval)) x ↔
    ∃ f ∈ map.features, f.region = region ∧ ∃ width, f.widthOf = .ok width ∧
      f.offset ≤ x ∧ x < f.offset + width
  total : compiled.totalLen = (compiled.layout.map (·.len)).sum
  length : compiled.fields.length = map.features.length
  /-- Every feature has its field, which finds the feature's bytes in every memory image. -/
  fields : ∀ (i : Nat) f, map.features[i]? = some f → ∃ field, compiled.fields[i]? = some field ∧
    field.name = f.name ∧ field.region = f.region ∧ field.sourceOffset = f.offset ∧
    f.widthOf = .ok field.width ∧ field.packedOffset + field.width ≤ compiled.totalLen ∧
    ∀ {α : Type} (memory : String → List α), MemoryImage layouts memory →
      slice (packed memory compiled.layout) field.packedOffset field.width =
        slice (memory f.region) f.offset field.width

/-! ### Validation -/

variable {f : Feature} {width : Nat} {fs : List Feature} {region : String} {is : List (Nat × Nat)}
  {ranges : List ExtractRange} {index : Nat} {compiled : CompiledFeatureMap}

variable {stop : Nat} {seen : List String} {regions : List FeatureRegion} {version base : Nat}

theorem Feature.endOf_eq_ok :
    f.endOf = .ok stop ↔
      ∃ width, f.widthOf = .ok width ∧ f.offset + width < 2 ^ 64 ∧ stop = f.offset + width := by
  simp only [endOf, bind_eq_ok, refuseIf_eq_ok, pure, Except.pure, Except.ok.injEq, not_le]
  constructor
  · rintro ⟨width, hwidth, _, hlt, rfl⟩
    exact ⟨width, hwidth, hlt, rfl⟩
  · rintro ⟨width, hwidth, hlt, rfl⟩
    exact ⟨width, hwidth, (), hlt, rfl⟩

theorem Feature.widthOf_pos (h : f.widthOf = .ok width) : 0 < width := by
  unfold widthOf at h
  split at h
  · rename_i derived declared hd _
    split at h
    · cases h
    · cases h
      revert hd
      cases f.valueType <;> simp [FeatureValueType.derivedWidth] <;> omega
  · rename_i derived hd _
    cases h
    revert hd
    cases f.valueType <;> simp [FeatureValueType.derivedWidth] <;> omega
  · cases h
  · split at h
    · cases h
    · cases h
      omega

/-- What validation establishes of the regions. -/
structure ValidRegions (layouts : RegionLayouts) (seen : List String)
    (regions : List FeatureRegion) : Prop where
  fresh : ∀ region ∈ regions, region.name ∉ seen
  nodup : (regions.map (·.name)).Nodup
  fits : ∀ region ∈ regions, ∃ layout, layouts.lookup region.name = some layout ∧
    region.size ≤ layout.size

theorem validateRegions_ok (h : validateRegions layouts seen regions = .ok ()) :
    ValidRegions layouts seen regions := by
  induction regions generalizing seen with
  | nil => exact ⟨by simp, .nil, by simp⟩
  | cons region rest ih =>
    simp only [validateRegions, bind_eq_ok, refuseIf_eq_ok] at h
    obtain ⟨_, -, _, hseen, h⟩ := h
    obtain ⟨layout, hlookup, hsize, hrest⟩ : ∃ layout, layouts.lookup region.name = some layout ∧
        region.size ≤ layout.size ∧
        validateRegions layouts (region.name :: seen) rest = .ok () := by
      split at h
      · cases h
      · rename_i layout hlookup
        obtain ⟨_, hsize, hrest⟩ := bind_eq_ok.mp h
        exact ⟨layout, hlookup, Nat.le_of_not_lt (refuseIf_eq_ok.mp hsize), hrest⟩
    have hrest := ih hrest
    refine ⟨?_, ?_, ?_⟩
    · intro r hr
      rcases List.mem_cons.mp hr with rfl | hr
      · exact hseen
      · exact fun hmem => hrest.fresh r hr (List.mem_cons_of_mem _ hmem)
    · refine List.nodup_cons.mpr ⟨fun hmem => ?_, hrest.nodup⟩
      obtain ⟨r, hr, hname⟩ := List.mem_map.mp hmem
      exact hrest.fresh r hr (hname ▸ List.mem_cons_self)
    · intro r hr
      rcases List.mem_cons.mp hr with rfl | hr
      · exact ⟨layout, hlookup, hsize⟩
      · exact hrest.fits r hr

/-- A valid feature lies in a region of its map. -/
def Feature.Placed (map : FeatureMap) (f : Feature) : Prop :=
  ∃ region ∈ map.regions, region.name = f.region ∧ ∃ stop, f.endOf = .ok stop ∧ stop ≤ region.size

theorem validateFeatures_ok (h : validateFeatures map seen fs = .ok ()) :
    ∀ f ∈ fs, f.Placed map := by
  induction fs generalizing seen with
  | nil => simp
  | cons f rest ih =>
    simp only [validateFeatures, bind_eq_ok] at h
    obtain ⟨_, -, _, -, _, hbounds, _, -, hrest⟩ := h
    refine List.forall_mem_cons.mpr ⟨?_, ih hrest⟩
    unfold validateFeatureBounds at hbounds
    split at hbounds
    · cases hbounds
    · rename_i region hfind
      obtain ⟨stop, hstop, hsize⟩ := bind_eq_ok.mp hbounds
      refine ⟨region, List.mem_of_find?_eq_some hfind, ?_, stop, hstop, ?_⟩
      · simpa using List.find?_some hfind
      · exact Nat.le_of_not_lt (refuseIf_eq_ok.mp hsize)

theorem validateFeatureMap_ok (h : validateFeatureMap map layouts = .ok ()) :
    ValidRegions layouts [] map.regions ∧ ∀ f ∈ map.features, f.Placed map := by
  simp only [validateFeatureMap, bind_eq_ok] at h
  obtain ⟨_, -, _, -, _, hregions, hfeatures⟩ := h
  exact ⟨validateRegions_ok hregions, validateFeatures_ok hfeatures⟩

/-! ### The ranges of a region -/

theorem mem_intervals (h : intervals region fs = .ok is) (i : Nat × Nat) :
    i ∈ is ↔ ∃ f ∈ fs, f.region = region ∧ f.offset = i.1 ∧ f.endOf = .ok i.2 := by
  induction fs generalizing is with
  | nil =>
    cases h
    simp
  | cons f rest ih =>
    unfold intervals at h
    split at h
    · rename_i hregion
      simp only [bind_eq_ok, pure, Except.pure, Except.ok.injEq] at h
      obtain ⟨stop, hstop, others, hothers, rfl⟩ := h
      simp only [List.mem_cons, ih hothers, exists_eq_or_imp, hregion, true_and, hstop,
        Except.ok.injEq, Prod.ext_iff]
      simp only [eq_comm]
    · rename_i hregion
      simp [ih h, hregion]

theorem exists_intervals (h : ∀ f ∈ fs, ∃ stop, f.endOf = .ok stop) (region : String) :
    ∃ is, intervals region fs = .ok is := by
  induction fs with
  | nil => exact ⟨[], rfl⟩
  | cons f rest ih =>
    obtain ⟨stop, hstop⟩ := h f List.mem_cons_self
    obtain ⟨is, his⟩ := ih fun g hg => h g (List.mem_cons_of_mem _ hg)
    unfold intervals
    split
    · exact ⟨_, by rw [hstop, his]; rfl⟩
    · exact ⟨is, his⟩

/-- The merge of the compiler is that of the library. -/
theorem mergeInterval_eq : mergeInterval = absorb := rfl

theorem extractRanges_ok (h : extractRanges region version is = .ok ranges) :
    ranges = is.map fun i => ⟨region, version, i.1, i.2 - i.1⟩ := by
  induction is generalizing ranges with
  | nil =>
    cases h
    rfl
  | cons i rest ih =>
    simp only [extractRanges, bind_eq_ok, pure, Except.pure, Except.ok.injEq] at h
    obtain ⟨_, -, others, hothers, rfl⟩ := h
    rw [ih hothers]
    rfl

/-- The merged intervals of the features of a region. -/
structure MergedOf (fs : List Feature) (region : String) (ranges : List ExtractRange) : Prop where
  named : ∀ range ∈ ranges, range.region = region
  separated : Separated (ranges.map (·.interval))
  covers : ∀ x, Covers (ranges.map (·.interval)) x ↔
    ∃ f ∈ fs, f.region = region ∧ ∃ stop, f.endOf = .ok stop ∧ f.offset ≤ x ∧ x < stop
  spans : ∀ f ∈ fs, f.region = region → ∀ stop, f.endOf = .ok stop →
    Spans (ranges.map (·.interval)) (f.offset, stop)

theorem mergedOf_ok (his : intervals region fs = .ok is) (hranges : extractRanges region version
      ((is.insertionSort fun i j => i.1 ≤ j.1).foldl mergeInterval []) = .ok ranges) :
    MergedOf fs region ranges := by
  have hahead : Ahead [] (is.insertionSort fun i j => i.1 ≤ j.1) := by
    have : Std.Total fun i j : Nat × Nat => i.1 ≤ j.1 := ⟨fun i j => Nat.le_total i.1 j.1⟩
    have : IsTrans (Nat × Nat) fun i j => i.1 ≤ j.1 := ⟨fun _ _ _ => Nat.le_trans⟩
    refine .start (fun i hi => ?_) (List.pairwise_insertionSort _ _)
    obtain ⟨f, -, -, hoffset, hstop⟩ := (mem_intervals his i).mp ((List.mem_insertionSort _).mp hi)
    obtain ⟨width, hwidth, -, hi₂⟩ := Feature.endOf_eq_ok.mp hstop
    have := Feature.widthOf_pos hwidth
    omega
  have hseparated : Separated ((is.insertionSort fun i j => i.1 ≤ j.1).foldl absorb []) :=
    Separated.foldl_absorb ⟨by simp, .nil⟩ hahead
  have hranges := extractRanges_ok hranges
  rw [mergeInterval_eq] at hranges
  have hintervals : ranges.map (·.interval) =
      (is.insertionSort fun i j => i.1 ≤ j.1).foldl absorb [] := by
    rw [hranges, List.map_map]
    refine (List.map_congr_left fun i hi => ?_).trans (List.map_id _)
    have := hseparated.proper i hi
    exact Prod.ext rfl (by simp only [Function.comp, ExtractRange.interval, id]; omega)
  refine ⟨fun range hrange => ?_, hintervals ▸ hseparated, fun x => ?_,
    fun f hf hregion stop hstop => ?_⟩
  · rw [hranges] at hrange
    obtain ⟨i, -, rfl⟩ := List.mem_map.mp hrange
    rfl
  · rw [hintervals, covers_foldl_absorb hahead]
    simp only [Covers, List.not_mem_nil, false_and, exists_false, false_or, List.mem_insertionSort,
      mem_intervals his]
    constructor
    · rintro ⟨i, ⟨f, hf, hregion, hoffset, hstop⟩, hle, hlt⟩
      exact ⟨f, hf, hregion, i.2, hstop, hoffset ▸ hle, hlt⟩
    · rintro ⟨f, hf, hregion, stop, hstop, hle, hlt⟩
      exact ⟨(f.offset, stop), ⟨f, hf, hregion, rfl, hstop⟩, hle, hlt⟩
  · rw [hintervals]
    refine spans_foldl_absorb hahead (.inr ?_)
    exact (List.mem_insertionSort _).mpr ((mem_intervals his _).mpr ⟨f, hf, hregion, rfl, hstop⟩)

theorem rangesOf_append (xs ys : List ExtractRange) (region : String) :
    rangesOf (xs ++ ys) region = rangesOf xs region ++ rangesOf ys region :=
  List.filter_append ..

theorem rangesOf_of_named (h : ∀ range ∈ ranges, range.region = region) (name : String) :
    rangesOf ranges name = if name = region then ranges else [] := by
  split
  · rename_i hname
    exact List.filter_eq_self.mpr fun range hrange => by simp [h range hrange, hname]
  · rename_i hname
    exact List.filter_eq_nil_iff.mpr fun range hrange => by simp [h range hrange, Ne.symm hname]

/-- Regions come one after the other, each with the merged intervals of its features. -/
theorem compileRanges_ok (h : compileRanges fs layouts regions = .ok layout)
    (hnodup : (regions.map (·.name)).Nodup) :
    (∀ range ∈ layout, ∃ region ∈ regions, region.name = range.region) ∧
      ∀ region ∈ regions, MergedOf fs region.name (rangesOf layout region.name) := by
  induction regions generalizing layout with
  | nil =>
    cases h
    simp
  | cons region rest ih =>
    unfold compileRanges at h
    split at h
    · cases h
    · simp only [bind_eq_ok, pure, Except.pure, Except.ok.injEq] at h
      obtain ⟨is, his, ranges, hranges, others, hothers, rfl⟩ := h
      have hmerged := mergedOf_ok his hranges
      obtain ⟨hnew, hnodup⟩ := List.nodup_cons.mp hnodup
      obtain ⟨hnamed, hrest⟩ := ih hothers hnodup
      -- no other region has the name of the first
      have hothers : rangesOf others region.name = [] := by
        refine List.filter_eq_nil_iff.mpr fun range hrange hname => hnew ?_
        obtain ⟨r, hr, hr'⟩ := hnamed range hrange
        exact List.mem_map.mpr ⟨r, hr, hr'.trans (of_decide_eq_true hname)⟩
      refine ⟨fun range hrange => ?_, fun r hr => ?_⟩
      · rcases List.mem_append.mp hrange with hrange | hrange
        · exact ⟨region, List.mem_cons_self, (hmerged.named range hrange).symm⟩
        · obtain ⟨r, hr, hname⟩ := hnamed range hrange
          exact ⟨r, List.mem_cons_of_mem _ hr, hname⟩
      · rw [rangesOf_append, rangesOf_of_named hmerged.named]
        rcases List.mem_cons.mp hr with rfl | hr
        · rw [if_pos rfl, hothers, List.append_nil]
          exact hmerged
        · have hne : r.name ≠ region.name :=
            fun heq => hnew (List.mem_map.mpr ⟨r, hr, heq⟩)
          rw [if_neg hne, List.nil_append]
          exact hrest r hr

/-! ### Fields -/

theorem totalFeatureBytesLen_eq_ok {total result : Nat} :
    totalFeatureBytesLen total layout = .ok result ↔
      result = total + (layout.map (·.len)).sum ∧ (layout = [] ∨ result < 2 ^ 32) := by
  induction layout generalizing total with
  | nil => simp [totalFeatureBytesLen, eq_comm]
  | cons range rest ih =>
    simp only [totalFeatureBytesLen, bind_eq_ok, refuseIf_eq_ok, ih, exists_const, List.map_cons,
      List.sum_cons]
    cases rest with
    | nil => simp; omega
    | cons r rs => simp; omega

/-- The bytes packed before the range a field is read from, and the range. -/
theorem coveringRange_ok {found : Nat} {range : ExtractRange}
    (h : coveringRange f width base layout = some (found, range)) :
    ∃ before after, layout = before ++ range :: after ∧
      found = base + (before.map (·.len)).sum ∧ range.region = f.region ∧
      range.offset ≤ f.offset ∧ f.offset + width ≤ range.offset + range.len := by
  induction layout generalizing base with
  | nil => cases h
  | cons r rest ih =>
    unfold coveringRange at h
    split at h
    · cases h
    · split at h
      · rename_i hcovers
        cases h
        exact ⟨[], rest, rfl, by simp, hcovers⟩
      · obtain ⟨before, after, rfl, hfound, hcovers⟩ := ih h
        refine ⟨r :: before, after, rfl, ?_, hcovers⟩
        rw [hfound, List.map_cons, List.sum_cons, Nat.add_assoc]

/-- As long as the layout has a length, a range that has all of the feature is found. -/
theorem exists_coveringRange (hsum : base + (layout.map (·.len)).sum < 2 ^ 32)
    (h : ∃ range ∈ layout, range.region = f.region ∧ range.offset ≤ f.offset ∧
      f.offset + width ≤ range.offset + range.len) :
    ∃ found range, coveringRange f width base layout = some (found, range) := by
  induction layout generalizing base with
  | nil => simp at h
  | cons r rest ih =>
    rw [List.map_cons, List.sum_cons] at hsum
    unfold coveringRange
    rw [if_neg (by omega)]
    split
    · exact ⟨_, _, rfl⟩
    · rename_i hcovers
      refine ih (by omega) ?_
      obtain ⟨range, hrange, hhas⟩ := h
      rcases List.mem_cons.mp hrange with rfl | hrange
      · exact absurd hhas hcovers
      · exact ⟨range, hrange, hhas⟩

theorem compileFields_ok {fields : List CompiledField}
    (h : compileFields layout index fs = .ok fields) :
    fields.length = fs.length ∧ ∀ (i : Nat) f, fs[i]? = some f →
      ∃ field, fields[i]? = some field ∧ compileField (index + i) f layout = .ok field := by
  induction fs generalizing index fields with
  | nil =>
    cases h
    simp
  | cons f rest ih =>
    simp only [compileFields, bind_eq_ok, pure, Except.pure, Except.ok.injEq] at h
    obtain ⟨field, hfield, others, hothers, rfl⟩ := h
    obtain ⟨hlength, hrest⟩ := ih hothers
    refine ⟨by simp [hlength], fun i g hg => ?_⟩
    cases i with
    | zero =>
      cases hg
      exact ⟨field, rfl, hfield⟩
    | succ i =>
      obtain ⟨field', hfield', hcompile⟩ := hrest i g hg
      exact ⟨field', hfield', by rw [← hcompile, Nat.add_assoc, Nat.add_comm 1 i]⟩

/-- A field has the names of its feature, and is read from a range that has all of it. -/
theorem compileField_ok {field : CompiledField} (h : compileField index f layout = .ok field) :
    field.name = f.name ∧ field.region = f.region ∧ field.sourceOffset = f.offset ∧
      f.widthOf = .ok field.width ∧ ∃ before range after, layout = before ++ range :: after ∧
        range.region = f.region ∧ range.offset ≤ f.offset ∧
        f.offset + field.width ≤ range.offset + range.len ∧
        field.packedOffset = (before.map (·.len)).sum + (f.offset - range.offset) := by
  simp only [compileField, bind_eq_ok] at h
  obtain ⟨width, hwidth, h⟩ := h
  split at h
  · cases h
  · rename_i found range hrange
    simp only [bind_eq_ok, pure, Except.pure, Except.ok.injEq] at h
    obtain ⟨_, -, _, -, _, -, rfl⟩ := h
    obtain ⟨before, after, rfl, hfound, hregion, hle, hstop⟩ := coveringRange_ok hrange
    refine ⟨rfl, rfl, rfl, hwidth, before, range, after, rfl, hregion, hle, hstop, ?_⟩
    rw [hfound, Nat.zero_add]

/-- A feature that some range has all of gets a field, unless a number is too large. -/
theorem compileField_ne_featureNotCovered (hwidth : f.widthOf = .ok width)
    (hsum : (layout.map (·.len)).sum < 2 ^ 32)
    (h : ∃ range ∈ layout, range.region = f.region ∧ range.offset ≤ f.offset ∧
      f.offset + width ≤ range.offset + range.len) (name : String) :
    compileField index f layout ≠ .error (.featureNotCovered name) := by
  obtain ⟨found, range, hrange⟩ := exists_coveringRange (show 0 + _ < 2 ^ 32 by omega) h
  obtain ⟨before, after, rfl, -, -, hle, hstop⟩ := coveringRange_ok hrange
  have hpos := Feature.widthOf_pos hwidth
  have hlen : range.len < 2 ^ 32 := by
    simp only [List.map_append, List.map_cons, List.sum_append, List.sum_cons] at hsum
    omega
  have hdelta : ¬ 2 ^ 32 ≤ f.offset - range.offset := by omega
  intro heq
  simp only [compileField, bind_eq_error, hwidth, Except.ok.injEq, exists_eq_left', hrange,
    refuseIf_eq_error, hdelta, false_and, reduceCtorEq, and_false, pure, Except.pure,
    exists_false, or_false] at heq

/-- A range of the merged intervals has all of a feature of its region. -/
theorem MergedOf.has (h : MergedOf fs f.region (rangesOf layout f.region)) (hf : f ∈ fs)
    (hstop : f.endOf = .ok stop) :
    ∃ range ∈ layout, range.region = f.region ∧ range.offset ≤ f.offset ∧
      stop ≤ range.offset + range.len := by
  obtain ⟨i, hi, hle, hge⟩ := h.spans f hf rfl stop hstop
  obtain ⟨range, hrange, rfl⟩ := List.mem_map.mp hi
  exact ⟨range, (List.mem_filter.mp hrange).1, h.named range hrange, hle, hge⟩

theorem extractRanges_ne_featureNotCovered (region : String) (version : Nat) (is : List (Nat × Nat))
    (name : String) : extractRanges region version is ≠ .error (.featureNotCovered name) := by
  induction is with
  | nil => nofun
  | cons i rest ih =>
    simp only [extractRanges, ne_eq, bind_eq_error, refuseIf_eq_error, ih, reduceCtorEq, and_false,
      pure, Except.pure, exists_false, or_false, not_false_eq_true]

theorem compileRanges_ne_featureNotCovered (h : ∀ f ∈ fs, ∃ stop, f.endOf = .ok stop)
    (regions : List FeatureRegion) (name : String) :
    compileRanges fs layouts regions ≠ .error (.featureNotCovered name) := by
  induction regions with
  | nil => nofun
  | cons region rest ih =>
    unfold compileRanges
    split
    · simp
    · obtain ⟨is, his⟩ := exists_intervals h region.name
      simp only [ne_eq, bind_eq_error, his, extractRanges_ne_featureNotCovered, ih, reduceCtorEq,
        pure, Except.pure, and_false, exists_false, or_false, not_false_eq_true]

theorem totalFeatureBytesLen_ne_featureNotCovered (total : Nat) (name : String) :
    totalFeatureBytesLen total layout ≠ .error (.featureNotCovered name) := by
  induction layout generalizing total with
  | nil => nofun
  | cons range rest ih =>
    simp only [totalFeatureBytesLen, ne_eq, bind_eq_error, refuseIf_eq_error, ih, reduceCtorEq,
      and_false, exists_false, or_false, not_false_eq_true]

theorem compileFields_ne_featureNotCovered {name : String}
    (h : ∀ f ∈ fs, ∀ index, compileField index f layout ≠ .error (.featureNotCovered name)) :
    compileFields layout index fs ≠ .error (.featureNotCovered name) := by
  induction fs generalizing index with
  | nil => nofun
  | cons f rest ih =>
    have hrest := fun index => @ih index fun g hg => h g (List.mem_cons_of_mem _ hg)
    simp only [compileFields, ne_eq, bind_eq_error, h f List.mem_cons_self, hrest, reduceCtorEq,
      pure, Except.pure, and_false, exists_false, or_false, not_false_eq_true]

/-! ### Memory -/

section

variable {α : Type} {memory : String → List α}

/-- No range ends after its region does. -/
theorem range_fits (hregions : ValidRegions layouts [] map.regions)
    (hplaced : ∀ f ∈ map.features, f.Placed map)
    (hranges : compileRanges map.features layouts map.regions = .ok layout)
    (hmemory : MemoryImage layouts memory) :
    ∀ range ∈ layout, range.offset + range.len ≤ (memory range.region).length := by
  intro range hrange
  obtain ⟨hnamed, hmerged⟩ := compileRanges_ok hranges hregions.nodup
  obtain ⟨region, hregion, hname⟩ := hnamed range hrange
  obtain ⟨regionLayout, hlookup, hsize⟩ := hregions.fits region hregion
  rw [← hname, hmemory region.name regionLayout hlookup]
  have hmerged := hmerged region hregion
  have hmem : range ∈ rangesOf layout region.name :=
    List.mem_filter.mpr ⟨hrange, decide_eq_true hname.symm⟩
  have hproper := hmerged.separated.proper _ (List.mem_map_of_mem hmem)
  simp only [ExtractRange.interval] at hproper
  -- the last byte of the range belongs to a feature
  obtain ⟨f, hf, hfregion, stop, hstop, hle, hlt⟩ :=
    (hmerged.covers (range.offset + range.len - 1)).mp
      ⟨range.interval, List.mem_map_of_mem hmem, by simp only [ExtractRange.interval]; omega⟩
  obtain ⟨home, hhome, hhomeName, stop', hstop', hsize'⟩ := hplaced f hf
  have hsame : home = region :=
    List.inj_on_of_nodup_map hregions.nodup hhome hregion (hhomeName.trans hfregion)
  obtain rfl : stop = stop' := Except.ok.inj (hstop.symm.trans hstop')
  subst hsame
  omega

theorem length_packed
    (h : ∀ range ∈ layout, range.offset + range.len ≤ (memory range.region).length) :
    (packed memory layout).length = (layout.map (·.len)).sum := by
  rw [packed, List.length_flatMap]
  exact congrArg List.sum (List.map_congr_left fun range hrange => length_slice (h range hrange))

/-- A part of a range is found after the ranges before it. -/
theorem slice_packed {before after : List ExtractRange} {range : ExtractRange} {offset width : Nat}
    (h : ∀ r ∈ before ++ range :: after, r.offset + r.len ≤ (memory r.region).length)
    (hle : range.offset ≤ offset) (hstop : offset + width ≤ range.offset + range.len) :
    slice (packed memory (before ++ range :: after))
        ((before.map (·.len)).sum + (offset - range.offset)) width =
      slice (memory range.region) offset width := by
  have hrange : (range.extract memory).length = range.len :=
    length_slice (h range (List.mem_append_right _ List.mem_cons_self))
  have hpacked : packed memory (before ++ range :: after) =
      packed memory before ++ (range.extract memory ++ packed memory after) := by
    simp only [packed, List.flatMap_append, List.flatMap_cons]
  rw [hpacked, ← length_packed fun r hr => h r (List.mem_append_left _ hr), slice_append_right,
    slice_append_left _ (by omega), ExtractRange.extract, slice_slice _ (by omega),
    Nat.add_sub_cancel' hle]

end

/-! ### The compiled map -/

theorem compileFeatureMap_eq_ok (h : compileFeatureMap map layouts = .ok compiled) :
    validateFeatureMap map layouts = .ok () ∧
      compileRanges map.features layouts map.regions = .ok compiled.layout ∧
      totalFeatureBytesLen 0 compiled.layout = .ok compiled.totalLen ∧
      compileFields compiled.layout 0 map.features = .ok compiled.fields := by
  simp only [compileFeatureMap, bind_eq_ok, pure, Except.pure, Except.ok.injEq] at h
  obtain ⟨_, hvalid, layout, hlayout, total, htotal, fields, hfields, rfl⟩ := h
  exact ⟨hvalid, hlayout, htotal, hfields⟩

/-- The merged intervals of every region, also of one the map does not have. -/
theorem mergedOf_compiled (h : compileFeatureMap map layouts = .ok compiled) (region : String) :
    MergedOf map.features region (rangesOf compiled.layout region) := by
  obtain ⟨hvalid, hlayout, -, -⟩ := compileFeatureMap_eq_ok h
  obtain ⟨hregions, hplaced⟩ := validateFeatureMap_ok hvalid
  obtain ⟨hnamed, hmerged⟩ := compileRanges_ok hlayout hregions.nodup
  by_cases hknown : ∃ r ∈ map.regions, r.name = region
  · obtain ⟨r, hr, rfl⟩ := hknown
    exact hmerged r hr
  · have hnone : ∀ f ∈ map.features, f.region ≠ region := by
      rintro f hf rfl
      obtain ⟨r, hr, hname, -⟩ := hplaced f hf
      exact hknown ⟨r, hr, hname⟩
    have hempty : rangesOf compiled.layout region = [] := by
      refine List.filter_eq_nil_iff.mpr fun range hrange hname => hknown ?_
      obtain ⟨r, hr, hr'⟩ := hnamed range hrange
      exact ⟨r, hr, hr'.trans (of_decide_eq_true hname)⟩
    rw [hempty]
    refine ⟨by simp, ⟨by simp, .nil⟩, fun x => ?_, fun f hf hregion => absurd hregion (hnone f hf)⟩
    constructor
    · rintro ⟨i, hi, -⟩
      cases hi
    · rintro ⟨f, hf, hregion, -⟩
      exact absurd hregion (hnone f hf)

theorem compileFeatureMap_faithful (h : compileFeatureMap map layouts = .ok compiled) :
    compiled.Faithful map layouts := by
  obtain ⟨hvalid, hlayout, htotal, hfields⟩ := compileFeatureMap_eq_ok h
  obtain ⟨hregions, hplaced⟩ := validateFeatureMap_ok hvalid
  have hmerged := mergedOf_compiled h
  obtain ⟨hlength, hfield⟩ := compileFields_ok hfields
  have htotal : compiled.totalLen = (compiled.layout.map (·.len)).sum := by
    rw [(totalFeatureBytesLen_eq_ok.mp htotal).1, Nat.zero_add]
  refine
    { separated := fun region => (hmerged region).separated
      covers := fun region x => ?_
      total := htotal
      length := hlength
      fields := fun i f hf => ?_ }
  · rw [(hmerged region).covers]
    constructor
    · rintro ⟨f, hf, hregion, stop, hstop, hle, hlt⟩
      obtain ⟨width, hwidth, -, rfl⟩ := Feature.endOf_eq_ok.mp hstop
      exact ⟨f, hf, hregion, width, hwidth, hle, hlt⟩
    · rintro ⟨f, hf, hregion, width, hwidth, hle, hlt⟩
      obtain ⟨-, -, -, stop, hstop, -⟩ := hplaced f hf
      obtain ⟨width', hwidth', -, rfl⟩ := Feature.endOf_eq_ok.mp hstop
      obtain rfl : width = width' := Except.ok.inj (hwidth.symm.trans hwidth')
      exact ⟨f, hf, hregion, _, hstop, hle, hlt⟩
  · obtain ⟨field, hget, hcompile⟩ := hfield i f hf
    obtain ⟨hname, hregion, hoffset, hwidth, before, range, after, hsplit, hrange, hle, hstop,
      hpacked⟩ := compileField_ok hcompile
    refine ⟨field, hget, hname, hregion, hoffset, hwidth, ?_, fun memory hmemory => ?_⟩
    · rw [htotal, hsplit, hpacked, List.map_append, List.map_cons, List.sum_append, List.sum_cons]
      omega
    · have hfits := range_fits hregions hplaced hlayout hmemory
      rw [hsplit] at hfits ⊢
      rw [hpacked, slice_packed hfits hle hstop, hrange]

theorem compileFeatureMap_ne_featureNotCovered (hvalid : validateFeatureMap map layouts = .ok ())
    (name : String) : compileFeatureMap map layouts ≠ .error (.featureNotCovered name) := by
  obtain ⟨hregions, hplaced⟩ := validateFeatureMap_ok hvalid
  have hends : ∀ f ∈ map.features, ∃ stop, f.endOf = .ok stop := by
    intro f hf
    obtain ⟨-, -, -, stop, hstop, -⟩ := hplaced f hf
    exact ⟨stop, hstop⟩
  intro heq
  simp only [compileFeatureMap, bind_eq_error, hvalid, reduceCtorEq, false_or,
    compileRanges_ne_featureNotCovered hends, totalFeatureBytesLen_ne_featureNotCovered, pure,
    Except.pure, and_false, exists_false, or_false] at heq
  obtain ⟨_, -, layout, hlayout, total, htotal, hfields⟩ := heq
  refine compileFields_ne_featureNotCovered (fun f hf index => ?_) hfields
  obtain ⟨region, hregion, hname, stop, hstop, -⟩ := hplaced f hf
  obtain ⟨-, hmerged⟩ := compileRanges_ok hlayout hregions.nodup
  have hhas := (hname ▸ hmerged region hregion).has hf hstop
  obtain ⟨width, hwidth, -, rfl⟩ := Feature.endOf_eq_ok.mp hstop
  refine compileField_ne_featureNotCovered hwidth ?_ hhas name
  obtain ⟨hsum, hroom⟩ := totalFeatureBytesLen_eq_ok.mp htotal
  obtain ⟨range, hrange, -⟩ := hhas
  have := hroom.resolve_left (List.ne_nil_of_mem hrange)
  omega

/-- **Feature-map compilation.** -/
theorem feature_map_compilation (map : FeatureMap) (layouts : RegionLayouts) :
    (∀ compiled, compileFeatureMap map layouts = .ok compiled → compiled.Faithful map layouts) ∧
      (validateFeatureMap map layouts = .ok () →
        ∀ name, compileFeatureMap map layouts ≠ .error (.featureNotCovered name)) :=
  ⟨fun _ h => compileFeatureMap_faithful h, compileFeatureMap_ne_featureNotCovered⟩

/-- Overlapping and touching features out of order, in two regions. -/
def overlappingMap : FeatureMap where
  schemaVersion := 1
  metadata := ⟨"overlap", 1⟩
  regions := [⟨"wram", 128⟩, ⟨"framebuffer", 64⟩]
  features :=
    [⟨"tail", "wram", 36, .u16Le, none, "tail", .stable, .identity, none⟩,
      ⟨"pixels", "framebuffer", 4, .bytes, some 3, "pixels", .stable, .none, none⟩,
      ⟨"middle", "wram", 33, .u16Le, none, "middle", .stable, .identity, none⟩,
      ⟨"whole", "wram", 32, .u32Le, none, "whole", .stable, .identity, none⟩,
      ⟨"apart", "wram", 40, .u8, none, "apart", .stable, .identity, none⟩]

def overlappingLayouts : RegionLayouts := [("framebuffer", ⟨64, 3⟩), ("wram", ⟨128, 7⟩)]

theorem feature_map_compilation_overlap :
    ∃ compiled, compileFeatureMap overlappingMap overlappingLayouts = .ok compiled ∧
      compiled.layout.map (·.interval) = [(32, 38), (40, 41), (4, 7)] ∧
      compiled.fields.map (·.packedOffset) = [4, 7, 1, 0, 6] ∧
      compiled.Faithful overlappingMap overlappingLayouts := by
  have hcompiles : ∃ compiled, compileFeatureMap overlappingMap overlappingLayouts = .ok compiled ∧
      compiled.layout.map (·.interval) = [(32, 38), (40, 41), (4, 7)] ∧
      compiled.fields.map (·.packedOffset) = [4, 7, 1, 0, 6] := by
    refine ⟨_, rfl, ?_, ?_⟩ <;> decide +kernel
  obtain ⟨compiled, hcompiled, hlayout, hfields⟩ := hcompiles
  exact ⟨compiled, hcompiled, hlayout, hfields, (feature_map_compilation _ _).1 compiled hcompiled⟩

end Orchestrator.Core
