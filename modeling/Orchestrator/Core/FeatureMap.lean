import Mathlib.Algebra.Ring.Nat
import Mathlib.Data.List.Sort
import Orchestrator.Lib.StateError

/-! # Core — Feature maps

The feature-map compiler and its L4 coarsening. Offsets and sizes are `u64`, widths, lengths
and versions `u32`: where the code adds with a check, so does the model. Of a document, the
free-form `extra` entries and the descriptive part of the metadata are left out.
-/

namespace Orchestrator.Core

open Lib

structure RegionLayout where
  size : Nat
  layoutVersion : Nat
deriving DecidableEq, Repr

/-- The layouts by the region's name. -/
abbrev RegionLayouts := List (String × RegionLayout)

structure FeatureRegion where
  name : String
  size : Nat
deriving DecidableEq, Repr

inductive FeatureValueType where
  | u8 | u16Le | u16Be | u32Le | u32Be | i8 | i16Le | i16Be | i32Le | i32Be
  | bitflags8 | bitflags16Le | bitflags32Le | bcd8 | bcd16Le | bytes
deriving DecidableEq, Repr

namespace FeatureValueType

def derivedWidth : FeatureValueType → Option Nat
  | .u8 | .i8 | .bitflags8 | .bcd8 => some 1
  | .u16Le | .u16Be | .i16Le | .i16Be | .bitflags16Le | .bcd16Le => some 2
  | .u32Le | .u32Be | .i32Le | .i32Be | .bitflags32Le => some 4
  | .bytes => none

def isIntegerScalar : FeatureValueType → Bool
  | .u8 | .u16Le | .u16Be | .u32Le | .u32Be | .i8 | .i16Le | .i16Be | .i32Le | .i32Be => true
  | _ => false

def isBitflags : FeatureValueType → Bool
  | .bitflags8 | .bitflags16Le | .bitflags32Le => true
  | _ => false

end FeatureValueType

inductive FeatureStability where
  | stable | volatile
deriving DecidableEq, Repr

inductive Discretize where
  | none
  | identity
  | bucket (size : Nat)
  | threshold (edges : List Int)
  | bits
  | grid (x y room : String) (cellW cellH : Nat)
deriving DecidableEq, Repr

inductive PredicateOp where
  | eq | ne | ge | le
deriving DecidableEq, Repr

structure FeaturePredicate where
  feature : String
  op : PredicateOp
  value : Int
deriving DecidableEq, Repr

structure Feature where
  name : String
  region : String
  offset : Nat
  valueType : FeatureValueType
  width : Option Nat
  semantics : String
  stability : FeatureStability
  discretize : Discretize
  validWhen : Option FeaturePredicate
deriving DecidableEq, Repr

structure FeatureMapMeta where
  name : String
  version : Nat
deriving DecidableEq, Repr

structure FeatureMap where
  schemaVersion : Nat
  metadata : FeatureMapMeta
  regions : List FeatureRegion
  features : List Feature
deriving DecidableEq, Repr

structure ExtractRange where
  region : String
  layoutVersion : Nat
  offset : Nat
  len : Nat
deriving DecidableEq, Repr

structure CompiledField where
  fieldIndex : Nat
  name : String
  region : String
  sourceOffset : Nat
  width : Nat
  packedOffset : Nat
  valueType : FeatureValueType
  semantics : String
  stability : FeatureStability
  discretize : Discretize
  validWhen : Option FeaturePredicate
deriving DecidableEq, Repr

structure CompiledFeatureMap where
  metadata : FeatureMapMeta
  layout : List ExtractRange
  fields : List CompiledField
  totalLen : Nat
deriving DecidableEq, Repr

inductive CompileError where
  | wrongSchemaVersion (version : Nat)
  | invalidName (field name : String)
  | duplicateRegion (name : String)
  | duplicateFeature (name : String)
  | unknownRegion (feature region : String)
  | unknownRegionLayout (region : String)
  | regionSizeMismatch (region : String)
  | missingBytesWidth (feature : String)
  | emptyBytesFeature (feature : String)
  | widthMismatch (feature : String)
  | featureOutOfBounds (feature region : String)
  | totalLengthOverflow
  | featureNotCovered (feature : String)
  | invalidGridReference (feature target : String)
  | invalidGridDoubleCount (feature target : String)
  | invalidGridCellSize (feature : String)
  | invalidBucketSize (feature : String)
  | invalidBitflagsDiscretize (feature : String)
  | radiusOverflow
  | versionOverflow
  | layoutChangedByCoarsening
deriving DecidableEq, Repr

/-- The text of an error. -/
def CompileError.display : CompileError → String
  | .wrongSchemaVersion version => s!"unsupported feature-map schema version {version}"
  | .invalidName field name => s!"invalid {field} name {name}"
  | .duplicateRegion name => s!"duplicate region {name}"
  | .duplicateFeature name => s!"duplicate feature {name}"
  | .unknownRegion feature region => s!"feature {feature} references unknown region {region}"
  | .unknownRegionLayout region => s!"missing layout metadata for region {region}"
  | .regionSizeMismatch region => s!"feature-map region {region} exceeds manifest region size"
  | .missingBytesWidth feature => s!"bytes feature {feature} must declare width"
  | .emptyBytesFeature feature => s!"bytes feature {feature} must have nonzero width"
  | .widthMismatch feature => s!"feature {feature} declares a mismatched width"
  | .featureOutOfBounds feature region => s!"feature {feature} is out of bounds for region {region}"
  | .totalLengthOverflow => "compiled layout length overflows u32"
  | .featureNotCovered feature => s!"feature {feature} is not covered by compiled layout"
  | .invalidGridReference feature target =>
    s!"grid feature {feature} has invalid reference {target}"
  | .invalidGridDoubleCount feature target =>
    s!"grid feature {feature} would double-count target {target}"
  | .invalidGridCellSize feature => s!"grid feature {feature} must have nonzero cell size"
  | .invalidBucketSize feature => s!"bucket feature {feature} must have nonzero size"
  | .invalidBitflagsDiscretize feature =>
    s!"bitflags feature {feature} must use bits or none discretization"
  | .radiusOverflow => "radius factor scaling overflows u64"
  | .versionOverflow => "feature-map version overflow"
  | .layoutChangedByCoarsening => "L4 coarsening changed the compiled layout"

/-! ### Validation -/

/-- `Feature::width`. -/
def Feature.widthOf (f : Feature) : Except CompileError Nat :=
  match f.valueType.derivedWidth, f.width with
  | some derived, some width =>
    if width ≠ derived then .error (.widthMismatch f.name) else .ok derived
  | some derived, none => .ok derived
  | none, none => .error (.missingBytesWidth f.name)
  | none, some width => if width = 0 then .error (.emptyBytesFeature f.name) else .ok width

/-- Where a feature ends in its region. -/
def Feature.endOf (f : Feature) : Except CompileError Nat := do
  let width ← f.widthOf
  refuseIf (2 ^ 64 ≤ f.offset + width) (.featureOutOfBounds f.name f.region)
  pure (f.offset + width)

/-- `validate_name`. -/
def validateName (field name : String) (allowHyphen : Bool) : Except CompileError Unit :=
  match name.toList with
  | [] => .error (.invalidName field name)
  | first :: rest =>
    if !first.isLower then .error (.invalidName field name)
    else if !rest.all fun c => c.isLower || c.isDigit || c == '_' || (allowHyphen && c == '-') then
      .error (.invalidName field name)
    else .ok ()

/-- `validate_feature_bounds`. -/
def validateFeatureBounds (map : FeatureMap) (f : Feature) : Except CompileError Unit :=
  match map.regions.find? (·.name == f.region) with
  | none => .error (.unknownRegion f.name f.region)
  | some region => do
    let stop ← f.endOf
    refuseIf (region.size < stop) (.featureOutOfBounds f.name f.region)

/-- `validate_grid_target`. -/
def validateGridTarget (map : FeatureMap) (f : Feature) (target : String) (mustBeInteger : Bool) :
    Except CompileError Unit :=
  match map.features.find? (·.name == target) with
  | none => .error (.invalidGridReference f.name target)
  | some g => do
    refuseIf (mustBeInteger ∧ !g.valueType.isIntegerScalar) (.invalidGridReference f.name target)
    refuseIf (mustBeInteger ∧ g.name ≠ f.name ∧ g.discretize ≠ .none)
      (.invalidGridDoubleCount f.name target)
    refuseIf (!mustBeInteger ∧ g.stability ≠ .stable) (.invalidGridReference f.name target)

/-- `validate_discretize`. -/
def validateDiscretize (map : FeatureMap) (f : Feature) : Except CompileError Unit := do
  refuseIf (f.valueType.isBitflags ∧ f.discretize ≠ .bits ∧ f.discretize ≠ .none)
    (.invalidBitflagsDiscretize f.name)
  match f.discretize with
  | .bucket size => refuseIf (size = 0) (.invalidBucketSize f.name)
  | .grid x y room cellW cellH => do
    refuseIf (cellW = 0 ∨ cellH = 0) (.invalidGridCellSize f.name)
    validateGridTarget map f x true
    validateGridTarget map f y true
    validateGridTarget map f room false
  | .none | .identity | .threshold _ | .bits => .ok ()

/-- The regions of `validate_feature_map`, after those with the names `seen`. -/
def validateRegions (layouts : RegionLayouts) (seen : List String) :
    List FeatureRegion → Except CompileError Unit
  | [] => .ok ()
  | region :: rest => do
    validateName "region" region.name false
    refuseIf (region.name ∈ seen) (.duplicateRegion region.name)
    match layouts.lookup region.name with
    | none => .error (.unknownRegionLayout region.name)
    | some layout => refuseIf (layout.size < region.size) (.regionSizeMismatch region.name)
    validateRegions layouts (region.name :: seen) rest

/-- The features of `validate_feature_map`, after those with the names `seen`. -/
def validateFeatures (map : FeatureMap) (seen : List String) :
    List Feature → Except CompileError Unit
  | [] => .ok ()
  | f :: rest => do
    validateName "feature" f.name false
    refuseIf (f.name ∈ seen) (.duplicateFeature f.name)
    validateFeatureBounds map f
    validateDiscretize map f
    validateFeatures map (f.name :: seen) rest

/-- `validate_feature_map`. -/
def validateFeatureMap (map : FeatureMap) (layouts : RegionLayouts) : Except CompileError Unit := do
  refuseIf (map.schemaVersion ≠ 1) (.wrongSchemaVersion map.schemaVersion)
  validateName "meta.name" map.metadata.name true
  validateRegions layouts [] map.regions
  validateFeatures map [] map.features

/-! ### Compilation -/

/-- The intervals that the features of a region cover. -/
def intervals (region : String) : List Feature → Except CompileError (List (Nat × Nat))
  | [] => .ok []
  | f :: rest =>
    if f.region = region then do
      let stop ← f.endOf
      let others ← intervals region rest
      pure ((f.offset, stop) :: others)
    else intervals region rest

/-- Extends the last merged interval, or begins a new one. -/
def mergeInterval (merged : List (Nat × Nat)) (interval : Nat × Nat) : List (Nat × Nat) :=
  match merged.getLast? with
  | some (start, stop) =>
    if interval.1 ≤ stop then merged.dropLast ++ [(start, max stop interval.2)]
    else merged ++ [interval]
  | none => [interval]

/-- The intervals as ranges of their region. -/
def extractRanges (region : String) (layoutVersion : Nat) :
    List (Nat × Nat) → Except CompileError (List ExtractRange)
  | [] => .ok []
  | (start, stop) :: rest => do
    refuseIf (2 ^ 32 ≤ stop - start) .totalLengthOverflow
    let others ← extractRanges region layoutVersion rest
    pure (⟨region, layoutVersion, start, stop - start⟩ :: others)

/-- The ranges of `compile_feature_map`, region after region. -/
def compileRanges (features : List Feature) (layouts : RegionLayouts) :
    List FeatureRegion → Except CompileError (List ExtractRange)
  | [] => .ok []
  | region :: rest =>
    match layouts.lookup region.name with
    | none => .error (.unknownRegionLayout region.name)
    | some layout => do
      let covered ← intervals region.name features
      let merged := (covered.insertionSort fun i j => i.1 ≤ j.1).foldl mergeInterval []
      let ranges ← extractRanges region.name layout.layoutVersion merged
      let others ← compileRanges features layouts rest
      pure (ranges ++ others)

/-- `total_feature_bytes_len`, after `total` bytes. -/
def totalFeatureBytesLen (total : Nat) : List ExtractRange → Except CompileError Nat
  | [] => .ok total
  | range :: rest => do
    refuseIf (2 ^ 32 ≤ total + range.len) .totalLengthOverflow
    totalFeatureBytesLen (total + range.len) rest

/-- The range that covers a feature, with the bytes packed before it. The scan stops where
their number overflows. -/
def coveringRange (f : Feature) (width base : Nat) : List ExtractRange → Option (Nat × ExtractRange)
  | [] => none
  | range :: rest =>
    if 2 ^ 32 ≤ base + range.len then none
    else if range.region = f.region ∧ range.offset ≤ f.offset ∧
        f.offset + width ≤ range.offset + range.len then some (base, range)
    else coveringRange f width (base + range.len) rest

/-- `compile_field`. -/
def compileField (index : Nat) (f : Feature) (layout : List ExtractRange) :
    Except CompileError CompiledField := do
  let width ← f.widthOf
  match coveringRange f width 0 layout with
  | none => .error (.featureNotCovered f.name)
  | some (base, range) => do
    refuseIf (2 ^ 32 ≤ f.offset - range.offset) (.featureNotCovered f.name)
    refuseIf (2 ^ 32 ≤ base + (f.offset - range.offset)) .totalLengthOverflow
    refuseIf (2 ^ 32 ≤ index) .totalLengthOverflow
    pure
      { fieldIndex := index, name := f.name, region := f.region, sourceOffset := f.offset, width
        packedOffset := base + (f.offset - range.offset), valueType := f.valueType
        semantics := f.semantics, stability := f.stability, discretize := f.discretize
        validWhen := f.validWhen }

/-- The fields of `compile_feature_map`, from an index on. -/
def compileFields (layout : List ExtractRange) (index : Nat) :
    List Feature → Except CompileError (List CompiledField)
  | [] => .ok []
  | f :: rest => do
    let field ← compileField index f layout
    let others ← compileFields layout (index + 1) rest
    pure (field :: others)

/-- `compile_feature_map`. -/
def compileFeatureMap (map : FeatureMap) (layouts : RegionLayouts) :
    Except CompileError CompiledFeatureMap := do
  validateFeatureMap map layouts
  let layout ← compileRanges map.features layouts map.regions
  let totalLen ← totalFeatureBytesLen 0 layout
  let fields ← compileFields layout 0 map.features
  pure { metadata := map.metadata, layout, fields, totalLen }

/-! ### Coarsening -/

structure RadiusFactor where
  numerator : Nat
  denominator : Nat
  positive : 0 < denominator
deriving DecidableEq

/-- `scale_positive`. The product is taken in 128 bits and cannot overflow. -/
def scalePositive (value : Nat) (radius : RadiusFactor) : Except CompileError Nat := do
  let scaled := (value * radius.numerator + (radius.denominator - 1)) / radius.denominator
  refuseIf (2 ^ 64 ≤ scaled) .radiusOverflow
  pure (max scaled 1)

/-- The sizes of a feature, scaled. -/
def coarsenFeature (radius : RadiusFactor) (f : Feature) : Except CompileError Feature :=
  match f.discretize with
  | .bucket size => do
    let size ← scalePositive size radius
    pure { f with discretize := .bucket size }
  | .grid x y room cellW cellH => do
    let cellW ← scalePositive cellW radius
    let cellH ← scalePositive cellH radius
    pure { f with discretize := .grid x y room cellW cellH }
  | .none | .identity | .threshold _ | .bits => .ok f

/-- The loop of `coarsen_l4`. -/
def coarsenFeatures (radius : RadiusFactor) : List Feature → Except CompileError (List Feature)
  | [] => .ok []
  | f :: rest => do
    let f ← coarsenFeature radius f
    let rest ← coarsenFeatures radius rest
    pure (f :: rest)

/-- `coarsen_l4`. -/
def coarsenL4 (map : FeatureMap) (layouts : RegionLayouts) (radius : RadiusFactor) :
    Except CompileError FeatureMap := do
  validateFeatureMap map layouts
  refuseIf (2 ^ 32 ≤ map.metadata.version + 1) .versionOverflow
  let features ← coarsenFeatures radius map.features
  pure { map with
    metadata := { map.metadata with version := map.metadata.version + 1 }
    features }

/-- `coarsen_l4_preserving_layout`. -/
def coarsenL4PreservingLayout (map : FeatureMap) (layouts : RegionLayouts) (radius : RadiusFactor) :
    Except CompileError FeatureMap := do
  let before ← compileFeatureMap map layouts
  let coarsened ← coarsenL4 map layouts radius
  let after ← compileFeatureMap coarsened layouts
  refuseIf (before.layout ≠ after.layout) .layoutChangedByCoarsening
  pure coarsened

end Orchestrator.Core
