import Orchestrator.Core.Coarsening
import Orchestrator.Server.Environment

/-! # Server — Re-bin

The L4 re-bin as the scorer sees it. The runner coarsens its feature map, compiles it and
loads it again; what it sends is the reference of the configured artifact and the compiled
layout. Neither depends on how often the map was coarsened, so the scorer is loaded with what
it already has.

* `rebin_reaches_scorer_iff`
-/

namespace Orchestrator.Server

open Core Services Lib

/-- The parts of `ExperimentSources` and of the configuration that the map is made of. The
radius is the configured factor in thousandths. -/
structure Sources where
  featureMap : FeatureMap
  regionLayouts : RegionLayouts
  featureMapRef : String
  radius : RadiusFactor

inductive ArtifactSource where
  | inlineYaml (bytes : Bytes)
  | artifactRef (reference : String)
deriving DecidableEq, Repr

structure LoadFeatureMapRequest where
  source : ArtifactSource
  layout : List ExtractRange
  rebin : Bool
deriving DecidableEq, Repr

/-- The digests the scorer compares: `hash_artifact_source` and `layout_signature`. -/
structure Digests where
  artifact : ArtifactSource → Nat
  layout : List ExtractRange → Nat

namespace Sources

/-- `coarsened_map`. -/
def coarsenedMap (s : Sources) : Nat → Except ClientError FeatureMap
  | 0 => .ok s.featureMap
  | version + 1 => do
    let map ← coarsenedMap s version
    (coarsenL4PreservingLayout map s.regionLayouts s.radius).mapError fun e =>
      let text := e.display
      .new .internal (s!"L4 coarsening failed: {text}")

/-- The compilation `bring_up` begins with. -/
def compile (s : Sources) (map : FeatureMap) : Except ClientError CompiledFeatureMap :=
  (compileFeatureMap map s.regionLayouts).mapError fun e =>
    let text := e.display
    .new .invalidRequest (s!"feature map compilation failed: {text}")

/-- The request `bring_up` makes of it. -/
def loadFeatureMapRequest (s : Sources) (compiled : CompiledFeatureMap) (rebin : Bool) :
    LoadFeatureMapRequest :=
  { source := .artifactRef s.featureMapRef, layout := compiled.layout, rebin }

/-- The request for the map coarsened so many times. -/
def requestAt (s : Sources) (version : Nat) (rebin : Bool) :
    Except ClientError LoadFeatureMapRequest := do
  let map ← s.coarsenedMap version
  let compiled ← s.compile map
  pure (s.loadFeatureMapRequest compiled rebin)

/-- The map coarsened so many times, as the runner keeps it. -/
def compiledMap (s : Sources) (digests : Digests) (version : Nat) :
    Except ClientError CompiledMap := do
  let map ← s.coarsenedMap version
  let compiled ← s.compile map
  pure ⟨version, digests.layout compiled.layout, compiled.fields.map (·.name)⟩

end Sources

variable {F : Type} [Float64 F]

/-- An experiment whose feature map has these sources. -/
def Experiment.withSources (exp : Experiment F) (s : Sources) (digests : Digests) : Experiment F :=
  { exp with
    compiledMap := s.compiledMap digests
    featureMapHash := digests.artifact (.artifactRef s.featureMapRef) }

/-! ### What a re-bin is to do -/

/-- The requests before and after a coarsening pass differ in more than their flag. -/
def RequestsDiffer (s : Sources) (version : Nat) : Prop :=
  ∀ rebin request request', s.requestAt version rebin = .ok request →
    s.requestAt (version + 1) true = .ok request' →
      request.source ≠ request'.source ∨ request.layout ≠ request'.layout

/-- When `maybe_rebin` returns, the cell counts of the old map are gone from the runner's
mirror and from the scorer that had loaded it. -/
def CountsDropped (F : Type) [Float64 F] (s : Sources) (digests : Digests) (version : Nat) : Prop :=
  ∀ (exp : Experiment F) (r : Runner F) (w : World F), r.bringup.passes = version →
    r.ladder.featureMapVersion = version + 1 →
    w.scorer.archive.featureMapHash = some (exp.withSources s digests).featureMapHash →
    (maybeRebin (exp.withSources s digests)).Wp (env (exp.withSources s digests)) (fun _ => True)
      (fun _ r' w' => r'.commitState.cellMirror = .new ∧ w'.scorer.archive.cellCounts = ∅)
      (fun _ _ _ => True) r w

/-! ### What it does -/

section

variable {s : Sources} {compiled : CompiledFeatureMap} {digests : Digests}

theorem mapError_eq_ok {ε ε' α : Type} {f : ε → ε'} {x : Except ε α} {a : α} :
    x.mapError f = .ok a ↔ x = .ok a := by
  cases x <;> simp [Except.mapError]

variable {version : Nat}

theorem coarsenedMap_eq_ok (h : compileFeatureMap s.featureMap s.regionLayouts = .ok compiled)
    {map : FeatureMap} :
    s.coarsenedMap version = .ok map ↔
      ¬ s.featureMap.Overflows s.radius version ∧
        map = (FeatureMap.coarser s.radius)^[version] s.featureMap := by
  induction version generalizing map with
  | zero => simp [Sources.coarsenedMap, FeatureMap.Overflows, eq_comm]
  | succ version ih =>
    obtain ⟨compiled', hcompiled', -⟩ := compileFeatureMap_iterate s.radius h version
    simp only [Sources.coarsenedMap, bind_eq_ok, ih, mapError_eq_ok,
      FeatureMap.not_overflows_succ, Function.iterate_succ_apply']
    constructor
    · rintro ⟨_, ⟨hbefore, rfl⟩, hpass⟩
      obtain ⟨hfits, rfl⟩ := (coarsenL4PreservingLayout_eq_ok hcompiled').mp hpass
      exact ⟨⟨hbefore, hfits⟩, rfl⟩
    · rintro ⟨⟨hbefore, hfits⟩, rfl⟩
      exact ⟨_, ⟨hbefore, rfl⟩, (coarsenL4PreservingLayout_eq_ok hcompiled').mpr ⟨hfits, rfl⟩⟩

/-- **Every request is the same.** -/
theorem requestAt_eq_ok (h : compileFeatureMap s.featureMap s.regionLayouts = .ok compiled)
    {rebin : Bool} {request : LoadFeatureMapRequest} :
    s.requestAt version rebin = .ok request ↔
      ¬ s.featureMap.Overflows s.radius version ∧
        request = s.loadFeatureMapRequest compiled rebin := by
  obtain ⟨compiled', hcompiled', hlayout⟩ := compileFeatureMap_iterate s.radius h version
  simp only [Sources.requestAt, Sources.compile, bind_eq_ok, coarsenedMap_eq_ok h, mapError_eq_ok,
    pure, Except.pure, Except.ok.injEq]
  constructor
  · rintro ⟨_, ⟨hroom, rfl⟩, _, hcompiled, rfl⟩
    rw [hcompiled'] at hcompiled
    cases hcompiled
    exact ⟨hroom, by simp [Sources.loadFeatureMapRequest, hlayout]⟩
  · rintro ⟨hroom, rfl⟩
    exact ⟨_, ⟨hroom, rfl⟩, compiled', hcompiled', by simp [Sources.loadFeatureMapRequest, hlayout]⟩

theorem compiledMap_of_overflows (h : compileFeatureMap s.featureMap s.regionLayouts = .ok compiled)
    (ho : s.featureMap.Overflows s.radius version) {map : CompiledMap} :
    s.compiledMap digests version ≠ .ok map := by
  intro heq
  simp only [Sources.compiledMap, bind_eq_ok, coarsenedMap_eq_ok h] at heq
  obtain ⟨_, ⟨hroom, -⟩, -⟩ := heq
  exact hroom ho

/-- A re-bin that cannot compile its map makes no request. -/
theorem countsDropped_of_error (h : ∀ map, s.compiledMap digests (version + 1) ≠ .ok map) :
    CountsDropped F s digests version := by
  intro exp r w hpasses hversion _
  unfold maybeRebin
  rw [Proc.wp_bind, Proc.wp_get, if_neg (by omega), Proc.wp_bind, hversion, bringUp, Proc.wp_bind,
    Proc.wp_ofExcept]
  exact ⟨fun map hmap => absurd hmap (h map), fun _ _ => trivial⟩

/-- A scorer that has loaded the map, with a state counted under it. -/
def countedWorld (exp : Experiment F) : World F :=
  { World.empty with
    scorer := ⟨⟨some exp.featureMapHash, some exp.scoringProgramHash, none, 0, ∅,
      (∅ : Std.ExtTreeMap CellKey Nat).insert 0 1⟩, []⟩ }

/-- A re-bin that returns leaves the scorer's counts as they were. -/
theorem not_countsDropped (h : compileFeatureMap s.featureMap s.regionLayouts = .ok compiled)
    (hroom : ¬ s.featureMap.Overflows s.radius (version + 1)) (exp : Experiment F) (r : Runner F) :
    ¬ CountsDropped F s digests version := by
  intro hdrop
  obtain ⟨compiled', hcompiled', hlayout⟩ := compileFeatureMap_iterate s.radius h (version + 1)
  have hmap : s.compiledMap digests (version + 1) =
      .ok ⟨version + 1, digests.layout compiled'.layout, compiled'.fields.map (·.name)⟩ := by
    simp only [Sources.compiledMap, Sources.compile, bind_eq_ok, coarsenedMap_eq_ok h,
      mapError_eq_ok]
    exact ⟨_, ⟨hroom, rfl⟩, compiled', hcompiled', rfl⟩
  have hdrop := hdrop exp
    { r with
      bringup := { r.bringup with passes := version }
      ladder := { r.ladder with featureMapVersion := version + 1 } }
    (countedWorld (exp.withSources s digests)) rfl rfl rfl
  unfold maybeRebin bringUp at hdrop
  rw [Proc.wp_bind, Proc.wp_get, if_neg (by simp), Proc.wp_bind, Proc.wp_bind, Proc.wp_ofExcept]
    at hdrop
  have hloading := hdrop.1 _ hmap
  -- The scorer answers all three calls, and only notes the layout.
  let w := countedWorld (exp.withSources s digests)
  let w' := w.setScorer { w.scorer with archive :=
    { w.scorer.archive with layoutSignature := some (digests.layout compiled'.layout) } }
  have hmap : respond (exp.withSources s digests) (.loadFeatureMap
      (exp.withSources s digests).featureMapHash (digests.layout compiled'.layout) true) .answer w =
      (.ok (), w') := by
    simp [respond, fallible, answered, onScorer, Scorer.loadFeatureMap, Scorer.differs, w, w',
      countedWorld, World.setScorer]
  have hprogram : respond (exp.withSources s digests) (.loadScoringProgram
      (exp.withSources s digests).scoringProgramHash) .answer w' = (.ok (), w') := by
    simp [respond, fallible, answered, onScorer, Scorer.loadScoringProgram, Scorer.differs, w, w',
      countedWorld, World.setScorer]
  have hend := (((hloading (.ok ()) w' ⟨.answer, hmap⟩).2 (.ok ()) w' ⟨.answer, hprogram⟩).2
    (.ok ()) w' ⟨.answer, rfl⟩).2
  have hcounts : ((∅ : Std.ExtTreeMap CellKey Nat).insert 0 1) = ∅ := hend.2
  have := congrArg (·[(0 : CellKey)]?) hcounts
  simp at this

end

/-- **A re-bin reaches the scorer only by failing.** -/
theorem rebin_reaches_scorer_iff (s : Sources) (digests : Digests) (version : Nat)
    (compiled : CompiledFeatureMap)
    (h : compileFeatureMap s.featureMap s.regionLayouts = .ok compiled) :
    RequestsDiffer s version ∧ CountsDropped F s digests version ↔
      s.featureMap.Overflows s.radius (version + 1) := by
  constructor
  · rintro ⟨hdiffer, -⟩
    by_contra hroom
    have hbefore : ¬ s.featureMap.Overflows s.radius version :=
      ((FeatureMap.not_overflows_succ _ _).mp hroom).1
    have hsame := hdiffer false _ _ ((requestAt_eq_ok h).mpr ⟨hbefore, rfl⟩)
      ((requestAt_eq_ok h).mpr ⟨hroom, rfl⟩)
    rcases hsame with hsource | hlayout
    · exact hsource rfl
    · exact hlayout rfl
  · intro ho
    refine ⟨fun rebin request request' _ hrequest' => ?_, ?_⟩
    · exact absurd ho ((requestAt_eq_ok h).mp hrequest').1
    · exact countsDropped_of_error fun map => compiledMap_of_overflows h ho

/-- A document with a grid and a bucket. -/
def demoMap (bucket : Nat) : FeatureMap where
  schemaVersion := 1
  metadata := ⟨"demo-game", 3⟩
  regions := [⟨"wram", 128⟩, ⟨"framebuffer", 64⟩]
  features :=
    [⟨"room_id", "wram", 16, .u16Le, none, "room_id", .stable, .identity, none⟩,
      ⟨"player_x", "wram", 32, .u16Le, none, "position_x", .volatile,
        .grid "player_x" "player_y" "room_id" 16 16, none⟩,
      ⟨"player_y", "wram", 34, .u16Le, none, "position_y", .volatile, .none, none⟩,
      ⟨"health", "framebuffer", 4, .bytes, some 3, "health", .stable, .bucket bucket,
        some ⟨"room_id", .ge, 0⟩⟩]

def demoSources (bucket : Nat) : Sources where
  featureMap := demoMap bucket
  regionLayouts := [("wram", ⟨128, 7⟩), ("framebuffer", ⟨64, 3⟩)]
  featureMapRef := "demo"
  radius := ⟨2000, 1000, by decide⟩

/-- Doubling the demo's sizes is lost on the scorer. -/
theorem rebin_unseen :
    (compileFeatureMap (demoMap 4) (demoSources 4).regionLayouts).isOk = true ∧
      (∃ size ∈ (demoMap 4).sizes, size < (demoSources 4).radius.scale size) ∧
      ¬ RequestsDiffer (demoSources 4) 0 ∧
      ∀ digests, ¬ CountsDropped Int (demoSources 4) digests 0 := by
  have hvalid : (compileFeatureMap (demoMap 4) (demoSources 4).regionLayouts).isOk = true := by
    decide +kernel
  obtain ⟨compiled, hcompiled⟩ := exists_of_isOk hvalid
  have hroom : ¬ (demoMap 4).Overflows (demoSources 4).radius 1 := by
    rw [FeatureMap.not_overflows_succ, FeatureMap.fits_iterate]
    refine ⟨by simp [FeatureMap.Overflows], by decide, by decide⟩
  refine ⟨hvalid, ⟨4, by decide, by decide⟩, fun hdiffer => ?_, fun digests => ?_⟩
  · have hbefore : ¬ (demoMap 4).Overflows (demoSources 4).radius 0 := by
      simp [FeatureMap.Overflows]
    have hsame := hdiffer false _ _ ((requestAt_eq_ok hcompiled).mpr ⟨hbefore, rfl⟩)
      ((requestAt_eq_ok hcompiled).mpr ⟨hroom, rfl⟩)
    simp [Sources.loadFeatureMapRequest] at hsame
  · exact not_countsDropped hcompiled hroom sample (.initial sample)

/-- A bucket too wide to be doubled. -/
theorem rebin_reaches_scorer_iff_wide :
    RequestsDiffer (demoSources (2 ^ 63)) 0 ∧
      ∀ digests, CountsDropped Int (demoSources (2 ^ 63)) digests 0 := by
  have hvalid : (compileFeatureMap (demoMap (2 ^ 63)) (demoSources (2 ^ 63)).regionLayouts).isOk =
      true := by decide +kernel
  obtain ⟨compiled, hcompiled⟩ := exists_of_isOk hvalid
  have hoverflow : (demoMap (2 ^ 63)).Overflows (demoSources (2 ^ 63)).radius 1 :=
    ⟨0, by decide, .inr ⟨2 ^ 63, by decide, by decide⟩⟩
  have hall := fun digests =>
    (rebin_reaches_scorer_iff (F := Int) (demoSources (2 ^ 63)) digests 0 compiled hcompiled).mpr
      hoverflow
  exact ⟨(hall ⟨fun _ => 0, fun _ => 0⟩).1, fun digests => (hall digests).2⟩

end Orchestrator.Server
