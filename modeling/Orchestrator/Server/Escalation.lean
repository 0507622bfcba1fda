import Orchestrator.Core.StallHistory
import Orchestrator.Server.Rebin

/-! # Server — Escalation

How far a run escalates, and how far it can be coarsened. Level and map version follow the
history of observed scores, through any number of checkpoints. The version counts the entries
to L4, and the runner keeps its feature map that many passes ahead of the document. A pass
scales sizes that are kept in 64 bits and a version that is kept in 32, and nothing bounds the
number of passes.

* `plateau_closed_form`: level, windows, best score and map version of a history.
* `coarsening_converges`: the passes, and `maybe_rebin` after them.
* `coarsening_fails_iff`: which passes fail.
-/

namespace Orchestrator.Server

open Core Services Lib

variable {F : Type} [Float64 F] {s : Sources} {compiled : CompiledFeatureMap}

/-! ### The plateau -/

/-- A runner that has observed these scores. Its books may be saved to a checkpoint and
restored into the runner of a new process at any point. -/
inductive PlateauRun (exp : Experiment F) : List (Score F) → Runner F → Prop where
  | initial : PlateauRun exp [] (Runner.initial exp)
  | observe {scores r} (h : PlateauRun exp scores r) (node : NodeId) (score : Score F) :
      PlateauRun exp (scores ++ [score]) (observeScore node score.get r)
  /-- A score that is not finite is not observed. -/
  | unread {scores r value} (h : PlateauRun exp scores r) (node : NodeId)
      (hvalue : FiniteF64.new value = none) : PlateauRun exp scores (observeScore node value r)
  | elsewhere {scores r r'} (h : PlateauRun exp scores r) (hstall : r'.stall = r.stall)
      (hladder : r'.ladder = r.ladder) (hbest : r'.bestScore = r.bestScore) :
      PlateauRun exp scores r'
  | restore {scores r archive cp} (h : PlateauRun exp scores r)
      (hcp : buildCheckpoint exp r archive = some cp) (intents : List ExpansionIntent)
      (r₀ : Runner F) : PlateauRun exp scores (restoreBooks exp cp intents r₀)

theorem FiniteF64.new_get (score : Score F) : FiniteF64.new score.get = some score := by
  unfold FiniteF64.new
  rw [dif_pos score.finite]

theorem observeScore_get (node : NodeId) (score : Score F) (r : Runner F) :
    (observeScore node score.get r).stall = (r.stall.observe score).1 ∧
      (observeScore node score.get r).ladder =
        r.ladder.applyStallObservation (r.stall.observe score).2 := by
  unfold observeScore
  rw [FiniteF64.new_get]
  exact ⟨rfl, rfl⟩

/-- The history fits the counters of the detector and of the ladder. -/
structure WithinLimits (exp : Experiment F) (scores : List (Score F)) : Prop where
  observations : scores.length < 2 ^ 64
  entries : entriesToL4 exp.windowN exp.epsilonS exp.maxLevel scores < 2 ^ 32

variable {exp : Experiment F} {scores : List (Score F)} {r : Runner F}

theorem WithinLimits.init {score : Score F} (h : WithinLimits exp (scores ++ [score])) :
    WithinLimits exp scores := by
  obtain ⟨hobservations, hentries⟩ := h
  rw [List.length_append] at hobservations
  rw [entriesToL4_concat] at hentries
  exact ⟨lt_of_le_of_lt (Nat.le_add_right _ _) hobservations,
    lt_of_le_of_lt (Nat.le_add_right _ _) hentries⟩

/-- Detector and ladder follow the history, and the runner's best score is the detector's. -/
theorem PlateauRun.charted (h : PlateauRun exp scores r) (hwindow : 0 < exp.windowN)
    (hlimits : WithinLimits exp scores) :
    Charted exp.windowN exp.epsilonS exp.maxLevel scores r.stall r.ladder ∧
      r.bestScore = r.stall.bestScore.map (·.get) := by
  induction h with
  | initial => exact ⟨.new _ _ _, rfl⟩
  | @observe scores r _ node score ih =>
    obtain ⟨hcharted, -⟩ := ih hlimits.init
    obtain ⟨hstall, hladder⟩ := observeScore_get node score r
    have hobservations := hlimits.observations
    rw [List.length_append] at hobservations
    refine ⟨?_, ?_⟩
    · rw [hstall, hladder]
      exact hcharted.observe hwindow hobservations hlimits.entries
    · unfold observeScore
      rw [FiniteF64.new_get]
      simp [StallDetector.observe_bestScore]
  | unread _ node hvalue ih =>
    unfold observeScore
    rw [hvalue]
    exact ih hlimits
  | elsewhere _ hstall hladder hbest ih =>
    rw [hstall, hladder, hbest]
    exact ih hlimits
  | @restore scores r archive cp _ hcp intents r₀ ih =>
    obtain ⟨hcharted, hbest⟩ := ih hlimits
    obtain ⟨_, -, rfl⟩ := Option.map_eq_some_iff.mp hcp
    -- what the checkpoint holds of the plateau is read back as it was
    have hread : r.bestScore.bind FiniteF64.new = r.stall.bestScore := by
      rw [hbest]
      cases r.stall.bestScore with
      | none => rfl
      | some best => exact FiniteF64.new_get best
    refine ⟨⟨rfl, rfl, rfl, hread.trans hcharted.bestScore, hcharted.since, hcharted.windows, ?_,
      hcharted.version⟩, ?_⟩
    · simp only [restoreBooks, EscalationLevel.fromCapped_get]
      exact hcharted.level
    · simp only [restoreBooks]
      rw [hread]
      exact hbest

theorem observeScore_version_le (h : r.ladder.featureMapVersion < 2 ^ 32) (node : NodeId)
    (value : F) :
    r.ladder.featureMapVersion ≤ (observeScore node value r).ladder.featureMapVersion := by
  unfold observeScore
  split
  · rfl
  · simp only [EscalationLadder.applyStallObservation]
    split
    · rfl
    · split
      · rw [EscalationLadder.setCompletedStallWindows_version]
        split
        · exact le_min (Nat.le_succ _) (Nat.le_sub_one_of_lt h)
        · rfl
      · rfl

/-- **The plateau ladder in closed form.** -/
theorem plateau_closed_form (exp : Experiment F) (hwindow : 0 < exp.windowN)
    (scores : List (Score F)) (r : Runner F) (h : PlateauRun exp scores r)
    (hlimits : WithinLimits exp scores) :
    r.ladder.level.get =
        min exp.maxLevel.get (r.stall.observationsSinceImprovement / exp.windowN) ∧
      r.stall.completedStallWindows = r.stall.observationsSinceImprovement / exp.windowN ∧
      r.stall.observationsSinceImprovement = sinceImprovement exp.epsilonS scores ∧
      r.stall.bestScore = lastImprovement exp.epsilonS scores ∧
      r.bestScore = (lastImprovement exp.epsilonS scores).map (·.get) ∧
      r.ladder.featureMapVersion =
        entriesToL4 exp.windowN exp.epsilonS exp.maxLevel scores ∧
      (∀ node value,
        r.ladder.featureMapVersion ≤ (observeScore node value r).ladder.featureMapVersion) ∧
      ∀ archive cp intents r₀, buildCheckpoint exp r archive = some cp →
        (restoreBooks exp cp intents r₀).ladder.featureMapVersion = r.ladder.featureMapVersion := by
  obtain ⟨hcharted, hbest⟩ := h.charted hwindow hlimits
  refine ⟨?_, ?_, hcharted.since, hcharted.bestScore, ?_, hcharted.version,
    observeScore_version_le (hcharted.version ▸ hlimits.entries), ?_⟩
  · rw [hcharted.since]
    exact hcharted.level
  · rw [hcharted.since]
    exact hcharted.windows
  · rw [hbest, hcharted.bestScore]
  · intro archive cp intents r₀ hcp
    obtain ⟨_, -, rfl⟩ := Option.map_eq_some_iff.mp hcp
    rfl

theorem PlateauRun.replicate (h : PlateauRun exp scores r) (score : Score F) (n : Nat) :
    ∃ r', PlateauRun exp (scores ++ List.replicate n score) r' := by
  induction n with
  | zero => exact ⟨r, by simpa using h⟩
  | succ n ih =>
    obtain ⟨r', hr'⟩ := ih
    refine ⟨observeScore NodeId.root score.get r', ?_⟩
    rw [List.replicate_succ', ← List.append_assoc]
    exact hr'.observe NodeId.root score

/-- Four windows of ten without an improvement, after a checkpoint was restored. -/
theorem plateau_closed_form_fourth_window :
    ∃ r : Runner Int, r.ladder.level = .l4 ∧ r.ladder.featureMapVersion = 1 ∧
      r.bestScore = some 3 ∧ r.stall.completedStallWindows = 4 := by
  let exp : Experiment Int := { sample with windowN := 10 }
  let score : Score Int := ⟨3, rfl⟩
  obtain ⟨cp, hcp⟩ : ∃ cp, buildCheckpoint exp (observeScore NodeId.root 3 (.initial exp))
      ⟨1, 2, 0, 0, ∅, ∅⟩ = some cp := ⟨_, rfl⟩
  have hinitial : PlateauRun exp [] (.initial exp) := .initial
  obtain ⟨r, hr⟩ := ((hinitial.observe NodeId.root score).restore hcp []
    (.initial exp)).replicate score 40
  have hform := plateau_closed_form exp (by decide) _ r hr ⟨by decide, by decide +kernel⟩
  obtain ⟨hlevel, hwindows, hsince, -, hbest, hversion, -, -⟩ := hform
  have hforty : sinceImprovement exp.epsilonS ([] ++ [score] ++ List.replicate 40 score) = 40 := by
    decide +kernel
  rw [hforty] at hsince
  rw [hsince] at hlevel hwindows
  refine ⟨r, ?_, hversion.trans (by decide +kernel), hbest.trans (by decide +kernel),
    hwindows.trans (by decide)⟩
  rw [← EscalationLevel.fromCapped_get r.ladder.level, hlevel]
  decide

/-! ### The map's version -/

/-- `bringup_feature_map_version`: how far a compiled map is ahead of the document. -/
def Sources.bringupFeatureMapVersion (s : Sources) (compiled : CompiledFeatureMap) : Nat :=
  compiled.metadata.version - s.featureMap.metadata.version

theorem compileFeatureMap_metadata {map : FeatureMap} {layouts : RegionLayouts}
    (h : compileFeatureMap map layouts = .ok compiled) : compiled.metadata = map.metadata := by
  simp only [compileFeatureMap, bind_eq_ok, pure, Except.pure, Except.ok.injEq] at h
  obtain ⟨_, -, _, -, _, -, _, -, rfl⟩ := h
  rfl

/-- What `bring_up` makes of so many passes: the map it keeps is that many ahead. -/
theorem compiledMap_eq_ok (h : compileFeatureMap s.featureMap s.regionLayouts = .ok compiled)
    {digests : Digests} {passes : Nat} {bringup : CompiledMap}
    (hmap : s.compiledMap digests passes = .ok bringup) :
    bringup.passes = passes ∧ ∃ map compiled', s.coarsenedMap passes = .ok map ∧
      compileFeatureMap map s.regionLayouts = .ok compiled' ∧
      s.bringupFeatureMapVersion compiled' = passes := by
  simp only [Sources.compiledMap, Sources.compile, bind_eq_ok, mapError_eq_ok, pure, Except.pure,
    Except.ok.injEq] at hmap
  obtain ⟨map, hmap, compiled', hcompiled', rfl⟩ := hmap
  refine ⟨rfl, map, compiled', hmap, hcompiled', ?_⟩
  obtain ⟨-, rfl⟩ := (coarsenedMap_eq_ok h).mp hmap
  rw [Sources.bringupFeatureMapVersion, compileFeatureMap_metadata hcompiled',
    FeatureMap.version_iterate, Nat.add_sub_cancel_left]

/-- A runner whose map is as far as its ladder has nothing to re-bin. -/
theorem maybeRebin_of_passes (h : r.ladder.featureMapVersion = r.bringup.passes) :
    maybeRebin exp r = .ret (.ok (), r) := by
  change (if r.ladder.featureMapVersion = r.bringup.passes then pure () else _ : M F Unit) r = _
  rw [if_pos h]
  rfl

/-- What `bring_up` returns is the compiled map, and it leaves the runner as it was. -/
theorem bringUp_wp (A : Answers (Op F) (Ans F) (World F)) (passes : Nat) (rebin : Bool)
    (r : Runner F) (w : World F) :
    (bringUp exp passes rebin).Ensures A
      (fun bringup r' _ => exp.compiledMap passes = .ok bringup ∧ r' = r) r w := by
  unfold bringUp
  refine Proc.wp_bind.mpr (Proc.wp_ofExcept.mpr ⟨fun bringup hbringup => ?_, fun _ _ => trivial⟩)
  -- whatever the three calls answer, the runner stays
  rintro (_ | _) _ _
  · exact ⟨trivial, trivial⟩
  refine ⟨trivial, ?_⟩
  rintro (_ | _) _ _
  · exact ⟨trivial, trivial⟩
  refine ⟨trivial, ?_⟩
  rintro (_ | _) _ _
  · exact ⟨trivial, trivial⟩
  exact ⟨trivial, hbringup, rfl⟩

/-- A re-bin that succeeds brings the map as far as the ladder. -/
theorem maybeRebin_wp
    (hexp : ∀ passes bringup, exp.compiledMap passes = .ok bringup → bringup.passes = passes)
    (A : Answers (Op F) (Ans F) (World F)) (r : Runner F) (w : World F) :
    (maybeRebin exp).Ensures A
      (fun _ r' _ => r'.ladder.featureMapVersion = r'.bringup.passes) r w := by
  refine Proc.wp_bind.mpr (Proc.wp_get.mpr ?_)
  split
  · rename_i hsame
    exact hsame
  · refine Proc.wp_bind.mpr (Proc.wp_mono (bringUp_wp A _ _ r w) ?_ fun _ _ _ h => h)
    rintro bringup r' w' ⟨hbringup, rfl⟩
    exact (hexp _ bringup hbringup).symm

/-- **Coarsening keeps the layout, and a re-bin settles.** -/
theorem coarsening_converges (s : Sources) (compiled : CompiledFeatureMap)
    (h : compileFeatureMap s.featureMap s.regionLayouts = .ok compiled)
    (hradius : s.radius.denominator ≤ s.radius.numerator) :
    (∀ passes map, s.coarsenedMap passes = .ok map →
      s.featureMap.Grown passes map ∧
      coarsenL4PreservingLayout map s.regionLayouts s.radius ≠ .error .layoutChangedByCoarsening ∧
      ∃ compiled', compileFeatureMap map s.regionLayouts = .ok compiled' ∧
        compiled'.layout = compiled.layout ∧ s.bringupFeatureMapVersion compiled' = passes) ∧
    ∀ (exp : Experiment F) (digests : Digests),
      (∀ passes bringup, s.compiledMap digests passes = .ok bringup → bringup.passes = passes ∧
        ∃ map compiled', s.coarsenedMap passes = .ok map ∧
          compileFeatureMap map s.regionLayouts = .ok compiled' ∧
          s.bringupFeatureMapVersion compiled' = bringup.passes) ∧
      ∀ (A : Answers (Op F) (Ans F) (World F)) (r : Runner F) (w : World F),
        (maybeRebin (exp.withSources s digests)).Ensures A
          (fun _ r' _ => r'.bringup.passes = r'.ladder.featureMapVersion ∧
            maybeRebin (exp.withSources s digests) r' = .ret (.ok (), r')) r w := by
  refine ⟨fun passes map hmap => ?_, fun exp digests => ⟨fun passes bringup hbringup => ?_, ?_⟩⟩
  · obtain ⟨-, rfl⟩ := (coarsenedMap_eq_ok h).mp hmap
    obtain ⟨compiled', hcompiled', hlayout⟩ := compileFeatureMap_iterate s.radius h passes
    refine ⟨FeatureMap.grown_iterate hradius _ _,
      coarsenL4PreservingLayout_ne_layoutChanged hcompiled', compiled', hcompiled', hlayout, ?_⟩
    rw [Sources.bringupFeatureMapVersion, compileFeatureMap_metadata hcompiled',
      FeatureMap.version_iterate, Nat.add_sub_cancel_left]
  · obtain ⟨hpasses, hbuilt⟩ := compiledMap_eq_ok h hbringup
    exact ⟨hpasses, hpasses ▸ hbuilt⟩
  · intro A r w
    have hexp : ∀ passes bringup, (exp.withSources s digests).compiledMap passes = .ok bringup →
        bringup.passes = passes := fun _ _ hbringup => (compiledMap_eq_ok h hbringup).1
    refine Proc.wp_mono (maybeRebin_wp hexp A r w) (fun _ r' _ hsame => ?_) fun _ _ _ h => h
    exact ⟨hsame.symm, maybeRebin_of_passes hsame⟩

/-- Three passes over the demo's map. -/
theorem coarsening_converges_demo :
    ∃ compiled map, compileFeatureMap (demoMap 4) (demoSources 4).regionLayouts = .ok compiled ∧
      (demoSources 4).coarsenedMap 3 = .ok map ∧ (demoMap 4).Grown 3 map ∧
      map.sizes = [128, 128, 32] := by
  have hvalid : (compileFeatureMap (demoMap 4) (demoSources 4).regionLayouts).isOk = true := by
    decide +kernel
  obtain ⟨compiled, hcompiled⟩ := exists_of_isOk hvalid
  have hpasses : ((demoSources 4).coarsenedMap 3).isOk = true := by decide +kernel
  obtain ⟨map, hmap⟩ := exists_of_isOk hpasses
  have hgrown := ((coarsening_converges (F := Int) (demoSources 4) compiled hcompiled
    (by decide)).1 3 map hmap).1
  refine ⟨compiled, map, hcompiled, hmap, hgrown, ?_⟩
  obtain ⟨-, rfl⟩ := (coarsenedMap_eq_ok hcompiled).mp hmap
  rw [FeatureMap.sizes_iterate]
  decide +kernel

/-! ### Passes that fail -/

/-- A sequence whose second part cannot fail at once fails at once with its first. -/
theorem bind_fails_iff {α β : Type} {x : M F α} {f : α → M F β}
    (hf : ∀ a r' e, f a r' ≠ .ret (.error e, r)) :
    (∃ e, (x >>= f) r = .ret (.error e, r)) ↔ ∃ e, x r = .ret (.error e, r) := by
  change (∃ e, (x r).bind _ = _) ↔ _
  cases x r with
  | call op k => exact ⟨nofun, nofun⟩
  | halt => exact ⟨nofun, nofun⟩
  | ret out =>
    obtain ⟨a | a, r'⟩ := out
    · constructor
      · rintro ⟨e, ⟨⟩⟩
        exact ⟨a, rfl⟩
      · rintro ⟨e, ⟨⟩⟩
        exact ⟨a, rfl⟩
    · exact ⟨fun ⟨e, he⟩ => absurd he (hf a r' e), nofun⟩

/-- A bring-up fails before its first call exactly when it has no map to load. -/
theorem bringUp_fails_iff {passes : Nat} {rebin : Bool} :
    (∃ e, bringUp exp passes rebin r = .ret (.error e, r)) ↔
      ∀ bringup, exp.compiledMap passes ≠ .ok bringup := by
  refine (bind_fails_iff fun _ _ _ hcall => by cases hcall).trans ?_
  cases exp.compiledMap passes with
  | error e => exact ⟨fun _ => nofun, fun _ => ⟨e, rfl⟩⟩
  | ok bringup => exact ⟨nofun, fun hnone => absurd rfl (hnone bringup)⟩

theorem maybeRebin_fails_iff (h : r.bringup.passes ≠ r.ladder.featureMapVersion) :
    (∃ e, maybeRebin exp r = .ret (.error e, r)) ↔
      ∀ bringup, exp.compiledMap r.ladder.featureMapVersion ≠ .ok bringup := by
  change (∃ e, (if r.ladder.featureMapVersion = r.bringup.passes then pure () else _ : M F Unit) r =
    _) ↔ _
  rw [if_neg (Ne.symm h)]
  exact (bind_fails_iff fun _ _ _ hmodify => by cases hmodify).trans bringUp_fails_iff

/-- **Coarsening fails where a number no longer fits.** -/
theorem coarsening_fails_iff (s : Sources) (compiled : CompiledFeatureMap)
    (h : compileFeatureMap s.featureMap s.regionLayouts = .ok compiled) (passes : Nat) :
    ((∃ map, s.coarsenedMap passes = .ok map) ↔ ¬ s.featureMap.Overflows s.radius passes) ∧
    ∀ (exp : Experiment F) (digests : Digests) (r : Runner F),
      (∀ rebin, (∃ e, bringUp (exp.withSources s digests) passes rebin r = .ret (.error e, r)) ↔
        s.featureMap.Overflows s.radius passes) ∧
      (r.ladder.featureMapVersion = passes → r.bringup.passes ≠ passes →
        ((∃ e, maybeRebin (exp.withSources s digests) r = .ret (.error e, r)) ↔
          s.featureMap.Overflows s.radius passes)) := by
  have hmap : ∀ digests, (∀ bringup, s.compiledMap digests passes ≠ .ok bringup) ↔
      s.featureMap.Overflows s.radius passes := by
    intro digests
    refine ⟨fun hnone => ?_, fun ho bringup => compiledMap_of_overflows h ho⟩
    by_contra hroom
    obtain ⟨compiled', hcompiled', -⟩ := compileFeatureMap_iterate s.radius h passes
    refine hnone ⟨passes, digests.layout compiled'.layout, compiled'.fields.map (·.name)⟩ ?_
    simp only [Sources.compiledMap, Sources.compile, bind_eq_ok, coarsenedMap_eq_ok h,
      mapError_eq_ok]
    exact ⟨_, ⟨hroom, rfl⟩, compiled', hcompiled', rfl⟩
  refine ⟨?_, fun exp digests r => ⟨fun rebin => bringUp_fails_iff.trans (hmap digests), ?_⟩⟩
  · simp only [coarsenedMap_eq_ok h, exists_and_left, exists_eq, and_true]
  · rintro rfl hpasses
    exact (maybeRebin_fails_iff hpasses).trans (hmap digests)

/-- Grid cells of 16 double 59 times, and no more. -/
theorem coarsening_fails_iff_sixty :
    (∃ map, (demoSources 4).coarsenedMap 59 = .ok map) ∧
      ¬ ∃ map, (demoSources 4).coarsenedMap 60 = .ok map := by
  have hvalid : (compileFeatureMap (demoMap 4) (demoSources 4).regionLayouts).isOk = true := by
    decide +kernel
  obtain ⟨compiled, hcompiled⟩ := exists_of_isOk hvalid
  have hroom : ∀ i < 59, (demoMap 4).metadata.version + i + 1 < 2 ^ 32 ∧
      ∀ size ∈ (demoMap 4).sizes, (demoSources 4).radius.scale^[i + 1] size < 2 ^ 64 := by
    decide +kernel
  have hiff := fun passes => (coarsening_fails_iff (F := Int) (demoSources 4) compiled hcompiled
    passes).1
  rw [hiff, hiff, not_not]
  refine ⟨?_, 59, by decide, .inr ⟨16, by decide, by decide +kernel⟩⟩
  rintro ⟨i, hi, hversion | ⟨size, hsize, hlarge⟩⟩
  · exact absurd (hroom i hi).1 (not_lt.mpr hversion)
  · exact absurd ((hroom i hi).2 size hsize) (not_lt.mpr hlarge)

/-- No child improves on the root, and the bucket of the map is too wide to be doubled. -/
def stalled : Experiment Int :=
  Experiment.withSources
    { sample with
      windowN := 10
      epsilonS := 1
      everySeconds := 30
      execute := fun batch => batch.bursts.map fun burst =>
        sampleJob burst.burstId [10 + batch.seq, 10 + batch.seq, 1, 0, 0] }
    (demoSources (2 ^ 63)) ⟨fun _ => 1, fun _ => 0⟩

/-- The world after a run of `stalled` and an attempt to resume it, with every call answered. -/
def stalledWorld : World Int :=
  evaluate stalled [List.replicate 1000 .answer, List.replicate 60 .answer]

def Event.isRpcFailed : Event F → Bool
  | .rpcFailed _ => true
  | _ => false

def Event.isStarted : Event F → Bool
  | .started _ => true
  | _ => false

/-- A commit ended with an error, with the map one pass behind the ladder. -/
def Event.endedAtRebin : Event F → Bool
  | .aborted _ r => r.ladder.featureMapVersion == 1 && r.bringup.passes == 0
  | _ => false

/-- The final checkpoint of a failed run. -/
def Event.isFailedEnd : Event F → Bool
  | .checkpointBegan r => r.status = .failed && r.ladder.featureMapVersion == 1
  | _ => false

/-- **The first entry to L4 ends the experiment**, and it cannot be resumed. -/
theorem escalation_ends_run :
    stalled.Accepted ∧
    (∃ compiled, compileFeatureMap (demoMap (2 ^ 63)) (demoSources (2 ^ 63)).regionLayouts =
      .ok compiled) ∧
    (∀ map, (demoSources (2 ^ 63)).coarsenedMap 1 ≠ .ok map) ∧
    Solo.Steps (env stalled) (boot stalled) ⟨.empty, none⟩ ⟨stalledWorld, none⟩ ∧
    (stalledWorld.log.any (·.event.isRpcFailed)) = false ∧
    (stalledWorld.log.any (·.event.endedAtRebin)) = true ∧
    (stalledWorld.log.any (·.event.isFailedEnd)) = true ∧
    (stalledWorld.log.countP (·.event.isStarted)) = 1 := by
  have hvalid : (compileFeatureMap (demoMap (2 ^ 63)) (demoSources (2 ^ 63)).regionLayouts).isOk =
      true := by decide +kernel
  obtain ⟨compiled, hcompiled⟩ := exists_of_isOk hvalid
  have hfails : ¬ ∃ map, (demoSources (2 ^ 63)).coarsenedMap 1 = .ok map := by
    simp only [coarsenedMap_eq_ok (s := demoSources (2 ^ 63)) hcompiled]
    rintro ⟨_, hroom, -⟩
    exact hroom ⟨0, by decide, .inr ⟨2 ^ 63, by decide, by decide⟩⟩
  have hrun : (!(stalledWorld.log.any (·.event.isRpcFailed)) &&
      (stalledWorld.log.any (·.event.endedAtRebin)) &&
      (stalledWorld.log.any (·.event.isFailedEnd)) &&
      (stalledWorld.log.countP (·.event.isStarted) == 1)) = true := by decide +kernel
  simp only [Bool.and_eq_true, Bool.not_eq_true', beq_iff_eq] at hrun
  obtain ⟨⟨⟨hrpc, hrebin⟩, hend⟩, hstarted⟩ := hrun
  refine ⟨?_, ⟨compiled, hcompiled⟩, fun map hmap => hfails ⟨map, hmap⟩, steps_evaluate _ _, hrpc,
    hrebin, hend, hstarted⟩
  constructor <;> decide

end Orchestrator.Server
