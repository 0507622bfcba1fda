import Orchestrator.Services.Types

/-! # Services — Scorer

The state scorer as the in-repository service implements it: a committed archive of state
hashes and cell counts, score-only batches that read it, checkpoints of it addressed by
their content, and idempotent replays. How a state scores is a parameter; only the verdicts
that depend on the archive are computed here.

The archive reference is a digest of the snapshot; the snapshot itself stands for it.
-/

namespace Orchestrator.Services

open Core Lib

variable {F : Type} [Float64 F]

/-- What the scoring program says about a state, apart from the archive. -/
structure StateScore (F : Type) [Float64 F] where
  progressScore : Score F
  stateHash : StateHash
  cellKey : CellKey
  goalHit : Bool
  stage : Nat
  prune : Bool
  decoded : List (Option F)
deriving DecidableEq

/-- The committed part of an experiment's archive. -/
structure ArchiveSnapshot where
  featureMapHash : Nat
  programHash : Nat
  layoutSignature : Nat
  archiveSeq : Nat
  seenHashes : Std.ExtTreeSet StateHash
  cellCounts : Std.ExtTreeMap CellKey Nat
deriving DecidableEq

structure ExperimentArchive where
  featureMapHash : Option Nat
  programHash : Option Nat
  layoutSignature : Option Nat
  archiveSeq : Nat
  seenHashes : Std.ExtTreeSet StateHash
  cellCounts : Std.ExtTreeMap CellKey Nat

structure Scorer where
  archive : ExperimentArchive
  /-- Archive checkpoints: the checkpoint id and the content address. -/
  checkpoints : List (Nat × ArchiveSnapshot)

namespace Scorer

def new : Scorer := ⟨⟨none, none, none, 0, ∅, ∅⟩, []⟩

/-- `ExperimentArchive::is_empty`. -/
def archiveIsEmpty (s : Scorer) : Bool :=
  s.archive.archiveSeq = 0 && s.archive.seenHashes.isEmpty && s.archive.cellCounts.isEmpty

/-- `ensure_loaded`. -/
def ensureLoaded (s : Scorer) : Except ClientError Unit :=
  if s.archive.featureMapHash.isNone || s.archive.programHash.isNone then
    .error (.new .failedPrecondition "feature map and scoring program must be loaded")
  else .ok ()

/-- Whether another artifact is loaded. -/
def differs (loaded : Option Nat) (hash : Nat) : Bool := loaded.any (· ≠ hash)

/-- `load_feature_map`, with the digests of the request's source and layout. -/
def loadFeatureMap (s : Scorer) (hash layout : Nat) (rebin : Bool) : Except ClientError Scorer :=
  let differs := differs s.archive.featureMapHash hash
  if differs && !rebin && !s.archiveIsEmpty then
    .error (.new .failedPrecondition "feature map differs from non-empty archive; use rebin")
  else if differs && rebin && s.archive.layoutSignature ≠ some layout then
    .error (.new .failedPrecondition "rebin requires identical compiled layout")
  else
    .ok { s with archive :=
      { s.archive with
        featureMapHash := some hash
        layoutSignature := some layout
        cellCounts := if differs && rebin then ∅ else s.archive.cellCounts } }

/-- `load_scoring_program`. -/
def loadScoringProgram (s : Scorer) (hash : Nat) : Except ClientError Scorer :=
  if s.archive.featureMapHash.isNone then
    .error (.new .failedPrecondition "feature map must be loaded before scoring program")
  else
    if differs s.archive.programHash hash && !s.archiveIsEmpty then
      .error (.new .failedPrecondition "scoring program differs from non-empty archive")
    else .ok { s with archive := { s.archive with programHash := some hash } }

/-- `error_result`: an item the scorer could not decode has placeholder values. -/
def errorResult (error : ItemErrorKind) : ScoreResult F :=
  { error := some error, progressScore := .zero, noveltyScore := .zero, stateHash := 0,
    goalHit := false, duplicate := false, stage := 0, prune := false, decoded := [],
    cellKey := 0 }

/-- `score_state_input`. -/
def scoreStateInput (s : Scorer) (score : Except ItemErrorKind (StateScore F)) : ScoreResult F :=
  match score with
  | .error e => errorResult e
  | .ok score =>
    { error := none
      progressScore := score.progressScore
      noveltyScore := Novelty.ofCount (s.archive.cellCounts[score.cellKey]?.getD 0)
      stateHash := score.stateHash
      goalHit := score.goalHit
      duplicate := s.archive.seenHashes.contains score.stateHash
      stage := score.stage
      prune := score.prune
      decoded := score.decoded
      cellKey := score.cellKey }

/-- `score_batch` in score-only mode, which leaves the archive as it is. -/
def scoreBatch (s : Scorer) (scoreState : Bytes → Except ItemErrorKind (StateScore F))
    (states : List Bytes) : Except ClientError (Nat × List (ScoreResult F)) :=
  if states.isEmpty || decide (256 < states.length) then
    .error (.new .invalidRequest "states length must be in 1..=256")
  else
    match s.ensureLoaded with
    | .error e => .error e
    | .ok () => .ok (s.archive.archiveSeq, states.map fun b => s.scoreStateInput (scoreState b))

/-- `snapshot`. -/
def snapshot (s : Scorer) : Except ClientError ArchiveSnapshot :=
  match s.archive.featureMapHash, s.archive.programHash, s.archive.layoutSignature with
  | some featureMapHash, some programHash, some layoutSignature =>
    .ok { featureMapHash, programHash, layoutSignature, archiveSeq := s.archive.archiveSeq,
          seenHashes := s.archive.seenHashes, cellCounts := s.archive.cellCounts }
  | _, _, _ => .error (.new .failedPrecondition "feature map not loaded")

/-- `checkpoint_archive`. -/
def checkpointArchive (s : Scorer) (checkpointId : Nat) :
    Except ClientError (ArchiveSnapshot × Scorer) :=
  match s.snapshot with
  | .error e => .error e
  | .ok snapshot =>
    .ok (snapshot, { s with checkpoints := s.checkpoints ++ [(checkpointId, snapshot)] })

/-- `restore_archive`. -/
def restoreArchive (s : Scorer) (checkpointId : Nat) (archiveRef : ArchiveSnapshot) :
    Except ClientError (Nat × Scorer) :=
  if (checkpointId, archiveRef) ∉ s.checkpoints then
    .error (.new .notFound "archive checkpoint not found")
  else if s.archive.featureMapHash ≠ some archiveRef.featureMapHash ∨
      s.archive.programHash ≠ some archiveRef.programHash then
    .error (.new .failedPrecondition
      "loaded scorer artifacts do not match archive checkpoint bindings")
  else
    .ok (archiveRef.archiveSeq,
      { s with archive :=
        { featureMapHash := some archiveRef.featureMapHash
          programHash := some archiveRef.programHash
          layoutSignature := some archiveRef.layoutSignature
          archiveSeq := archiveRef.archiveSeq
          seenHashes := archiveRef.seenHashes
          cellCounts := archiveRef.cellCounts } })

/-- One state of `replay_commits`: a hash already committed is skipped. -/
def replayCommit (s : Scorer) (state : CommittedState) : Scorer :=
  if s.archive.seenHashes.contains state.stateHash then s
  else
    { s with archive :=
      { s.archive with
        seenHashes := s.archive.seenHashes.insert state.stateHash
        cellCounts := s.archive.cellCounts.insert state.cellKey
          (s.archive.cellCounts[state.cellKey]?.getD 0 + 1) } }

/-- `replay_commits`. -/
def replayCommits (s : Scorer) (states : List CommittedState) : Except ClientError Scorer :=
  match s.ensureLoaded with
  | .error e => .error e
  | .ok () => .ok (states.foldl replayCommit s)

/-! ### What the archive has seen -/

variable {s s' : Scorer}

theorem loadFeatureMap_ok {hash layout : Nat} {rebin : Bool}
    (h : s.loadFeatureMap hash layout rebin = .ok s') :
    s'.archive.seenHashes = s.archive.seenHashes := by
  unfold loadFeatureMap at h
  dsimp only at h
  split at h
  · cases h
  · split at h
    · cases h
    · cases h
      rfl

theorem loadScoringProgram_ok {hash : Nat} (h : s.loadScoringProgram hash = .ok s') :
    s'.archive.seenHashes = s.archive.seenHashes := by
  unfold loadScoringProgram at h
  split at h
  · cases h
  · split at h
    · cases h
    · cases h
      rfl

theorem mem_replayCommit (s : Scorer) (state : CommittedState) (h : StateHash) :
    h ∈ (s.replayCommit state).archive.seenHashes ↔
      h ∈ s.archive.seenHashes ∨ h = state.stateHash := by
  unfold replayCommit
  split
  · rename_i hc
    constructor
    · exact .inl
    · rintro (hm | rfl)
      · exact hm
      · exact Std.ExtTreeSet.mem_iff_contains.mpr hc
  · rw [Std.ExtTreeSet.mem_insert, Std.LawfulEqOrd.compare_eq_iff_eq, or_comm]
    exact or_congr_right eq_comm

theorem mem_foldl_replayCommit (s : Scorer) (states : List CommittedState) (h : StateHash) :
    h ∈ (states.foldl replayCommit s).archive.seenHashes ↔
      h ∈ s.archive.seenHashes ∨ ∃ c ∈ states, h = c.stateHash := by
  induction states generalizing s with
  | nil => simp
  | cons c rest ih =>
    rw [List.foldl_cons, ih, mem_replayCommit, or_assoc]
    simp

theorem mem_replayCommits {states : List CommittedState} (h : s.replayCommits states = .ok s')
    (hash : StateHash) :
    hash ∈ s'.archive.seenHashes ↔
      hash ∈ s.archive.seenHashes ∨ ∃ c ∈ states, hash = c.stateHash := by
  unfold replayCommits at h
  split at h
  · cases h
  · cases h
    exact mem_foldl_replayCommit s states hash

/-- A checkpoint of the archive has what the archive has, and leaves it so. -/
theorem checkpointArchive_ok {id : Nat} {archive : ArchiveSnapshot}
    (h : s.checkpointArchive id = .ok (archive, s')) :
    archive.seenHashes = s.archive.seenHashes ∧
      s'.archive.seenHashes = s.archive.seenHashes := by
  unfold checkpointArchive snapshot at h
  split at h
  · cases h
  · rename_i hsnapshot
    split at hsnapshot
    · cases hsnapshot
      cases h
      exact ⟨rfl, rfl⟩
    · cases hsnapshot

theorem restoreArchive_ok {id seq : Nat} {archiveRef : ArchiveSnapshot}
    (h : s.restoreArchive id archiveRef = .ok (seq, s')) :
    s'.archive.seenHashes = archiveRef.seenHashes := by
  unfold restoreArchive at h
  split at h
  · cases h
  · split at h
    · cases h
    · cases h
      rfl

end Scorer
end Orchestrator.Services
