import Orchestrator.Services.Store

/-! # Services — Synthesizer requests

How a `ProposeBursts` request is assembled from the store: the selected node, its parent,
and the bursts of up to sixty-four siblings in node id order; and the checks of the answer.
-/

namespace Orchestrator.Services

open Core Lib

variable {F : Type} [Float64 F]

/-- `DEFAULT_MAX_SIBLING_BURSTS`. -/
def maxSiblingBursts : Nat := 64

structure ScoredBurst (F : Type) [Float64 F] where
  burst : Burst
  scoreDelta : FiniteF64 F
deriving DecidableEq

structure NodeContext (F : Type) [Float64 F] where
  nodeId : NodeId
  parentNodeId : Option NodeId
  snapshotRef : SnapshotRef
  stateHash : StateHash
  cellKey : CellKey
  stage : Nat
  depth : Nat
  frameCounter : Nat
  nodeScore : Score F
  novelty : Novelty F
  ramFeatures : List (String × F)
  parentBurst : Option Burst
  siblingBursts : List (ScoredBurst F)
deriving DecidableEq

structure BuildSpec where
  nodeId : NodeId
  k : Nat
  lengthHint : Nat
  seed : Nat
  configOverridesYaml : Bytes
deriving DecidableEq, Repr

structure ProposeRequest (F : Type) [Float64 F] where
  nodeContext : NodeContext F
  k : Nat
  lengthHint : Nat
  seed : Nat
  configOverridesYaml : Bytes
deriving DecidableEq

structure ProposeResponse where
  bursts : List Burst
  configFingerprint : Nat
  seed : Nat
deriving DecidableEq, Repr

/-- `is_context_sibling_status`. -/
def isContextSiblingStatus (status : NodeStatus) : Bool := status ≠ .pruned

/-- The burst a child contributes as a sibling of the selected node, if any. -/
def siblingBurst (selected : NodeId) (child : Row F) : Option Burst :=
  if child.nodeId = selected ∨ isContextSiblingStatus child.status = false then none
  else child.attrs.createdByBurst

/-- The loop of `build_sibling_bursts` with room for `room` more bursts. -/
def siblingBurstsOf (selected : NodeId) (parentScore : Score F) :
    Nat → List (Row F) → Except ClientError (List (ScoredBurst F))
  | 0, _ => .ok []
  | _ + 1, [] => .ok []
  | room + 1, child :: rest =>
    match siblingBurst selected child with
    | none => siblingBurstsOf selected parentScore (room + 1) rest
    | some burst =>
      match FiniteF64.new (child.progressScore.get - parentScore.get) with
      | none => .error (.new .dataLoss "non-finite sibling score delta")
      | some scoreDelta =>
        match siblingBurstsOf selected parentScore room rest with
        | .error e => .error e
        | .ok bursts => .ok (⟨burst, scoreDelta⟩ :: bursts)

/-- The siblings of a node: none for the root. -/
def buildSiblingBursts (s : Store F) (selected : Row F) :
    Except ClientError (List (ScoredBurst F)) :=
  match selected.parentNodeId with
  | none => .ok []
  | some parentId =>
    match s.rows[parentId]? with
    | none => .error (.new .notFound "node not found")
    | some parent =>
      siblingBurstsOf selected.nodeId parent.progressScore maxSiblingBursts
        (s.getChildren parentId)

/-- `build_input_synth_node_context`. -/
def buildNodeContext (s : Store F) (nodeId : NodeId) : Except ClientError (NodeContext F) :=
  match s.rows[nodeId]? with
  | none => .error (.new .notFound "node not found")
  | some selected =>
    if 2 ^ 32 ≤ selected.depth then .error (.new .dataLoss "node depth exceeds u32")
    else
      match buildSiblingBursts s selected with
      | .error e => .error e
      | .ok siblingBursts =>
        .ok { nodeId := selected.nodeId
              parentNodeId := selected.parentNodeId
              snapshotRef := selected.snapshotRef
              stateHash := selected.attrs.stateHash
              cellKey := selected.attrs.cellKey
              stage := selected.attrs.stage
              depth := selected.depth
              frameCounter := selected.attrs.frameCounter
              nodeScore := selected.progressScore
              novelty := selected.noveltyScore
              ramFeatures := selected.attrs.decodedFeatures
              parentBurst := selected.attrs.createdByBurst
              siblingBursts }

/-- `build_propose_bursts_request`. -/
def buildProposeRequest (s : Store F) (spec : BuildSpec) :
    Except ClientError (ProposeRequest F) :=
  match buildNodeContext s spec.nodeId with
  | .error e => .error e
  | .ok nodeContext =>
    if spec.k = 0 then .error (.new .invalidRequest "k must be nonzero")
    else .ok { nodeContext, k := spec.k, lengthHint := spec.lengthHint, seed := spec.seed
               configOverridesYaml := spec.configOverridesYaml }

/-- The check of one burst of an answer: its fingerprint and its slot. -/
def burstMatches (fingerprint : Nat) (entry : Burst × Nat) : Bool :=
  entry.1.configFingerprint = fingerprint && entry.1.slot = entry.2

/-- `validate_propose_bursts_response`. -/
def validateProposeResponse (req : ProposeRequest F) (resp : ProposeResponse) :
    Option ClientError :=
  if resp.seed ≠ req.seed then
    some (.new .dataLoss "input synthesizer response seed did not echo request seed")
  else if resp.bursts.length ≠ req.k then
    some (.new .dataLoss "input synthesizer returned the wrong number of bursts")
  else if resp.bursts.zipIdx.all (burstMatches resp.configFingerprint) then none
  else some (.new .dataLoss "burst provenance did not match the response")

/-- The profile a fingerprint is pinned for: `SynthProfile::from_request`. -/
abbrev SynthProfile := Bytes

/-- `FingerprintRegistry`. -/
structure FingerprintRegistry where
  expected : List (SynthProfile × Nat)
deriving DecidableEq, Repr

/-- `check_or_insert`: `none` is a mismatch. -/
def FingerprintRegistry.checkOrInsert (r : FingerprintRegistry) (profile : SynthProfile)
    (actual : Nat) : Option FingerprintRegistry :=
  match r.expected.lookup profile with
  | none => some ⟨(profile, actual) :: r.expected⟩
  | some expected => if expected = actual then some r else none

/-! ### Requests at two times

A request reads the selected row, its parent's score and the siblings' bursts. Rows keep what
is read of them, so two requests for the same node differ in the siblings at most. -/

/-- What a row contributes to the siblings of a node under `parent`. -/
def siblingEntry (parent node : NodeId) (row : Row F) : Option (Burst × Score F) :=
  if row.parentNodeId = some parent then (siblingBurst node row).map (·, row.progressScore)
  else none

/-- The siblings a request for a node could carry, without the limit. -/
def siblings (s : Store F) (node : NodeId) : List (Burst × Score F) :=
  match s.rows[node]?.bind (·.parentNodeId) with
  | none => []
  | some parent => s.queryNodes.filterMap (siblingEntry parent node)

/-- The scored bursts of siblings. -/
def scoreDeltas (parentScore : Score F) :
    List (Burst × Score F) → Except ClientError (List (ScoredBurst F))
  | [] => .ok []
  | (burst, score) :: rest =>
    match FiniteF64.new (score.get - parentScore.get) with
    | none => .error (.new .dataLoss "non-finite sibling score delta")
    | some scoreDelta =>
      match scoreDeltas parentScore rest with
      | .error e => .error e
      | .ok bursts => .ok (⟨burst, scoreDelta⟩ :: bursts)

theorem length_scoreDeltas {parentScore : Score F} {entries : List (Burst × Score F)}
    {bursts : List (ScoredBurst F)} (h : scoreDeltas parentScore entries = .ok bursts) :
    bursts.length = entries.length := by
  induction entries generalizing bursts with
  | nil =>
    cases h
    rfl
  | cons entry rest ih =>
    simp only [scoreDeltas] at h
    split at h
    · cases h
    · split at h
      · cases h
      · rename_i tail htail
        cases h
        rw [List.length_cons, List.length_cons, ih htail]

theorem siblingBurstsOf_eq (node parent : NodeId) (parentScore : Score F) (room : Nat)
    (rows : List (Row F)) :
    siblingBurstsOf node parentScore room (rows.filter (·.parentNodeId = some parent)) =
      scoreDeltas parentScore ((rows.filterMap (siblingEntry parent node)).take room) := by
  induction rows generalizing room with
  | nil => cases room <;> rfl
  | cons row rest ih =>
    by_cases hp : row.parentNodeId = some parent
    · rw [List.filter_cons_of_pos (by simpa using hp), List.filterMap_cons, siblingEntry,
        if_pos hp]
      cases room with
      | zero => rfl
      | succ room =>
        rw [siblingBurstsOf]
        cases siblingBurst node row with
        | none => exact ih (room + 1)
        | some burst =>
          simp only [Option.map_some, List.take_succ_cons, scoreDeltas, ih room]
    · rw [List.filter_cons_of_neg (by simpa using hp), List.filterMap_cons, siblingEntry,
        if_neg hp]
      exact ih room

/-- The context a request makes of the selected row. -/
def contextOf (row : Row F) (siblingBursts : List (ScoredBurst F)) : NodeContext F :=
  { nodeId := row.nodeId
    parentNodeId := row.parentNodeId
    snapshotRef := row.snapshotRef
    stateHash := row.attrs.stateHash
    cellKey := row.attrs.cellKey
    stage := row.attrs.stage
    depth := row.depth
    frameCounter := row.attrs.frameCounter
    nodeScore := row.progressScore
    novelty := row.noveltyScore
    ramFeatures := row.attrs.decodedFeatures
    parentBurst := row.attrs.createdByBurst
    siblingBursts }

theorem buildProposeRequest_ok_iff {s : Store F} {spec : BuildSpec} {req : ProposeRequest F} :
    buildProposeRequest s spec = .ok req ↔
      ∃ row bursts, s.rows[spec.nodeId]? = some row ∧ row.depth < 2 ^ 32 ∧
        buildSiblingBursts s row = .ok bursts ∧ spec.k ≠ 0 ∧
        req = ⟨contextOf row bursts, spec.k, spec.lengthHint, spec.seed,
          spec.configOverridesYaml⟩ := by
  unfold buildProposeRequest buildNodeContext
  cases hrow : s.rows[spec.nodeId]? with
  | none => simp
  | some row =>
    -- Only whether the depth fits matters, not the number.
    generalize 2 ^ 32 = bound
    by_cases hd : bound ≤ row.depth
    · simp [hd, Nat.not_lt.mpr hd]
    · cases hb : buildSiblingBursts s row with
      | error e => simp [hd, hb]
      | ok bursts =>
        by_cases hk : spec.k = 0
        · simp [hd, hb, hk]
        · simp [hd, hb, hk, contextOf, Nat.lt_of_not_le hd, eq_comm]

theorem buildSiblingBursts_eq {s : Store F} {row : Row F}
    (hrow : s.rows[row.nodeId]? = some row) :
    buildSiblingBursts s row =
      match row.parentNodeId with
      | none => .ok []
      | some parentId =>
        match s.rows[parentId]? with
        | none => .error (.new .notFound "node not found")
        | some parent =>
          scoreDeltas parent.progressScore ((siblings s row.nodeId).take maxSiblingBursts) := by
  unfold buildSiblingBursts siblings
  rw [hrow]
  cases hp : row.parentNodeId with
  | none => rfl
  | some parentId =>
    simp only [Option.bind_some, hp]
    cases s.rows[parentId]? with
    | none => rfl
    | some parent => exact siblingBurstsOf_eq row.nodeId parentId parent.progressScore _ _

section

variable {s s' : Store F} {images images' : List (NodeImage F)} {row row' : Row F}

theorem Row.Later.siblingEntry (h : row.Later row') (parent node : NodeId) :
    siblingEntry parent node row' = siblingEntry parent node row := by
  have hid : row'.nodeId = row.nodeId := h.field Row.nodeId fun _ => rfl
  have hparent := h.field Row.parentNodeId fun _ => rfl
  have hscore := h.field Row.progressScore fun _ => rfl
  have hattrs := h.field Row.attrs fun _ => rfl
  have hstatus : isContextSiblingStatus row'.status = isContextSiblingStatus row.status := by
    rcases h.status with hs | ⟨hf, he⟩
    · rw [hs]
    · rw [hf, he]
      rfl
  simp only [Services.siblingEntry, siblingBurst, hid, hparent, hscore, hattrs, hstatus]

/-- Later siblings come after the earlier ones. -/
theorem siblings_prefix (hs : s.Holds images) (hs' : s'.Holds images') (he : s.Evolves s')
    {node : NodeId} (hrow : s.rows[node]? = some row) : siblings s node <+: siblings s' node := by
  obtain ⟨row', hrow', hlater⟩ := he node row hrow
  have hparent := hlater.field Row.parentNodeId fun _ => rfl
  unfold siblings
  rw [hrow, hrow', Option.bind_some, Option.bind_some, hparent]
  cases row.parentNodeId with
  | none => exact List.prefix_rfl
  | some parent =>
    refine filterMap_prefix fun i a ha => ?_
    rw [hs.getElem?_queryNodes] at ha
    obtain ⟨b, hb, hl⟩ := he i a ha
    exact ⟨b, (hs'.getElem?_queryNodes i).trans hb, hl.siblingEntry parent node⟩

/-- **Requests at two times.** A request for the same node is the same one exactly when the
siblings it carries were complete, or when there is no further sibling. -/
theorem request_eq_iff (hs : s.Holds images) (hs' : s'.Holds images') (he : s.Evolves s')
    {spec : BuildSpec} {req : ProposeRequest F} (hreq : buildProposeRequest s spec = .ok req) :
    buildProposeRequest s' spec = .ok req ↔
      maxSiblingBursts ≤ (siblings s spec.nodeId).length ∨
        (siblings s' spec.nodeId).length = (siblings s spec.nodeId).length := by
  obtain ⟨row, bursts, hrow, hdepth, hbursts, hk, rfl⟩ := buildProposeRequest_ok_iff.mp hreq
  obtain ⟨row', hrow', hlater⟩ := he _ row hrow
  have hid := hs.nodeId _ row hrow
  have hid' := hs'.nodeId _ row' hrow'
  have hparent := hlater.field Row.parentNodeId fun _ => rfl
  have hpre := siblings_prefix hs hs' he hrow
  rw [buildSiblingBursts_eq (hid.symm ▸ hrow)] at hbursts
  -- the request is the earlier one iff its bursts are
  have hiff : buildProposeRequest s' spec = .ok ⟨contextOf row bursts, spec.k, spec.lengthHint,
      spec.seed, spec.configOverridesYaml⟩ ↔ buildSiblingBursts s' row' = .ok bursts := by
    rw [buildProposeRequest_ok_iff]
    constructor
    · rintro ⟨r, b, hr, -, hb, -, heq⟩
      obtain rfl : row' = r := Option.some.inj (hrow'.symm.trans hr)
      have hcontext := congrArg (fun q => q.nodeContext.siblingBursts) heq
      exact (show bursts = b from hcontext) ▸ hb
    · intro hb
      refine ⟨row', bursts, hrow', ?_, hb, hk, ?_⟩
      · exact (hlater.field Row.depth fun _ => rfl) ▸ hdepth
      · rw [hlater.field (contextOf · bursts) fun _ => rfl]
  rw [hiff, buildSiblingBursts_eq (hid'.symm ▸ hrow'), hparent, hid']
  rw [hid] at hbursts
  cases hp : row.parentNodeId with
  | none =>
    have hnone : siblings s spec.nodeId = [] := by simp only [siblings, hrow, Option.bind_some, hp]
    have hnone' : siblings s' spec.nodeId = [] := by
      simp only [siblings, hrow', Option.bind_some, hparent, hp]
    simp only [hp] at hbursts
    cases hbursts
    simp [hnone, hnone']
  | some parentId =>
    simp only [hp] at hbursts
    cases hprow : s.rows[parentId]? with
    | none =>
      simp only [hprow] at hbursts
      cases hbursts
    | some parent =>
      obtain ⟨parent', hprow', hplater⟩ := he _ parent hprow
      have hscore := hplater.field Row.progressScore fun _ => rfl
      simp only [hprow] at hbursts
      simp only [hprow', hscore]
      obtain ⟨later, hsib⟩ := hpre
      constructor
      · intro h'
        have hlen := length_scoreDeltas hbursts
        have hlen' := length_scoreDeltas h'
        rw [List.length_take] at hlen hlen'
        rw [← hsib, List.length_append] at hlen' ⊢
        omega
      · rintro (hfull | hsame)
        · rw [← hsib, List.take_append_of_le_length hfull]
          exact hbursts
        · rw [← hsib, List.length_append] at hsame
          obtain rfl : later = [] := List.length_eq_zero_iff.mp (by omega)
          rw [← hsib, List.append_nil]
          exact hbursts

end
end Orchestrator.Services
