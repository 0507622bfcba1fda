import Orchestrator.Core.Policy

/-! # Core — Draws

What the candidates of a selection depend on. The frontier is a vector whose order is an
accident of its insertions and removals; the candidates are sorted, so only the set of its nodes
matters.

* `candidateSnapshots_congr`: candidates of two states that differ in that order.
-/

namespace Orchestrator.Core.Policy

variable {F : Type} [PolicyFloat F]

/-- Two search states that differ at most in the order of their frontiers. -/
structure SameSearch (ctx ctx' : Context F) : Prop where
  tree : ctx'.tree = ctx.tree
  frontier : ∀ id, id ∈ ctx'.frontier.entries ↔ id ∈ ctx.frontier.entries
  counts : ∀ cell, ctx'.mirror.count cell = ctx.mirror.count cell
  selection : ctx'.selection = ctx.selection
  backtrack : ctx'.backtrack = ctx.backtrack

section

variable {tree : Tree F} {ids : List NodeId} {f f' : Frontier}

/-- The scan fails exactly on an entry that is no node. -/
theorem candidatesIn_eq_error {e : FrontierError} (h : Frontier.candidatesIn tree ids = .error e) :
    ∃ id ∈ ids, tree.get id = none ∧ e = .unknownNode id := by
  induction ids with
  | nil => cases h
  | cons id rest ih =>
    unfold Frontier.candidatesIn at h
    split at h
    · rename_i hnone
      cases h
      exact ⟨id, List.mem_cons_self, hnone, rfl⟩
    · split at h
      · rename_i e' he'
        cases h
        obtain ⟨id', hid', hunknown⟩ := ih he'
        exact ⟨id', List.mem_cons_of_mem _ hid', hunknown⟩
      · split at h <;> cases h

theorem candidatesIn_known {cs : List NodeId} (h : Frontier.candidatesIn tree ids = .ok cs) :
    cs.Sublist ids ∧ ∀ id ∈ ids, ∃ record, tree.get id = some record := by
  induction ids generalizing cs with
  | nil =>
    cases h
    simp
  | cons id rest ih =>
    unfold Frontier.candidatesIn at h
    split at h
    · cases h
    · rename_i record hrecord
      split at h
      · cases h
      · rename_i others hothers
        obtain ⟨hsub, hknown⟩ := ih hothers
        have hall := List.forall_mem_cons.mpr ⟨⟨record, hrecord⟩, hknown⟩
        split at h
        · cases h
          exact ⟨hsub.cons_cons id, hall⟩
        · cases h
          exact ⟨hsub.cons id, hall⟩

theorem deterministicCandidates_eq_error {e : FrontierError}
    (h : f.deterministicCandidates tree = .error e) :
    ∃ id ∈ f.entries, tree.get id = none ∧ e = .unknownNode id := by
  unfold Frontier.deterministicCandidates at h
  split at h
  · rename_i e' he'
    cases h
    exact candidatesIn_eq_error he'
  · cases h

theorem deterministicCandidates_known (h : f.deterministicCandidates tree = .ok ids) :
    ids.Nodup ∧ ids.Pairwise (· ≤ ·) ∧ ∀ id ∈ f.entries, ∃ record, tree.get id = some record := by
  unfold Frontier.deterministicCandidates at h
  split at h
  · cases h
  · rename_i cs hcs
    cases h
    obtain ⟨hsub, hknown⟩ := candidatesIn_known hcs
    exact ⟨(List.perm_insertionSort _ cs).nodup_iff.mpr (f.nodup.sublist hsub),
      List.pairwise_insertionSort _ cs, hknown⟩

/-- The candidates are sorted, so the order of the entries is lost. -/
theorem deterministicCandidates_congr (hentries : ∀ id, id ∈ f'.entries ↔ id ∈ f.entries)
    (h : f.deterministicCandidates tree = .ok ids) : f'.deterministicCandidates tree = .ok ids := by
  obtain ⟨hnodup, hsorted, hknown⟩ := deterministicCandidates_known h
  cases h' : f'.deterministicCandidates tree with
  | error e =>
    obtain ⟨id, hid, hnone, -⟩ := deterministicCandidates_eq_error h'
    obtain ⟨record, hrecord⟩ := hknown id ((hentries id).mp hid)
    rw [hnone] at hrecord
    cases hrecord
  | ok ids' =>
    obtain ⟨hnodup', hsorted', -⟩ := deterministicCandidates_known h'
    have hperm : ids'.Perm ids := by
      refine (List.perm_ext_iff_of_nodup hnodup' hnodup).mpr fun id => ?_
      rw [Frontier.mem_deterministicCandidates h', Frontier.mem_deterministicCandidates h, hentries]
    exact congrArg _ (hperm.eq_of_pairwise' hsorted' hsorted)

end

section

variable {ctx ctx' : Context F}

theorem candidate_congr (h : SameSearch ctx ctx') (cutoff : Option (F × Nat)) (id : NodeId)
    (record : NodeRecord F) (score : F) :
    candidate ctx' cutoff id record score = candidate ctx cutoff id record score := by
  unfold candidate CellMirror.novelty
  rw [h.counts, h.selection]

theorem candidates_congr (h : SameSearch ctx ctx') (cutoff : Option (F × Nat))
    (entries : List ((NodeId × NodeRecord F) × F)) :
    candidates ctx' cutoff entries = candidates ctx cutoff entries := by
  induction entries with
  | nil => rfl
  | cons e rest ih => simp only [candidates, candidate_congr h, ih]

/-- **The candidates are the same**, once every node of the frontier is in the tree. -/
theorem candidateSnapshots_congr (h : SameSearch ctx ctx')
    (hknown : ∀ id ∈ ctx.frontier.entries, ∃ record, ctx.tree.get id = some record) :
    candidateSnapshots ctx' = candidateSnapshots ctx := by
  cases hids : ctx.frontier.deterministicCandidates ctx.tree with
  | error e =>
    obtain ⟨id, hid, hnone, -⟩ := deterministicCandidates_eq_error hids
    obtain ⟨record, hrecord⟩ := hknown id hid
    rw [hnone] at hrecord
    cases hrecord
  | ok ids =>
    unfold candidateSnapshots
    rw [h.selection, h.tree, h.backtrack, hids, deterministicCandidates_congr h.frontier hids]
    simp only [candidates_congr h]

/-- A node of the frontier that is not in the tree is found before anything is drawn. -/
theorem candidateSnapshots_unknown {id : NodeId} (hid : id ∈ ctx.frontier.entries)
    (hunknown : ctx.tree.get id = none)
    (hweights : validateSelectionWeights ctx.selection = .ok ()) :
    ∃ id' ∈ ctx.frontier.entries, ctx.tree.get id' = none ∧
      candidateSnapshots ctx = .error (.frontier (.unknownNode id')) := by
  cases hids : ctx.frontier.deterministicCandidates ctx.tree with
  | error e =>
    obtain ⟨id', hid', hnone, rfl⟩ := deterministicCandidates_eq_error hids
    refine ⟨id', hid', hnone, ?_⟩
    unfold candidateSnapshots
    rw [hids, hweights]
    rfl
  | ok ids =>
    obtain ⟨-, -, hknown⟩ := deterministicCandidates_known hids
    obtain ⟨record, hrecord⟩ := hknown id hid
    rw [hunknown] at hrecord
    cases hrecord

end

end Orchestrator.Core.Policy
