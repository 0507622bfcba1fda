import Orchestrator.Server.Window

/-! # Server — Batches and their intents

A batch that comes back is matched to the intent in flight with its number. The intent is the
one the batch was submitted for, so the parent of the batch that is being committed is the node
of the intent that is worked on.

* `Paired`: what a point says about the batches in the pipeline and the intents in flight.
* `Reach.paired`: the invariant.
-/

namespace Orchestrator.Server

open Core Services Lib

variable {F : Type} [Float64 F] {exp : Experiment F}

/-- Batches and intents with one number are about one node. -/
def Agree (batches : List Batch) (intents : List ExpansionIntent) : Prop :=
  ∀ b ∈ batches, ∀ i ∈ intents, i.seq = b.seq → i.node = b.parent

/-- The batches in the pipeline agree with the intents in flight, and their numbers are used. -/
def Matched (r : Runner F) : Prop :=
  Agree r.pipeline r.inflight ∧ ∀ b ∈ r.pipeline, b.seq < r.batchSeq

/-- The intent that is worked on is the one of the batch. -/
def WorksOn (r : Runner F) (d : BatchResult) : Prop := ∃ i, r.current = some i ∧ i.node = d.parent

def Paired (r : Runner F) : Point F → Prop
  | .ended | .torn _ | .at .failed | .began .failed | .archived .failed _
  | .truncating .failed _ _ => True
  | .submitted i => Agree r.pipeline (r.inflight ++ [i]) ∧ ∀ b ∈ r.pipeline, b.seq ≤ r.batchSeq
  | .sent i => ∀ b ∈ r.pipeline, b.parent = i.node
  | .completed _ d => Matched r ∧ ∀ i ∈ r.inflight, i.seq = d.seq → i.node = d.parent
  | .taken _ d | .answered _ d _ | .scored _ d _ | .owned _ d _ | .storing _ d _ _ _
  | .replayTaken d | .replayScored d _ | .replaying d _ _ _ | .acting d _ _ _ _ _
  | .parentDue _ d _ _ | .updated _ d _ _ | .settling _ d _ => Matched r ∧ WorksOn r d
  | _ => Matched r

section

variable {p p' : Point F} {r r' : Runner F}

theorem matched_nil (h : r.pipeline = []) : Matched r :=
  ⟨fun _ hb => absurd (h ▸ hb) List.not_mem_nil, fun _ hb => absurd (h ▸ hb) List.not_mem_nil⟩

theorem Matched.at (h : Matched r) (c : Rest) : Paired r (.at c) := by
  cases c <;> first | exact h | trivial

theorem Paired.onError (p : Point F) (r : Runner F) : Paired r p.onError := by
  cases p with
  | «at» c | completed c _ | began c | archived c _ | truncating c _ _ => cases c <;> trivial
  | _ => trivial

theorem Paired.congr (h : Paired r p) (hp : r'.pipeline = r.pipeline)
    (hi : r'.inflight = r.inflight) (hs : r'.batchSeq = r.batchSeq)
    (hc : r'.current = r.current) : Paired r' p := by
  unfold Paired Matched WorksOn at h ⊢
  rw [hp, hi, hs, hc]
  exact h

/-- A fresh batch joins the pipeline under a number that no other has. -/
theorem Matched.submit {i : ExpansionIntent} {b : Batch} (h : Matched r) (hn : Numbers r)
    (hi : i.seq = r.batchSeq) (hs : b.seq = i.seq) (hp : b.parent = i.node) :
    Paired { r with pipeline := r.pipeline ++ [b] } (.submitted i) := by
  constructor
  · intro b' hb' j hj hseq
    rcases List.mem_append.mp hb' with hb' | hb' <;> rcases List.mem_append.mp hj with hj | hj
    · exact h.1 b' hb' j hj hseq
    · rw [List.mem_singleton.mp hj, hi] at hseq
      exact absurd hseq (Nat.ne_of_gt (h.2 b' hb'))
    · rw [List.mem_singleton.mp hb', hs, hi] at hseq
      exact absurd hseq (Nat.ne_of_lt (hn.inflight j hj))
    · rw [List.mem_singleton.mp hj, List.mem_singleton.mp hb', hp]
  · intro b' hb'
    rcases List.mem_append.mp hb' with hb' | hb'
    · exact Nat.le_of_lt (h.2 b' hb')
    · rw [List.mem_singleton.mp hb', hs, hi]

theorem Paired.flight {i : ExpansionIntent} (h : Paired r (.submitted i))
    (hi : i.seq = r.batchSeq) : Matched (enterFlight i r) := by
  constructor
  · intro b hb j hj
    refine h.1 b hb j ?_
    rcases List.mem_append.mp hj with hj | hj
    · exact List.mem_append_left _ (List.mem_filter.mp hj).1
    · exact List.mem_append_right _ hj
  · intro b hb
    have hle : b.seq ≤ r.batchSeq := h.2 b hb
    show b.seq < max r.batchSeq (i.seq + 1)
    omega

theorem Local.paired (hl : Local exp p r p' r') (hplaced : Placed r p) (h : Paired r p) :
    Paired r' p' := by
  cases hl with
  | touch hsame => exact h.congr hsame.pipeline hsame.inflight hsame.batchSeq hsame.current
  | fail => exact Paired.onError _ _
  | books => exact matched_nil hplaced.1.2
  | flight => exact h.flight hplaced.2
  | @take c d _ i hi =>
    obtain ⟨hm, hd⟩ := h
    have hmem : i ∈ r.inflight := List.mem_of_find?_eq_some hi
    refine ⟨⟨fun b hb j hj => hm.1 b hb j (List.mem_filter.mp hj).1, hm.2⟩, i, rfl, ?_⟩
    exact hd i hmem (by simpa using List.find?_some hi)
  | settle =>
    rw [addGoal_inflight]
    exact h.1
  | commitFailed | replayChildFailed | replayParentFailed => trivial
  | @truncated c => cases c <;> exact h
  | _ => exact h

theorem Next.paired {op : Op F} {a : Ans F op} (hn : Next exp p r op a p' r')
    (hplaced : Placed r p) (hnumbers : Numbers r) (h : Paired r p) : Paired r' p' := by
  cases hn with
  | quiet => exact h
  | failed => exact Paired.onError _ _
  | submitted hs hp => exact Matched.submit h hnumbers hplaced.2 hs hp
  | @submittedReplay i bursts _ b hs hp =>
    intro b' hb'
    rw [show r.pipeline ++ [b] = [b] by rw [hplaced.1.2]; rfl] at hb'
    rw [List.mem_singleton.mp hb', hp]
  | @completed c _ k jobs b hc hb =>
    have hm : Matched r := by
      cases c with
      | failed => cases hc
      | _ => exact h
    have hmem : b ∈ r.pipeline := List.mem_of_getElem? hb
    exact ⟨⟨fun b' hb' => hm.1 b' (List.mem_of_mem_eraseIdx hb'),
      fun b' hb' => hm.2 b' (List.mem_of_mem_eraseIdx hb')⟩, hm.1 b hmem⟩
  | @completedReplay i _ k jobs b hb =>
    have hnext : Next exp (.sent i) r (.nextCompleted r.pipeline) (.ok (some (k, jobs))) _ _ :=
      .completedReplay hb
    have hidle : Rest.Working _ b.seq .replay := hnext.placed hplaced
    exact ⟨matched_nil hidle.1.2, i, hplaced.2.1, (h b (List.mem_of_getElem? hb)).symm⟩
  | committed => exact Matched.at h _
  | aborted => trivial
  | @began c | @archived c | @archivedAgain c | @put c | @truncated c =>
    cases c <;> exact h
  | _ => exact h

end

/-- **Batches and their intents.** At every point of every run, the batch that is committed is
the one of the intent that is worked on. -/
theorem Reach.paired {p : Point F} {r : Runner F} {w : World F} (h : Reaches exp p r w) :
    Paired r p := by
  induction h with
  | init => exact matched_nil rfl
  | restart => exact matched_nil rfl
  | loc h hl ih => exact hl.paired h.sequenced.placed ih
  | call h hn _ ih => exact hn.paired h.sequenced.placed h.sequenced.numbers ih

end Orchestrator.Server
