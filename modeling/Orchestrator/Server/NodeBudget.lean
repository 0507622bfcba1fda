import Orchestrator.Core.CommitSound
import Orchestrator.Sched.Outcomes
import Orchestrator.Server.Budget
import Orchestrator.Server.Undisturbed

/-! # Server — The node budget

A batch adds at most as many nodes as it has bursts, so the node budget bounds the tree of a
process that was never stopped: when the budget is looked at, the batches that fill the
pipeline are all that can still be added.

The pipeline hands a batch back with at most one outcome for each of its bursts, as
`execute_batch` does; how the outcomes turn out is left open.

* `delivers_executeBatch`: the driver keeps the pipeline's contract.
* `Reach.grown`: the invariant.
* `budget_bounds`: what both budgets guarantee.
-/

namespace Orchestrator.Server

open Core Services Lib

variable {F : Type} [Float64 F] {exp : Experiment F}

/-! ### The pipeline's contract -/

/-- A batch comes back with at most one outcome for each burst. -/
def Delivers : (op : Op F) → Ans F op → Prop
  | .nextCompleted pending, .ok (some (k, jobs)) =>
    ∀ b, pending[k]? = some b → jobs.length ≤ b.bursts.length
  | _, _ => True

/-- A submitted batch as the driver runs it. -/
def batchSpec (b : Batch) : Sched.Driver.BatchSpec :=
  ⟨b.seq, b.parentSnapshot, some b.requiredClass, b.bursts⟩

/-- The pipeline can deliver whatever `execute_batch` returns for a batch. -/
theorem delivers_executeBatch {d : Sched.Driver} {policy : Sched.RetryPolicy} {mode : SchedMode}
    {fuel k : Nat} {pending : List Batch} {b : Batch} {batch : BatchResult}
    {t : Schedule Sched.Driver.Op Sched.Driver.Ans} (hb : pending[k]? = some b)
    (h : (d.executeBatch policy mode fuel (batchSpec b) b.parent).Yields () t (.ok batch) ()) :
    Delivers (F := F) (.nextCompleted pending) (.ok (some (k, batch.jobs))) := by
  intro b' hb'
  cases hb.symm.trans hb'
  have hexecuted := Sched.Driver.finished_executeBatch (g := Sched.Driver.seedGuest) h
  have hlength := congrArg List.length hexecuted.indices
  rw [List.length_map, List.length_range] at hlength
  exact hlength.le

/-- The environment with a pipeline that keeps its contract. -/
def piped (exp : Experiment F) : Answers (Op F) (Ans F) (World F) :=
  fun op w a w' => env exp op w a w' ∧ Delivers op a

/-- What the protocol reaches with one process that is never stopped. -/
abbrev ReachesOnce (exp : Experiment F) : Point F → Runner F → World F → Prop :=
  Reach exp (piped exp) ⟨(World.empty = ·), False⟩

theorem within_piped (exp : Experiment F) :
    Within exp (piped exp) ⟨(World.empty = ·), False⟩ :=
  ⟨fun _ _ _ _ h => h.1, fun _ h => h⟩

/-! ### What can still be added -/

/-- The batch whose children are not in the tree yet. -/
def Point.due : Point F → Nat
  | .taken _ _ | .answered _ _ _ | .scored _ _ _ | .owned _ _ _ => 1
  | _ => 0

/-- How large the batch of a point is. -/
def Point.Sized (k : Nat) : Point F → Prop
  | .dispatching i => i.knobs.k = k
  | .requested false _ request | .offered false _ request _ => request.k = k
  | .proposed false _ bursts | .walled _ bursts => bursts.length = k
  | .completed _ d | .taken _ d | .answered _ d _ | .scored _ d _ | .owned _ d _ =>
    d.jobs.length ≤ k
  | _ => True

/-- A batch is dispatched only with room in the budget and in the pipeline. -/
def Point.NodeRoom (quota m : Nat) (r : Runner F) : Point F → Prop
  | .filling => r.commitState.tree.len < quota
  | .selecting _ | .dispatching _ | .requested false _ _ | .offered false _ _ _
  | .proposed false _ _ | .walled _ _ | .submitted _ =>
    r.commitState.tree.len < quota ∧ r.inflight.length < m
  | _ => True

/-- The tree of a process with a budget of `quota` nodes and room for `m` batches of `k`
bursts. -/
structure Grown (quota m k : Nat) (p : Point F) (r : Runner F) : Prop where
  sized : p.Sized k
  pipeline : ∀ b ∈ r.pipeline, b.bursts.length ≤ k
  nodes : r.commitState.tree.len + k * (r.inflight.length + p.due) ≤ max 1 (quota - 1 + m * k)
  room : p.NodeRoom quota m r

section

variable {quota m k : Nat} {p p' : Point F} {r r' : Runner F} {s : Store F}

theorem Grown.onError (h : Grown quota m k p r) : Grown quota m k p.onError r := by
  have hend : p.onError.Sized k ∧ p.onError.due = 0 ∧ p.onError.NodeRoom quota m r := by
    cases p with
    | «at» c | completed c _ | began c | archived c _ | truncating c _ _ =>
      cases c <;> exact ⟨trivial, rfl, trivial⟩
    | _ => exact ⟨trivial, rfl, trivial⟩
  obtain ⟨hsized, hdue, hroom⟩ := hend
  refine ⟨hsized, h.pipeline, ?_, hroom⟩
  refine Nat.le_trans (Nat.add_le_add_left (Nat.mul_le_mul_left k ?_) _) h.nodes
  rw [hdue]
  exact Nat.le_add_right _ _

theorem Grown.congr (h : Grown quota m k p r) (hc : r'.commitState = r.commitState)
    (hp : r'.pipeline = r.pipeline) (hi : r'.inflight = r.inflight) : Grown quota m k p r' := by
  obtain ⟨hsized, hpipeline, hnodes, hroom⟩ := h
  refine ⟨hsized, hp ▸ hpipeline, by rw [hc, hi]; exact hnodes, ?_⟩
  unfold Point.NodeRoom at hroom ⊢
  rw [hc, hi]
  exact hroom

variable {i : ExpansionIntent} {c : Rest} {d : BatchResult}

theorem Grown.flight (h : Grown quota m k (.submitted i) r) :
    Grown quota m k .filling (enterFlight i r) := by
  obtain ⟨hroom, hcap⟩ := h.room
  refine ⟨trivial, h.pipeline, ?_, hroom⟩
  have hlen : (enterFlight i r).inflight.length ≤ m := by
    have hfilter := List.length_filter_le (·.seq ≠ i.seq) r.inflight
    simp only [enterFlight, List.length_append, List.length_singleton]
    omega
  have hmul := Nat.mul_le_mul_left k hlen
  have htree : (enterFlight i r).commitState.tree.len = r.commitState.tree.len := rfl
  rw [Nat.mul_comm k m] at hmul
  refine Nat.le_trans ?_ (Nat.le_max_right _ _)
  simp only [Point.due, Nat.add_zero]
  omega

theorem Grown.take (h : Grown quota m k (.completed c d) r) (hn : Numbers r)
    (hi : r.inflight.find? (·.seq = d.seq) = some i) :
    Grown quota m k (.taken c d)
      { r with inflight := r.inflight.filter (·.seq ≠ d.seq), current := some i } := by
  refine ⟨h.sized, h.pipeline, ?_, trivial⟩
  have hnodes := h.nodes
  rw [← hn.length_take hi] at hnodes
  exact hnodes

theorem length_items_le (jobs : List JobOutcome) (results : List (ScoreResult F)) :
    (items (scorable jobs) results).length ≤ jobs.length := by
  rw [items, List.length_zipWith]
  exact Nat.le_trans (Nat.min_le_left _ _) (List.length_filterMap_le _ _)

/-- The children of a batch, in the tree or not. -/
theorem Grown.commit {results : List (ScoreResult F)} {s' : CommitState F}
    (h : Grown quota m k (.owned c d results) r)
    (hs : s'.Under (r.commitState.tree.len + (scoredChildren r.commitState.cellMirror []
      (items (scorable d.jobs) results)).length)) (hp : p'.due = 0) (hsized : p'.Sized k)
    (hroom : p'.NodeRoom quota m { r with commitState := s' }) :
    Grown quota m k p' { r with commitState := s' } := by
  refine ⟨hsized, h.pipeline, ?_, hroom⟩
  have hnodes := h.nodes
  have hlen : (scoredChildren r.commitState.cellMirror []
      (items (scorable d.jobs) results)).length ≤ k := by
    rw [length_scoredChildren]
    exact Nat.le_trans (length_items_le _ _) h.sized
  have hadd : k * (r.inflight.length + 1) = k * r.inflight.length + k := Nat.mul_succ _ _
  have htree : s'.tree.len ≤ _ := hs
  simp only [Point.due, hadd] at hnodes
  simp only [hp, Nat.add_zero]
  omega

theorem lt_maxNodes_of_budgetSpent (hq : 0 < exp.budgets.maxNodes)
    (h : budgetSpent exp r = none) : r.commitState.tree.len < exp.budgets.maxNodes := by
  by_contra hge
  rw [budgetSpent, if_pos ⟨hq, Nat.le_of_not_lt hge⟩] at h
  cases h

theorem Local.grown (hl : Local exp p r p' r') (hquota : 0 < exp.budgets.maxNodes)
    (hn : Numbers r) (hf : Firsthand p r s)
    (h : Grown exp.budgets.maxNodes m exp.kPerExpansion p r) :
    Grown exp.budgets.maxNodes m exp.kPerExpansion p' r' := by
  cases hl with
  | touch hsame => exact h.congr hsame.commitState hsame.pipeline hsame.inflight
  | fail => exact h.onError
  | adoptGeneration | collect | loaded | noPost | books | replayNothingToScore | replayUnowned
  | adoptChild | replayChild | replayChildFailed | acted | replayParent | replayParentFailed =>
    cases hf.point
  | pop hq =>
    rw [hf.queue] at hq
    cases hq
  | fill hspent =>
    exact ⟨trivial, h.pipeline, h.nodes, lt_maxNodes_of_budgetSpent hquota hspent⟩
  | selected => exact ⟨rfl, h.pipeline, h.nodes, h.room⟩
  | @accepted replay i request response _ _ hv =>
    cases replay with
    | true => cases hf.point
    | false =>
      refine ⟨?_, h.pipeline, h.nodes, h.room⟩
      have hk : request.k = exp.kPerExpansion := h.sized
      unfold validateProposeResponse at hv
      split at hv
      · cases hv
      · split at hv
        · cases hv
        · rename_i hlen
          exact (Decidable.not_not.mp hlen).trans hk
  | flight => exact h.flight
  | take hi => exact h.take hn hi
  | commit hc =>
    exact h.commit ((commitBatch_under _ _ _ _).ok (Nat.le_refl _) hc) rfl trivial trivial
  | commitFailed hc =>
    exact h.commit ((commitBatch_under _ _ _ _).error (Nat.le_refl _) hc) rfl trivial trivial
  | settle =>
    rw [addGoal_inflight]
    exact ⟨trivial, h.pipeline, h.nodes, trivial⟩
  | @truncated c =>
    cases c with
    | popped => cases hf.point
    | _ => exact ⟨trivial, h.pipeline, h.nodes, trivial⟩
  | nothingToScore | unowned => exact ⟨h.sized, h.pipeline, h.nodes, trivial⟩
  | _ => exact ⟨trivial, h.pipeline, h.nodes, trivial⟩

theorem Next.grown {op : Op F} {a : Ans F op} {w w' : World F} (hn : Next exp p r op a p' r')
    (ha : piped exp op w a w') (hplaced : Placed r p) (hf : Firsthand p r w.store)
    (h : Grown quota (max exp.maxInflightBatches 1) exp.kPerExpansion p r) :
    Grown quota (max exp.maxInflightBatches 1) exp.kPerExpansion p' r' := by
  cases hn with
  | quiet => exact h
  | failed => exact h.onError
  | stale | collected | missed | adopt | restored | caughtUp | submittedReplay | completedReplay
  | scoreReplay | ownReplay | createReplayed | routeReplayed | buildReplay | checkedReplay =>
    cases hf.point
  | rootScored =>
    refine ⟨trivial, h.pipeline, ?_, trivial⟩
    rw [hplaced.1.1]
    exact Nat.le_max_left _ _
  | select hcap => exact ⟨trivial, h.pipeline, h.nodes, h.room, hcap⟩
  | build =>
    obtain ⟨_, _, -, -, -, -, rfl⟩ := buildProposeRequest_ok_iff.mp (env_buildPropose_ok ha.1)
    exact ⟨h.sized, h.pipeline, h.nodes, h.room⟩
  | @offered replay =>
    cases replay with
    | true => cases hf.point
    | false => exact ⟨h.sized, h.pipeline, h.nodes, h.room⟩
  | written | checked => exact ⟨h.sized, h.pipeline, h.nodes, h.room⟩
  | submitted _ _ hb =>
    refine ⟨trivial, ?_, h.nodes, h.room⟩
    intro b hmem
    rcases List.mem_append.mp hmem with hmem | hmem
    · exact h.pipeline b hmem
    · rw [List.mem_singleton.mp hmem, hb]
      exact Nat.le_of_eq h.sized
  | completed hc hb =>
    refine ⟨?_, ?_, h.nodes, trivial⟩
    · exact Nat.le_trans (ha.2 _ hb) (h.pipeline _ (List.mem_of_getElem? hb))
    · exact fun b hmem => h.pipeline b (List.mem_of_mem_eraseIdx hmem)
  | score | scored | own => exact ⟨h.sized, h.pipeline, h.nodes, trivial⟩
  | _ => exact ⟨trivial, h.pipeline, h.nodes, trivial⟩

end

/-- **The tree of an undisturbed process.** At every point of a run without stops, the nodes
in the tree and those its batches in flight can add are within the budget and the room of the
pipeline. -/
theorem Reach.grown {p : Point F} {r : Runner F} {w : World F} (h : ReachesOnce exp p r w)
    (hquota : 0 < exp.budgets.maxNodes) :
    Grown exp.budgets.maxNodes (max exp.maxInflightBatches 1) exp.kPerExpansion p r := by
  have hA := within_piped exp
  induction h with
  | init hw => exact ⟨trivial, nofun, Nat.le_max_left _ _, trivial⟩
  | restart _ hagain _ => exact hagain.elim
  | loc h hl ih => exact hl.grown hquota (h.widen hA).sequenced.numbers (h.firsthand hA) ih
  | call h hn ha ih => exact hn.grown ha (h.widen hA).sequenced.placed (h.firsthand hA) ih

/-! ### The two budgets -/

/-- The scheduling rules of `ExperimentConfig::validate`. -/
def Experiment.ValidScheduling (exp : Experiment F) : Prop :=
  (exp.mode = .deterministic → exp.maxInflightBatches = 1) ∧
    (exp.mode = .fast → exp.maxInflightBatches ≠ 0)

theorem Experiment.ValidScheduling.max_eq (h : exp.ValidScheduling) :
    max exp.maxInflightBatches 1 = exp.maxInflightBatches := by
  refine Nat.max_eq_left (Nat.one_le_iff_ne_zero.mpr ?_)
  cases hmode : exp.mode with
  | deterministic => simp [h.1 hmode]
  | fast => exact h.2 hmode

/-- **Budget bounds.** Over any stops and starts, a process never counts more expansions than
its budget and the rest of a full pipeline; and one that is never stopped never has more nodes
than its budget lets a full pipeline add. -/
theorem budget_bounds (exp : Experiment F) (hvalid : exp.ValidScheduling) :
    (0 < exp.budgets.maxExpansions →
      ∀ s : Solo (Op F) (Ans F) (World F), Solo.Steps (env exp) (boot exp) ⟨.empty, none⟩ s →
        ∀ e ∈ s.world.log, ∀ r, e.event.runner = some r →
          r.expansions ≤ exp.budgets.maxExpansions + exp.maxInflightBatches - 1 ∧
          (exp.mode = .deterministic → r.expansions ≤ exp.budgets.maxExpansions)) ∧
    (0 < exp.budgets.maxNodes →
      ∀ fuel p w, Prog.Undisturbed (piped exp) (boot exp fuel) .empty p w →
        ∀ e ∈ w.log, ∀ r, e.event.runner = some r →
          r.commitState.tree.len ≤
            max 1 (exp.budgets.maxNodes - 1 + exp.maxInflightBatches * exp.kPerExpansion)) := by
  refine ⟨fun hquota s hsteps e he r hr => ?_, fun hquota fuel p w hrun e he r hr => ?_⟩
  · obtain ⟨p, r', hreach⟩ := reaches_of_steps hsteps
    obtain ⟨p₀, w₀, h₀⟩ := hreach.runner (within_env exp) he hr
    have hbounded := (h₀.budgeted hquota).bounded
    rw [hvalid.max_eq] at hbounded
    simp only [pledged] at hbounded
    refine ⟨by omega, fun hmode => ?_⟩
    rw [hvalid.1 hmode] at hbounded
    omega
  · obtain ⟨p', r', hreach⟩ : Known exp (piped exp) ⟨(World.empty = ·), False⟩ w :=
      reach_of_undisturbed rfl hrun
    obtain ⟨p₀, w₀, h₀⟩ := Reach.runner hreach (within_piped exp) he hr
    have hnodes := (h₀.grown hquota).nodes
    rw [hvalid.max_eq] at hnodes
    exact Nat.le_trans (Nat.le_add_right _ _) hnodes

/-- The sample with a budget of two expansions and of three nodes. -/
def spending : Experiment Int := { sample with budgets := ⟨3, 2, 0, 0⟩ }

theorem piped_answer (w : World Int) (op : Op Int) :
    piped spending op w (respond spending op .answer w).1 (respond spending op .answer w).2 := by
  refine ⟨⟨.answer, rfl⟩, ?_⟩
  cases op with
  | nextCompleted pending =>
    cases pending with
    | nil => trivial
    | cons batch rest =>
      intro b hb
      cases hb
      exact Nat.le_of_eq (List.length_map _)
  | _ => trivial

/-- A run that spends both. -/
theorem budget_bounds_spending :
    ∃ w : World Int,
      (∃ e ∈ w.log, ∃ r, e.event.runner = some r ∧ r.expansions = 2 ∧
        r.commitState.tree.len = 3) ∧
      ∀ e ∈ w.log, ∀ r, e.event.runner = some r →
        r.expansions ≤ 2 ∧ r.commitState.tree.len ≤ 3 := by
  have hspent : (evaluate spending [List.replicate 90 .answer]).log.any (fun e =>
      e.event.runner.any fun r => r.expansions = 2 && r.commitState.tree.len = 3) = true := by
    decide +kernel
  have hsteps := steps_evaluate spending [List.replicate 90 .answer]
  obtain ⟨p, hrun⟩ : ∃ p, Prog.Undisturbed (piped spending) (boot spending 90) .empty p
      (evaluate spending [List.replicate 90 .answer]) := by
    refine Prog.undisturbed_drive (respond spending) (fun c hc op w => ?_) .start
    rw [List.eq_of_mem_replicate hc]
    exact piped_answer w op
  generalize evaluate spending [List.replicate 90 .answer] = w at hspent hsteps hrun
  refine ⟨w, ?_, fun e he r hr => ?_⟩
  · obtain ⟨e, he, hany⟩ := List.any_eq_true.mp hspent
    cases hr : e.event.runner with
    | none =>
      rw [hr] at hany
      cases hany
    | some r =>
      rw [hr] at hany
      exact ⟨e, he, r, hr, by simpa using hany⟩
  · have hbounds := budget_bounds spending ⟨fun _ => rfl, nofun⟩
    exact ⟨(hbounds.1 (by decide) _ hsteps e he r hr).2 rfl,
      hbounds.2 (by decide) 90 p w hrun e he r hr⟩

end Orchestrator.Server
