import Orchestrator.Core.Visits
import Orchestrator.Server.StoreInvariant
import Orchestrator.Server.Undisturbed

/-! # Server — Visits in the store

The commit rules count a visit of the parent and of every node a duplicate is routed to, except
that a duplicate of the parent itself is not counted again. The runner's calls that follow a
commit count a visit of the parent and of every route, the parent's included. Between two
batches the rows therefore have the tree's visits as long as no child comes back to the state of
its parent.

* `Balanced`: what the store still owes the tree at a point of a commit.
* `visits_match_unless_returning`: the visits of every row, between any two batches.
* `visits_differ`: a child in its parent's state is counted twice in the store.
-/

namespace Orchestrator.Server

open Core Services Lib

variable {F : Type} [Float64 F] {exp : Experiment F}

/-! ### The visits of a row -/

/-- The visits of a row, none if it is not there. -/
def rowVisits (s : Store F) (id : NodeId) : Nat := (s.rows[id]?.map (·.visitCount)).getD 0

variable {s s' : Store F} {req : CreateNodeRequest F} {p : Point F} {r : Runner F}

theorem rowVisits_createNode (h : s.createNode req = .ok s') (id : NodeId) :
    rowVisits s' id = rowVisits s id := by
  rcases Store.createNode_ok h with ⟨_, _, _, rfl⟩ | ⟨hnone, depth, -, rfl⟩
  · rfl
  · unfold rowVisits
    rw [getElem?_insert_if]
    split
    · rename_i hid
      rw [hid, hnone]
      rfl
    · rfl

theorem rowVisits_updateNode {update : NodeUpdate} (h : s.updateNode update = .ok s') (id : NodeId)
    :
    rowVisits s' id = rowVisits s id +
      if id = update.nodeId then update.visitCountDelta else 0 := by
  obtain ⟨row, hrow, rfl⟩ := Store.updateNode_ok h
  unfold rowVisits
  rw [getElem?_insert_if]
  by_cases hid : id = update.nodeId
  · rw [if_pos hid, if_pos hid, hid, hrow]
    rfl
  · rw [if_neg hid, if_neg hid]
    rfl

variable {w : World F}

/-- A row that is created, or was there already, changes no visits. -/
theorem env_createNode_visits {a : Ans F (.createNode req)} {w' : World F}
    (ha : env exp (.createNode req) w a w') (id : NodeId) :
    rowVisits w'.store id = rowVisits w.store id := by
  refine env_induct (P := fun x => rowVisits x.store id = rowVisits w.store id) ha rfl
    (fun w₁ happ => ?_) fun _ _ h => h
  cases happ with
  | createNode hc => exact rowVisits_createNode hc id

/-! ### What the store owes -/

/-- The visits of a node whose calls are still to be made. -/
def Point.owes : Point F → NodeId → Nat
  | .storing _ d rest _ _, id => routedTo id (rest.map (·.2)) + if id = d.parent then 1 else 0
  | .parentDue _ d _ _, id => if id = d.parent then 1 else 0
  | _, _ => 0

/-- What else is known at a point: nothing is visited before the root is there, a scored batch
does not come back to its parent, and what is to be stored is not routed. -/
def Point.Onward (r : Runner F) : Point F → Prop
  | .start | .fresh | .bootstrapped _ => ∀ id, r.commitState.tree.visitsOf id = 0
  | .scored _ d results | .owned _ d results =>
    ∀ result ∈ results, r.commitState.seen.get result.stateHash ≠ some d.parent
  | .storing _ _ rest _ _ => ∀ x ∈ rest, x.2.nodeId = none ∨ x.2.duplicateRoute = none
  | _ => True

/-- Where a process that failed is. -/
def Point.broken : Point F → Bool
  | .ended | .torn _ | .at .failed | .began .failed | .archived .failed _
  | .truncating .failed _ _ => true
  | _ => false

/-- The rows and what they are owed make up the visits of the tree. -/
structure Balanced (p : Point F) (r : Runner F) (s : Store F) : Prop where
  visits : p.broken = false → ∀ id, rowVisits s id + p.owes id = r.commitState.tree.visitsOf id
  onward : p.Onward r

section

variable {p p' : Point F} {r r' : Runner F} {s : Store F}

theorem broken_onError (p : Point F) : p.onError.broken = true := by
  cases p with
  | «at» c | completed c _ | began c | archived c _ | truncating c _ _ => cases c <;> rfl
  | _ => rfl

theorem balanced_broken (hp : p.broken = true) : Balanced p r s := by
  refine ⟨fun h => ?_, ?_⟩
  · rw [hp] at h
    cases h
  · cases p <;> trivial

theorem Balanced.congr (h : Balanced p r s) (hc : r'.commitState = r.commitState) :
    Balanced p r' s := by
  obtain ⟨hvisits, honward⟩ := h
  refine ⟨hc ▸ hvisits, ?_⟩
  unfold Point.Onward at honward ⊢
  rw [hc]
  exact honward

theorem visitsOf_fromRoot (payload : NodePayload F) (id : NodeId) :
    (CommitState.fromRoot payload).tree.visitsOf id = 0 := by
  cases id <;> rfl

/-- The commit in memory is ahead of the rows by what the calls will count. -/
theorem Balanced.commit {c : Rest} {d : BatchResult} {results : List (ScoreResult F)}
    {outcome : BatchCommitOutcome} {cs : CommitState F} (h : Balanced (.owned c d results) r s)
    (hc : commitBatch d.parent (scoredChildren r.commitState.cellMirror []
      (items (scorable d.jobs) results)) exp.rules r.commitState = .ok outcome cs) :
    Balanced (.storing c d ((items (scorable d.jobs) results).zip outcome.childCommits) []
      outcome.goalNode) { r with commitState := cs } s := by
  obtain ⟨hlen, hor⟩ := commitBatch_stored_or_routed hc
  have hzip : ((items (scorable d.jobs) results).zip outcome.childCommits).map (·.2) =
      outcome.childCommits := by
    refine List.map_snd_zip (Nat.le_of_eq ?_)
    rw [hlen, length_scoredChildren]
  have hself : routedTo d.parent outcome.childCommits = 0 := by
    refine routedTo_eq_zero fun commit hcommit hroute => ?_
    obtain ⟨child, hchild, hseen⟩ := commitBatch_routes hc hcommit hroute
    obtain ⟨it, hit, heq⟩ := mem_scoredChildren hchild
    have hresult : it.result ∈ results :=
      (map_result_items (scorable d.jobs) results).subset (List.mem_map_of_mem hit)
    exact h.onward it.result hresult (heq ▸ hseen)
  refine ⟨fun _ id => ?_, fun x hx => ?_⟩
  · have hbefore := h.visits rfl id
    simp only [Point.owes, hzip, Nat.add_zero] at hbefore ⊢
    rw [commitBatch_visitsOf hc, ← hbefore]
    by_cases hid : id = d.parent
    · rw [if_pos hid, if_pos hid, hid, hself, Nat.zero_add]
    · rw [if_neg hid, if_neg hid, Nat.add_zero]
  · exact hor x.2 (List.of_mem_zip hx).2

theorem Local.balanced (hl : Local exp p r p' r') (hf : p.firsthand = true)
    (h : Balanced p r s) : Balanced p' r' s := by
  cases hl with
  | touch hsame => exact h.congr hsame.commitState
  | fail => exact balanced_broken (broken_onError p)
  | adoptGeneration | collect | loaded | noPost | books | replayNothingToScore | replayUnowned
  | adoptChild | replayChild | replayChildFailed | acted | replayParent | replayParentFailed =>
    cases hf
  | commit hc => exact h.commit hc
  | commitFailed => exact balanced_broken rfl
  | unowned => exact ⟨h.visits, h.onward⟩
  | @unrouted c d it commit rest states goal r hid hroute =>
    refine ⟨fun _ id => ?_, fun x hx => h.onward x (List.mem_cons_of_mem _ hx)⟩
    have hvisits := h.visits rfl id
    simp only [Point.owes, List.map_cons, routedTo_cons, hroute] at hvisits ⊢
    exact hvisits
  | stored => exact ⟨fun _ id => by simpa [Point.owes, routedTo] using h.visits rfl id, trivial⟩
  | settle =>
    rw [addGoal_inflight]
    exact ⟨h.visits, trivial⟩
  | @truncated c => cases c <;> exact ⟨h.visits, trivial⟩
  | _ => exact ⟨h.visits, trivial⟩

/-- The state of a scored batch is not the one its parent stands for. -/
def Event.Onward : Event F → Prop
  | .scored r results => ∀ i, r.current = some i → ∀ result ∈ results,
      r.commitState.seen.get result.stateHash ≠ some i.node
  | _ => True

instance : (e : Event F) → Decidable e.Onward
  | .scored r results =>
    decidable_of_iff (∀ i ∈ r.current.toList, ∀ result ∈ results,
      r.commitState.seen.get result.stateHash ≠ some i.node) (by
        simp only [Option.mem_toList, Event.Onward])
  | .rpcFailed _ | .started _ | .selecting _ | .proposed _ _ | .walWritten _ | .submitted _
  | .committed _ _ _ | .aborted _ _ | .checkpointBegan _ | .checkpointed _ | .walDeleted _ =>
    isTrue trivial

theorem Next.balanced {op : Op F} {a : Ans F op} {w w' : World F} (hn : Next exp p r op a p' r')
    (ha : env exp op w a w') (hf : p.firsthand = true) (hpaired : Paired r p)
    (honward : ∀ e ∈ w'.log, e.event.Onward) (h : Balanced p r w.store) :
    Balanced p' r' w'.store := by
  -- most calls leave the rows alone
  have frame : op.writesRows = false → rowVisits w'.store = rowVisits w.store := fun hop => by
    funext id
    rw [rowVisits, rowVisits, env_rows ha hop]
  cases hn with
  | quiet hq =>
    have hrows := frame (by cases op <;> first | rfl | cases hq)
    exact ⟨hrows ▸ h.visits, h.onward⟩
  | failed => exact balanced_broken (broken_onError p)
  | stale | collected | missed | adopt | restored | caughtUp | submittedReplay | completedReplay
  | scoreReplay | ownReplay | createReplayed | routeReplayed | buildReplay | checkedReplay =>
    cases hf
  | noCheckpoint | bootstrap => exact ⟨frame rfl ▸ h.visits, h.onward⟩
  | @rootScored r root bytes seq result others hb =>
    refine ⟨fun _ id => ?_, trivial⟩
    have hvisits := h.visits rfl id
    rw [h.onward id] at hvisits
    rw [frame rfl, visitsOf_fromRoot]
    exact hvisits
  | rootCreated bringup =>
    refine ⟨fun _ id => ?_, trivial⟩
    rw [env_createNode_visits ha]
    exact h.visits rfl id
  | @scored c d results =>
    refine ⟨frame rfl ▸ h.visits, fun result hresult => ?_⟩
    obtain ⟨i, hi, hnode⟩ := hpaired.2
    have hentry : ⟨.scored r results, w.store, w.scorer⟩ ∈ w'.log := by
      rw [env_record ha]
      exact List.mem_append_right _ List.mem_cons_self
    exact hnode ▸ honward _ hentry i hi result hresult
  | own => exact ⟨frame rfl ▸ h.visits, h.onward⟩
  | @create c d it commit rest states goal r node record a bringup hid hr =>
    have hroute : commit.duplicateRoute = none :=
      (h.onward (it, commit) List.mem_cons_self).resolve_left (by rw [hid]; nofun)
    refine ⟨fun _ id => ?_, fun x hx => h.onward x (List.mem_cons_of_mem _ hx)⟩
    have hvisits := h.visits rfl id
    simp only [Point.owes, List.map_cons, routedTo_cons, hroute] at hvisits ⊢
    rw [env_createNode_visits ha]
    exact hvisits
  | @route c d it commit rest states goal r existing hid hroute =>
    obtain ⟨store, hu, rfl⟩ := env_updateNode_ok ha
    refine ⟨fun _ id => ?_, fun x hx => h.onward x (List.mem_cons_of_mem _ hx)⟩
    have hvisits := h.visits rfl id
    have hrow := rowVisits_updateNode hu id
    simp only [Point.owes, List.map_cons, routedTo_cons, hroute, Option.some_inj] at hvisits ⊢
    simp only [routeUpdate, eq_comm (a := id) (b := existing)] at hrow
    show rowVisits store id + _ = _
    omega
  | @parent c d states goal r record hr =>
    obtain ⟨store, hu, rfl⟩ := env_updateNode_ok ha
    refine ⟨fun _ id => ?_, trivial⟩
    have hvisits := h.visits rfl id
    have hrow := rowVisits_updateNode hu id
    exact hrow.trans hvisits
  | @completed c _ k jobs b hc hb =>
    cases c with
    | failed => cases hc
    | _ => exact ⟨frame rfl ▸ h.visits, trivial⟩
  | @committed c d goal =>
    refine ⟨fun _ => ?_, trivial⟩
    rw [frame rfl]
    exact h.visits rfl
  | aborted => exact balanced_broken rfl
  | @began c | @archived c | @archivedAgain c | @put c | @truncated c =>
    cases c <;> exact ⟨frame rfl ▸ h.visits, trivial⟩
  | _ => exact ⟨frame rfl ▸ h.visits, trivial⟩

end

theorem Reach.balanced (h : ReachesAlone exp p r w) (honward : ∀ e ∈ w.log, e.event.Onward) :
    Balanced p r w.store := by
  induction h with
  | init hw =>
    subst hw
    exact ⟨fun _ id => (visitsOf_fromRoot _ id).symm, visitsOf_fromRoot _⟩
  | restart _ hagain _ => exact hagain.elim
  | loc h hl ih => exact hl.balanced (h.firsthand (within_alone exp)).point (ih honward)
  | call h hn ha ih =>
    have hwide := h.widen (within_alone exp)
    have hlog := fun e he => honward e ((env_log ha).1.subset he)
    exact hn.balanced ha (h.firsthand (within_alone exp)).point hwide.paired honward (ih hlog)

theorem Reach.boundary_visits {r₀ : Runner F} (h : ReachesAlone exp p r w)
    (honward : ∀ e ∈ w.log, e.event.Onward) {e : Entry F} (he : e ∈ w.log)
    (hb : e.event.boundary = some r₀) (id : NodeId) :
    rowVisits e.store id = r₀.commitState.tree.visitsOf id := by
  have hn : e.event.noted = true := by
    cases hev : e.event <;> simp_all [Event.boundary, Event.noted, Event.runner]
  obtain ⟨i, hi⟩ := List.mem_iff_getElem?.mp he
  obtain ⟨p₀, r', w₀, p₁, r₁, h₀, hnext, hstore, -, hlog, -⟩ :=
    h.origin_noted (within_alone exp) hi hn
  have hbalanced := h₀.balanced fun e' he' =>
    honward e' (hlog.subset (List.mem_append_left _ he'))
  rw [hstore]
  generalize e.event = event at hnext hb
  cases hnext with
  | quiet hq => cases hq
  | failed hi => cases hi
  | started | select | committed =>
    cases hb
    exact hbalanced.visits rfl id
  | scored | aborted | began => cases hb

/-! ### The rows between two batches -/

/-- **Visits in the store.** In a run of one process from an empty store, if no scored child
comes back to the state its parent stands for, then between any two batches every row has the
visits of its node, whatever is expanded and routed and whatever calls fail. -/
theorem visits_match_unless_returning {fuel : Nat} {p : Prog (Op F) (Ans F) Unit} {w : World F}
    (h : Prog.Undisturbed (env exp) (boot exp fuel) .empty p w)
    (honward : ∀ e ∈ w.log, e.event.Onward) :
    ∀ e ∈ w.log, ∀ r, e.event.boundary = some r → ∀ id row, e.store.rows[id]? = some row →
      ∃ record, r.commitState.tree.get id = some record ∧ record.visits = row.visitCount := by
  intro e he r hb id row hrow
  obtain ⟨p', r', hreach⟩ : Known exp (env exp) ⟨(World.empty = ·), False⟩ w :=
    reach_of_undisturbed rfl h
  have hsynced := (hreach.widen (within_alone exp)).boundary he hb
  have hvisits := hreach.boundary_visits honward he hb id
  have hlt : id < r.commitState.tree.len :=
    (hsynced.refines.nodes id).mp (Std.ExtTreeMap.mem_iff_isSome_getElem?.mpr (by rw [hrow]; rfl))
  obtain ⟨record, hrecord⟩ : ∃ record, r.commitState.tree.get id = some record :=
    ⟨_, List.getElem?_eq_getElem hlt⟩
  rw [rowVisits, hrow, Tree.visitsOf_of_get hrecord] at hvisits
  exact ⟨record, hrecord, hvisits.symm⟩

/-- Every child arrives at one and the same state. -/
def arriving (hash : StateHash) : Experiment Int :=
  { sample with
    execute := fun batch => batch.bursts.map fun burst =>
      sampleJob burst.burstId [hash, hash, hash, 0, 0] }

/-- At some boundary a node has these visits in the tree and these in the store. -/
def Counted (w : World F) (id : NodeId) (inTree inStore : Nat) : Prop :=
  ∃ e ∈ w.log, ∃ r, e.event.boundary = some r ∧
    r.commitState.tree.visitsOf id = inTree ∧ rowVisits e.store id = inStore

instance (w : World F) (id : NodeId) (inTree inStore : Nat) :
    Decidable (Counted w id inTree inStore) :=
  decidable_of_iff (∃ e ∈ w.log, ∃ r ∈ e.event.boundary.toList,
    r.commitState.tree.visitsOf id = inTree ∧ rowVisits e.store id = inStore) (by
      simp only [Option.mem_toList, Counted])

theorem undisturbed_evaluate (exp : Experiment Int) (script : List Choice) :
    ∃ p, Prog.Undisturbed (env exp) (boot exp script.length) .empty p (evaluate exp [script]) :=
  Prog.undisturbed_drive (respond exp) (fun c _ _ _ => ⟨c, rfl⟩) .start

/-- All batches on the root, and the second is routed to the child of the first. -/
theorem visits_match_routed :
    ∃ p w, Prog.Undisturbed (env (arriving 10)) (boot (arriving 10) 60) .empty p w ∧
      (∀ e ∈ w.log, e.event.Onward) ∧ Counted w 1 1 1 ∧
      ∀ e ∈ w.log, ∀ r, e.event.boundary = some r → ∀ id row, e.store.rows[id]? = some row →
        ∃ record, r.commitState.tree.get id = some record ∧ record.visits = row.visitCount := by
  have honward : ∀ e ∈ (evaluate (arriving 10) [List.replicate 60 .answer]).log,
      e.event.Onward := by decide +kernel
  have hcounted : Counted (evaluate (arriving 10) [List.replicate 60 .answer]) 1 1 1 := by
    decide +kernel
  obtain ⟨p, hrun⟩ := undisturbed_evaluate (arriving 10) (List.replicate 60 .answer)
  generalize evaluate (arriving 10) [List.replicate 60 .answer] = w at honward hcounted hrun
  exact ⟨p, w, hrun, honward, hcounted, visits_match_unless_returning hrun honward⟩

/-- A child in the state of its parent, the root, is counted again in the store alone. -/
theorem visits_differ :
    ∃ p w, Prog.Undisturbed (env (arriving 1)) (boot (arriving 1) 60) .empty p w ∧
      (∀ e ∈ w.log, e.event.fails = false) ∧ Counted w 0 1 2 := by
  have hfailing : ∀ e ∈ (evaluate (arriving 1) [List.replicate 60 .answer]).log,
      e.event.fails = false := by decide +kernel
  have hcounted : Counted (evaluate (arriving 1) [List.replicate 60 .answer]) 0 1 2 := by
    decide +kernel
  obtain ⟨p, hrun⟩ := undisturbed_evaluate (arriving 1) (List.replicate 60 .answer)
  generalize evaluate (arriving 1) [List.replicate 60 .answer] = w at hfailing hcounted hrun
  exact ⟨p, w, hrun, hfailing, hcounted⟩

end Orchestrator.Server
