import Orchestrator.Core.CommitInvariant
import Orchestrator.Core.PolicyDraws
import Orchestrator.Server.Environment

/-! # Server — Selection

The policy object of a runner. It is made when the process starts, is told the runner's number
of expansions before every selection, and lives as long as the process; only the staged policy
listens.

* `dispatched_by_policy`: in the runs under a policy it chooses the node of every batch.
* `selection_of_search_state`: what a selection depends on.
* `policy_sees_expansions_iff`
-/

namespace Orchestrator.Server

open Core Services Lib
open Policy

/-- `PolicyBox`. -/
inductive PolicyBox where
  | softmax
  | ucb (totalExpansions : Nat)
  | staged (totalExpansions : Nat)
deriving DecidableEq, Repr

section

variable {F : Type} [PolicyFloat F]

namespace PolicyBox

/-- `PolicyBox::from_config`. -/
def fromConfig (s : SelectionConfig F) : PolicyBox :=
  match s.policy with
  | .softmax => .softmax
  | .ucb => .ucb 0
  | .staged => .staged 0

/-- `PolicyBox::set_total_expansions`. -/
def setTotalExpansions (total : Nat) : PolicyBox → PolicyBox
  | .staged _ => .staged total
  | .ucb t => .ucb t
  | .softmax => .softmax

/-- `PolicyBox::select`. -/
def draw (value : UcbValue F) (ctx : Context F) : PolicyBox → Drawing F SelectionChoice
  | .softmax => do
    let cs ← Drawing.lift (candidateSnapshots ctx)
    softmaxSelect cs ctx.selection.temperature
  | .ucb total => do
    let cs ← Drawing.lift (candidateSnapshots ctx)
    Drawing.lift (ucbSelect value cs total ctx.selection.ucbC)
  | .staged total => do
    let cs ← Drawing.lift (candidateSnapshots ctx)
    let targetStage ← Drawing.lift (targetStageFromTree ctx.tree)
    stagedSelect value ctx.selection cs targetStage total

/-- What `PolicyBox::select` returns. -/
def select (value : UcbValue F) (ctx : Context F) (rng : Rng F) (box : PolicyBox) :
    Except (PolicyError F) SelectionChoice :=
  (box.draw value ctx).outcome rng

/-- The count of expansions in the exploration term, if there is such a term. -/
def ucbTotal (s : SelectionConfig F) : PolicyBox → Option Nat
  | .softmax => none
  | .ucb total => some total
  | .staged total => if s.inner = .ucb then some total else none

end PolicyBox

/-- What `build_intent` selects with: the configuration, the ladder's knobs, the random
streams by batch number, and the value UCB ranks by. -/
structure Setup (F : Type) [PolicyFloat F] where
  selection : SelectionConfig F
  tempFactor : F
  backtrack : BacktrackKnobs F
  rng : Nat → Rng F
  value : UcbValue F

namespace Setup

/-- The context of a selection, with the ladder's factors at the runner's level. -/
def context (setup : Setup F) (c : PolicyContext F) : Context F :=
  { tree := c.tree
    frontier := c.frontier
    mirror := c.cellMirror
    selection :=
      { setup.selection with
        temperature := setup.selection.temperature *
          if c.level.includes .l2 then setup.tempFactor else PolicyFloat.ofNat 1 }
    backtrack := if c.level.includes .l3 then some setup.backtrack else none }

/-- The policy object after the selections of a process, at so many expansions each. -/
def box (setup : Setup F) (past : List Nat) : PolicyBox :=
  past.foldl (fun box total => box.setTotalExpansions total) (.fromConfig setup.selection)

/-- The policy object a selection uses. -/
def boxAt (setup : Setup F) (past : List Nat) (c : PolicyContext F) : PolicyBox :=
  (setup.box past).setTotalExpansions c.expansions

/-- The selection of `build_intent`. -/
def choice (setup : Setup F) (past : List Nat) (c : PolicyContext F) :
    Except (PolicyError F) SelectionChoice :=
  (setup.boxAt past c).select setup.value (setup.context c) (setup.rng c.batchSeq)

def withUcb (setup : Setup F) : Setup F :=
  { setup with selection := { setup.selection with policy := .ucb } }

def withStagedUcb (setup : Setup F) : Setup F :=
  { setup with selection := { setup.selection with policy := .staged, inner := .ucb } }

/-- All candidates are in the leading stage. -/
def AllLeading (setup : Setup F) (c : PolicyContext F) : Prop :=
  ∃ cs targetStage, candidateSnapshots (setup.withUcb.context c) = .ok cs ∧
    targetStageFromTree c.tree = .ok targetStage ∧ ∀ c ∈ cs, c.stage = targetStage

end Setup

/-- The exploration term sees the runner's expansions. -/
def SeesExpansions (setup : Setup F) (past : List Nat) (r : Runner F) : Prop :=
  ∀ total, (setup.boxAt past (policyContext r)).ucbTotal setup.selection = some total →
    total = r.expansions

/-- UCB by itself and UCB under the staged policy take the same candidate. -/
def SameChoice (r : Runner F) : Prop :=
  ∀ (setup : Setup F) (past past' : List Nat), setup.AllLeading (policyContext r) →
    setup.withUcb.choice past (policyContext r) = setup.withStagedUcb.choice past' (policyContext r)

/-! ### What a selection is -/

variable {ctx : Context F}

variable {box : PolicyBox} {value : UcbValue F} {rng : Rng F} {choice : SelectionChoice}
  {r : Runner F}

/-- A choice names one of the candidates, at its position. -/
theorem PolicyBox.select_ok (h : box.select value ctx rng = .ok choice) :
    ∃ cs, candidateSnapshots ctx = .ok cs ∧ choice.Picks cs := by
  obtain ⟨rng', h⟩ := Drawing.of_outcome h
  cases box with
  | softmax =>
    obtain ⟨cs, _, hcs, h⟩ := bind_ok h
    exact ⟨cs, Drawing.of_lift hcs, softmaxSelect_ok h⟩
  | ucb total =>
    obtain ⟨cs, _, hcs, h⟩ := bind_ok h
    exact ⟨cs, Drawing.of_lift hcs, ucbSelect_ok (Drawing.of_lift h)⟩
  | staged total =>
    obtain ⟨cs, _, hcs, h⟩ := bind_ok h
    obtain ⟨targetStage, _, -, h⟩ := bind_ok h
    exact ⟨cs, Drawing.of_lift hcs, stagedSelect_ok h⟩

theorem PolicyBox.select_mem (h : box.select value ctx rng = .ok choice) :
    ∃ ids, ctx.frontier.deterministicCandidates ctx.tree = .ok ids ∧ choice.selected ∈ ids := by
  obtain ⟨cs, hcs, c, hc, hid⟩ := select_ok h
  obtain ⟨-, ids, hids, -, hmem⟩ := candidateSnapshots_ok hcs
  exact ⟨ids, hids, hid ▸ hmem c (List.mem_of_getElem? hc)⟩

/-- What is said to an object before the last time it is told is forgotten. -/
theorem Setup.boxAt_eq (setup : Setup F) (past : List Nat) (c : PolicyContext F) :
    setup.boxAt past c =
      (PolicyBox.fromConfig setup.selection).setTotalExpansions c.expansions := by
  have hforget : ∀ box : PolicyBox,
      (past.foldl (fun box total => box.setTotalExpansions total) box).setTotalExpansions
        c.expansions = box.setTotalExpansions c.expansions := by
    induction past with
    | nil => exact fun _ => rfl
    | cons total past ih => exact fun box => (ih _).trans (by cases box <;> rfl)
  exact hforget _

/-! ### Runs under a policy -/

/-- Where the choice of `build_intent` is among the candidates. -/
def Setup.pick (setup : Setup F) (c : PolicyContext F) : Except ClientError (Option Nat) :=
  match setup.choice [] c with
  | .ok choice =>
    .ok (some ((okOr [] (c.frontier.deterministicCandidates c.tree)).idxOf choice.selected))
  | .error .emptyCandidateSet => .ok none
  | .error _ => .error selectionFailed

/-- An experiment whose policy is this one. -/
def Setup.chooses (setup : Setup F) (exp : Experiment F) : Experiment F :=
  { exp with pick := setup.pick }

/-- What the policy chooses is selected. -/
theorem Setup.choice_of_selectNode {setup : Setup F} {exp : Experiment F} {node : NodeId}
    (h : selectNode (setup.chooses exp) r = .ok (some node)) (past : List Nat) :
    ∃ choice, setup.choice past (policyContext r) = .ok choice ∧ choice.selected = node := by
  have hpast : setup.choice past (policyContext r) = setup.choice [] (policyContext r) := by
    unfold choice
    rw [boxAt_eq, boxAt_eq]
  simp only [selectNode, chooses, pick] at h
  rw [hpast]
  split at h
  · cases h
  · cases h
  · rename_i k hk
    split at hk
    · rename_i choice hchoice
      obtain ⟨ids, hids, hmem⟩ := PolicyBox.select_mem hchoice
      cases hk
      change r.commitState.frontier.deterministicCandidates r.commitState.tree = .ok ids at hids
      simp only [policyContext, hids, okOr] at h
      rw [Nat.mod_eq_of_lt (List.idxOf_lt_length_iff.mpr hmem), List.getElem?_idxOf hmem] at h
      cases h
      exact ⟨choice, hchoice, rfl⟩
    · cases hk
    · cases hk

/-- The state an event says a selection is made in. -/
def Event.selects : Event F → Option (Runner F)
  | .selecting r => some r
  | _ => none

/-- The state the latest selection on a log was made in. -/
def lastSelection (log : List (Entry F)) : Option (Runner F) :=
  (log.filterMap (·.event.selects)).getLast?

theorem lastSelection_concat (log : List (Entry F)) (e : Entry F) :
    lastSelection (log ++ [e]) = e.event.selects.or (lastSelection log) := by
  unfold lastSelection
  rw [List.filterMap_append]
  cases h : e.event.selects with
  | none => simp [h]
  | some r => simp [h]

section

variable {exp : Experiment F} {p p' : Point F} {r r' : Runner F} {w w' : World F}

variable {op : Op F} {a : Ans F op}

theorem env_lastSelection (he : env exp op w a w') (hop : ∀ r, op ≠ .record (.selecting r)) :
    lastSelection w'.log = lastSelection w.log := by
  refine env_induct (P := fun x => lastSelection x.log = lastSelection w.log) he rfl
    (fun w₁ happ => ?_) fun x err h => (lastSelection_concat _ _).trans h
  cases happ
  case record e =>
    refine (lastSelection_concat _ _).trans ?_
    cases e with
    | selecting r => exact absurd rfl (hop r)
    | _ => rfl
  case putCheckpoint | putWal | deleteWal | buildPropose | submit =>
    exact lastSelection_concat _ _
  all_goals rfl

/-- What a dispatch works on was chosen in the state of the latest selection. -/
def Point.Chosen (exp : Experiment F) (w : World F) : Point F → Prop
  | .selecting r => lastSelection w.log = some r
  | .dispatching i => ∃ r node, lastSelection w.log = some r ∧
      selectNode exp r = .ok (some node) ∧ i = buildIntent exp r node
  | _ => True

theorem Point.chosen_onError (p : Point F) : p.onError.Chosen exp w := by
  cases p with
  | «at» c | completed c _ | began c | archived c _ | truncating c _ _ => cases c <;> trivial
  | _ => trivial

theorem Local.chosen (hl : Local exp p r p' r') (h : p.Chosen exp w) : p'.Chosen exp w := by
  cases hl with
  | touch => exact h
  | fail => exact p.chosen_onError
  | @selected r node hnode => exact ⟨r, node, h, hnode, rfl⟩
  | @truncated c => cases c <;> trivial
  | _ => trivial

theorem Next.chosen (hn : Next exp p r op a p' r') (he : env exp op w a w') (h : p.Chosen exp w) :
    p'.Chosen exp w' := by
  cases hn with
  | quiet hq =>
    have hlast := env_lastSelection he fun r hr => by rw [hr] at hq; cases hq
    cases p
    case selecting | dispatching =>
      simp only [Point.Chosen, hlast]
      exact h
    all_goals trivial
  | failed => exact p.chosen_onError
  | select => rw [env_record he]; exact lastSelection_concat _ _
  | _ => trivial

theorem Reach.chosen (h : Reaches exp p r w) : p.Chosen exp w := by
  induction h with
  | init | restart => trivial
  | loc _ hl ih => exact hl.chosen ih
  | call _ hn ha ih => exact hn.chosen ha ih

/-- Every new batch is that of the latest selection. -/
theorem Reach.selected (h : Reaches exp p r w) {k : Nat} {e : Entry F} {i : ExpansionIntent}
    (he : w.log[k]? = some e) (hi : e.event = .proposed i false) :
    ∃ r node, lastSelection (w.log.take k) = some r ∧ selectNode exp r = .ok (some node) ∧
      i = buildIntent exp r node := by
  rcases h.entry he with ⟨err, herr⟩ | ⟨p₀, r₀, w₀, op, a, p₁, r₁, h₀, hn, hmade, rfl⟩
  · rw [hi] at herr
    cases herr
  · obtain ⟨w₁, happ, hlog, hle, -⟩ := hmade
    have htake : w.log.take w₀.log.length = w₀.log := by
      rw [hlog] at hle
      exact (List.prefix_iff_eq_take.mp ((List.prefix_append _ _).trans hle)).symm
    rw [htake]
    cases happ
    case buildPropose =>
      cases List.append_cancel_left hlog
      cases hi
      cases hn with
      | quiet hq => cases hq
      | failed hissue =>
        cases hissue
        exact h₀.chosen
      | build => exact h₀.chosen
    case putCheckpoint | putWal | deleteWal | submit =>
      cases List.append_cancel_left hlog
      cases hi
    case record =>
      cases List.append_cancel_left hlog
      cases hi
      cases hn with
      | quiet hq => cases hq
      | failed hissue => cases hissue
    all_goals
      cases List.append_cancel_left ((List.append_nil _).trans hlog)

end

/-- **The policy chooses.** In every run under a policy, with any answers of the services and any
stops and starts, the node of every new batch is the policy's choice in the state of the latest
selection, whatever the policy object was told before. -/
theorem dispatched_by_policy (setup : Setup F) (exp : Experiment F)
    {s : Solo (Op F) (Ans F) (World F)}
    (h : Solo.Steps (env (setup.chooses exp)) (boot (setup.chooses exp)) ⟨.empty, none⟩ s)
    {k : Nat} {e : Entry F} {i : ExpansionIntent} (he : s.world.log[k]? = some e)
    (hi : e.event = .proposed i false) (past : List Nat) :
    ∃ r choice, lastSelection (s.world.log.take k) = some r ∧
      setup.choice past (policyContext r) = .ok choice ∧
      i = buildIntent exp r choice.selected := by
  obtain ⟨p, r', hreach⟩ := reaches_of_steps h
  obtain ⟨r, node, hlast, hnode, rfl⟩ := hreach.selected he hi
  obtain ⟨choice, hchoice, rfl⟩ := Setup.choice_of_selectNode hnode past
  exact ⟨r, choice, hlast, hchoice, rfl⟩

/-! ### What a selection depends on -/

/-- Apart from the candidates, a selection reads the tree and the knobs. -/
theorem PolicyBox.draw_congr (box : PolicyBox) (value : UcbValue F) {ctx' : Context F}
    (h : SameSearch ctx ctx') (hcs : candidateSnapshots ctx' = candidateSnapshots ctx) :
    box.draw value ctx' = box.draw value ctx := by
  cases box <;> simp only [draw, hcs, h.selection, h.tree]

theorem PolicyBox.draw_error (box : PolicyBox) (value : UcbValue F) {e : PolicyError F}
    (h : candidateSnapshots ctx = .error e) (rng : Rng F) :
    box.draw value ctx rng = .error e rng := by
  cases box <;> simp only [draw, h] <;> rfl

/-- **A selection depends only on the search state, and is sound.** The frontier of a search
has nodes of its tree. Where it has another, both selections say so and draw nothing; the one
they name may differ. -/
theorem selection_of_search_state (box : PolicyBox) (value : UcbValue F) (ctx ctx' : Context F)
    (h : SameSearch ctx ctx') (rng : Rng F) :
    ((∀ id ∈ ctx.frontier.entries, ∃ record, ctx.tree.get id = some record) →
      box.draw value ctx' rng = box.draw value ctx rng) ∧
    (∀ root s dups, Committed root s dups → ctx.tree = s.tree → ctx.frontier = s.frontier →
      box.draw value ctx' rng = box.draw value ctx rng) ∧
    (∀ id ∈ ctx.frontier.entries, ctx.tree.get id = none →
      validateSelectionWeights ctx.selection = .ok () →
      ∃ id₁ ∈ ctx.frontier.entries, ∃ id₂ ∈ ctx.frontier.entries,
        box.draw value ctx rng = .error (.frontier (.unknownNode id₁)) rng ∧
        box.draw value ctx' rng = .error (.frontier (.unknownNode id₂)) rng) ∧
    (∀ e, validateSelectionWeights ctx.selection = .error e →
      box.draw value ctx rng = .error e rng ∧ box.draw value ctx' rng = .error e rng) ∧
    (box.draw value ctx).outcome rng = box.select value ctx rng ∧
    ∀ choice, box.select value ctx rng = .ok choice →
      ∃ cs c, candidateSnapshots ctx = .ok cs ∧ cs[choice.candidateIndex]? = some c ∧
        c.id = choice.selected ∧ choice.selected ∈ ctx.frontier.entries ∧
        ∃ record, ctx.tree.get choice.selected = some record ∧ record.status = .frontier ∧
          record.exhausted = false := by
  have hsame : (∀ id ∈ ctx.frontier.entries, ∃ record, ctx.tree.get id = some record) →
      box.draw value ctx' rng = box.draw value ctx rng := by
    intro hknown
    rw [box.draw_congr value h (candidateSnapshots_congr h hknown)]
  refine ⟨hsame, fun root s dups hs htree hfrontier => hsame fun id hid => ?_,
    fun id hid hunknown hweights => ?_, fun e he => ?_, rfl, fun choice hchoice => ?_⟩
  · rw [hfrontier] at hid
    obtain ⟨record, hrecord, -⟩ := Tree.inFrontier_iff.mp ((hs.coherent.frontier id).mp hid)
    exact ⟨record, htree ▸ hrecord⟩
  · obtain ⟨id₁, hid₁, -, herror₁⟩ := candidateSnapshots_unknown hid hunknown hweights
    obtain ⟨id₂, hid₂, -, herror₂⟩ := candidateSnapshots_unknown ((h.frontier id).mpr hid)
      (h.tree ▸ hunknown) (h.selection ▸ hweights)
    exact ⟨id₁, hid₁, id₂, (h.frontier id₂).mp hid₂, box.draw_error value herror₁ rng,
      box.draw_error value herror₂ rng⟩
  · have hsnapshots : ∀ c : Context F, c.selection = ctx.selection →
        candidateSnapshots c = .error e := by
      intro c hc
      simp only [candidateSnapshots, hc, he]
      rfl
    exact ⟨box.draw_error value (hsnapshots ctx rfl) rng,
      box.draw_error value (hsnapshots ctx' h.selection) rng⟩
  · obtain ⟨cs, hcs, c, hc, hid⟩ := PolicyBox.select_ok hchoice
    obtain ⟨ids, hids, hmem⟩ := PolicyBox.select_mem hchoice
    obtain ⟨hentry, record, hrecord, hstatus⟩ :=
      (Frontier.mem_deterministicCandidates hids _).mp hmem
    exact ⟨cs, c, hcs, hc, hid, hentry, record, hrecord, hstatus,
      ctx.tree.wf.frontier_live _ record hrecord hstatus⟩

/-! ### What the policies see -/

/-- Only UCB by itself is left behind. -/
theorem seesExpansions_iff (setup : Setup F) (past : List Nat) (r : Runner F) :
    SeesExpansions setup past r ↔ (setup.selection.policy = .ucb → r.expansions = 0) := by
  unfold SeesExpansions
  rw [Setup.boxAt_eq, PolicyBox.fromConfig]
  cases setup.selection.policy with
  | softmax => simp [PolicyBox.setTotalExpansions, PolicyBox.ucbTotal]
  | ucb => simp [PolicyBox.setTotalExpansions, PolicyBox.ucbTotal, eq_comm]
  | staged => simp [PolicyBox.setTotalExpansions, PolicyBox.ucbTotal, policyContext]

/-! ### Two configurations, one state -/

theorem validateSelectionWeights_withStagedUcb (setup : Setup F) (c : PolicyContext F) :
    validateSelectionWeights (setup.withStagedUcb.context c).selection =
      validateSelectionWeights (setup.withUcb.context c).selection := by
  simp [validateSelectionWeights, Setup.context, Setup.withStagedUcb, Setup.withUcb, refuseIf]

theorem candidates_withStagedUcb (setup : Setup F) (c : PolicyContext F)
    (cutoff : Option (F × Nat)) (entries : List ((NodeId × NodeRecord F) × F)) :
    candidates (setup.withStagedUcb.context c) cutoff entries =
      candidates (setup.withUcb.context c) cutoff entries := by
  have hcandidate : ∀ id record score,
      candidate (setup.withStagedUcb.context c) cutoff id record score =
        candidate (setup.withUcb.context c) cutoff id record score := by
    intro id record score
    simp only [candidate, weightedPriority, validateSelectionWeights_withStagedUcb]
    rfl
  induction entries with
  | nil => rfl
  | cons e rest ih => simp only [candidates, hcandidate, ih]

theorem candidateSnapshots_withStagedUcb (setup : Setup F) (c : PolicyContext F) :
    candidateSnapshots (setup.withStagedUcb.context c) =
      candidateSnapshots (setup.withUcb.context c) := by
  simp only [candidateSnapshots, validateSelectionWeights_withStagedUcb, candidates_withStagedUcb]
  rfl

theorem sameChoice_of_fresh (h : r.expansions = 0) : SameChoice r := by
  intro setup past past' hleading
  obtain ⟨cs, targetStage, hcs, htarget, hstage⟩ := hleading
  have hregress : outsideUnit setup.selection.epsilonRegress = false := by
    have hweights := (candidateSnapshots_ok hcs).1
    simp only [validateSelectionWeights, bind_eq_ok, refuseIf_eq_ok] at hweights
    obtain ⟨_, -, _, -, _, -, _, -, _, -, _, -, _, hregress, -⟩ := hweights
    exact Bool.eq_false_iff.mpr hregress
  have hucb : setup.withUcb.choice past (policyContext r) =
      ucbSelect setup.value cs 0 setup.selection.ucbC := by
    unfold Setup.choice
    rw [Setup.boxAt_eq]
    exact (Drawing.outcome_bind hcs _ _).trans (Drawing.outcome_lift _ _)
  have hstaged : setup.withStagedUcb.choice past' (policyContext r) =
      ucbSelect setup.value cs 0 setup.selection.ucbC := by
    unfold Setup.choice
    rw [Setup.boxAt_eq]
    change (PolicyBox.staged r.expansions).select _ _ _ = _
    rw [h]
    refine (Drawing.outcome_bind ((candidateSnapshots_withStagedUcb setup _).trans hcs)
      _ _).trans ?_
    refine (Drawing.outcome_bind htarget _ _).trans ?_
    exact stagedSelect_of_leading rfl hregress hstage
  rw [hucb, hstaged]

/-- A configuration of UCB by itself. -/
def Setup.plain : Setup F where
  selection := ⟨.ucb, PolicyFloat.ofNat 2, 0, 0, 0, PolicyFloat.ofNat 1, PolicyFloat.ofNat 1, .ucb,
    0, 64, 8⟩
  tempFactor := PolicyFloat.ofNat 1
  backtrack := ⟨0, 0⟩
  rng := fun _ => ⟨fun _ => 0, 0⟩
  value := ucbValue

end

/-- The first child of the root stays the best: batch `n` arrives at a state with the score
`30 - n`. -/
def descending : Experiment Int :=
  { sample with
    execute := fun batch => batch.bursts.map fun burst =>
      (sampleJob burst.burstId [10 + batch.seq, 10 + batch.seq, 30 - batch.seq, 0, 0]) }

/-- Four batches under UCB, and the fifth selection. -/
def underUcb : World Int := evaluate (Setup.plain.chooses descending) [List.replicate 110 .answer]

/-- The node of a new batch. -/
def Event.dispatchedNode : Event Int → Option NodeId
  | .proposed i false => some i.node
  | _ => none

/-- The third batch is that of the second of three candidates. -/
theorem dispatched_by_policy_underUcb :
    ∃ r choice, lastSelection (underUcb.log.take 16) = some r ∧
      okOr [] (r.commitState.frontier.deterministicCandidates r.commitState.tree) = [0, 1, 2] ∧
      Setup.plain.choice [] (policyContext r) = .ok choice ∧ choice.selected = 1 := by
  have hnode : underUcb.log[16]?.bind (·.event.dispatchedNode) = some 1 := by decide +kernel
  have hids : (lastSelection (underUcb.log.take 16)).map (fun r =>
      okOr [] (r.commitState.frontier.deterministicCandidates r.commitState.tree)) =
        some [0, 1, 2] := by
    decide +kernel
  obtain ⟨e, he, hnode⟩ := Option.bind_eq_some_iff.mp hnode
  cases hi : e.event with
  | proposed i replay =>
    rw [hi] at hnode
    cases replay with
    | true => cases hnode
    | false =>
      have hchosen := dispatched_by_policy Setup.plain descending
        (steps_evaluate _ [List.replicate 110 .answer]) he hi []
      obtain ⟨r, choice, hlast, hchoice, rfl⟩ := hchosen
      change lastSelection (underUcb.log.take 16) = some r at hlast
      rw [hlast] at hids
      exact ⟨r, choice, hlast, Option.some.inj hids, hchoice, Option.some.inj hnode⟩
  | _ =>
    rw [hi] at hnode
    cases hnode

/-- Two children of the root, both kept. -/
def twoChildren : List (ScoredChild Int) :=
  [⟨.ofInt 1 12 1 101, false, false, false⟩, ⟨.ofInt 2 15 2 102, false, false, false⟩]

/-- The same frontier after the root was removed and inserted again. -/
def reinserted (f : Frontier) : Except FrontierError Frontier := do
  let f ← f.remove NodeId.root
  f.insert NodeId.root

/-- The context of a commit state with a frontier. -/
def contextOf (s : CommitState Int) (frontier : Frontier) : Context Int :=
  { tree := s.tree, frontier, mirror := s.cellMirror, selection := Setup.plain.selection
    backtrack := none }

theorem mem_reinserted {f f' : Frontier} (h : reinserted f = .ok f')
    (hroot : NodeId.root ∈ f.entries) (id : NodeId) : id ∈ f'.entries ↔ id ∈ f.entries := by
  obtain ⟨f₁, hremove, hinsert⟩ := bind_eq_ok.mp h
  rw [Frontier.mem_insert hinsert, Frontier.mem_remove hremove]
  constructor
  · rintro (⟨hid, -⟩ | rfl)
    · exact hid
    · exact hroot
  · intro hid
    by_cases hne : id = NodeId.root
    · exact .inr hne
    · exact .inl ⟨hid, hne⟩

/-- Two orders of one frontier. -/
theorem selection_of_search_state_reordered :
    ∃ (s : CommitState Int) (f : Frontier) (choice : SelectionChoice),
      f.entries ≠ s.frontier.entries ∧
      (∀ rng, (PolicyBox.ucb 0).draw ucbValue (contextOf s f) rng =
        (PolicyBox.ucb 0).draw ucbValue (contextOf s s.frontier) rng) ∧
      (PolicyBox.ucb 0).select ucbValue (contextOf s s.frontier) ⟨fun _ => 0, 0⟩ = .ok choice ∧
      choice.selected ∈ s.frontier.entries := by
  obtain ⟨o, s, h, hp⟩ := exists_of_succeedsWith
    (r := commitBatch 0 twoChildren ⟨.exhausted, 0, 64, 8⟩ (.fromRoot (.ofInt 0 10 0 100)))
    (p := fun _ s => decide (NodeId.root ∈ s.frontier.entries) &&
      (match reinserted s.frontier with
        | .ok f => decide (f.entries ≠ s.frontier.entries)
        | .error _ => false) &&
      ((PolicyBox.ucb 0).select ucbValue (contextOf s s.frontier) ⟨fun _ => 0, 0⟩).isOk)
    (by decide +kernel)
  simp only [Bool.and_eq_true, decide_eq_true_eq] at hp
  obtain ⟨⟨hroot, hreinserted⟩, hselects⟩ := hp
  cases hf : reinserted s.frontier with
  | error e =>
    rw [hf] at hreinserted
    cases hreinserted
  | ok f =>
    rw [hf] at hreinserted
    cases hchoice : (PolicyBox.ucb 0).select ucbValue (contextOf s s.frontier) ⟨fun _ => 0, 0⟩ with
    | error e =>
      rw [hchoice] at hselects
      cases hselects
    | ok choice =>
      have hsame : SameSearch (contextOf s s.frontier) (contextOf s f) :=
        ⟨rfl, mem_reinserted hf hroot, fun _ => rfl, rfl, rfl⟩
      have hstate := selection_of_search_state (.ucb 0) ucbValue _ _ hsame
      refine ⟨s, f, choice, of_decide_eq_true hreinserted, fun rng => ?_, hchoice, ?_⟩
      · exact (hstate rng).2.1 _ s _ (.batch .root h) rfl rfl
      · obtain ⟨-, -, -, -, -, hentry, -⟩ := (hstate ⟨fun _ => 0, 0⟩).2.2.2.2.2 choice hchoice
        exact hentry

/-- **What the policy sees.** Every configuration but UCB by itself sees the expansions of the
runner; UCB by itself sees them, and agrees with UCB under the staged policy, only as long as
there are none. -/
theorem policy_sees_expansions_iff {F : Type} [PolicyFloat F] (r : Runner F) :
    (∀ (setup : Setup F) (past : List Nat), setup.selection.policy ≠ .ucb →
      SeesExpansions setup past r) ∧
    ((∀ (setup : Setup F) (past : List Nat), SeesExpansions setup past r) ∧ SameChoice r ↔
      r.expansions = 0) := by
  refine ⟨fun setup past hp => (seesExpansions_iff setup past r).mpr (absurd · hp), ?_, ?_⟩
  · rintro ⟨hsees, -⟩
    exact (seesExpansions_iff .plain [] r).mp (hsees _ _) rfl
  · intro h
    exact ⟨fun setup past => (seesExpansions_iff setup past r).mpr fun _ => h,
      sameChoice_of_fresh h⟩

/-- The selection after the fourth batch, where the two configurations part. -/
def Entry.overlooked (e : Entry Int) : Bool :=
  match e.event with
  | .selecting r =>
    r.expansions == 4 &&
      (match candidateSnapshots (Setup.plain.withUcb.context (policyContext r)),
          targetStageFromTree r.commitState.tree with
        | .ok cs, .ok targetStage => cs.all (·.stage == targetStage)
        | _, _ => false) &&
      (match Setup.plain.withUcb.choice [] (policyContext r),
          Setup.plain.withStagedUcb.choice [] (policyContext r) with
        | .ok a, .ok b => a.selected != b.selected
        | _, _ => false)
  | _ => false

theorem Entry.not_sameChoice {e : Entry Int} (h : e.overlooked = true) :
    ∃ r, e.event = .selecting r ∧ r.expansions = 4 ∧ ¬ SameChoice r := by
  unfold Entry.overlooked at h
  split at h
  · rename_i r hr
    simp only [Bool.and_eq_true, beq_iff_eq] at h
    obtain ⟨⟨hexpansions, hleading⟩, hdiffer⟩ := h
    refine ⟨r, hr, hexpansions, fun hsame => ?_⟩
    split at hleading
    · rename_i cs targetStage hcs htarget
      have hall : Setup.plain.AllLeading (policyContext r) :=
        ⟨cs, targetStage, hcs, htarget, by simpa using hleading⟩
      rw [hsame _ [] [] hall] at hdiffer
      split at hdiffer
      · rename_i a b ha hb
        rw [ha] at hb
        cases hb
        simp at hdiffer
      · cases hdiffer
    · cases hleading
  · cases h

/-- After four committed expansions UCB by itself still sees none, and takes another node than
UCB under the staged policy would. -/
theorem policy_overlooks_expansions :
    (Setup.plain.chooses descending).Accepted ∧
      Solo.Steps (env (Setup.plain.chooses descending)) (boot (Setup.plain.chooses descending))
        ⟨.empty, none⟩ ⟨underUcb, none⟩ ∧
      ∃ e ∈ underUcb.log, ∃ r, e.event = .selecting r ∧ r.expansions = 4 ∧
        ¬ SeesExpansions Setup.plain [] r ∧ ¬ SameChoice r := by
  have hany : underUcb.log.any Entry.overlooked = true := by decide +kernel
  obtain ⟨e, he, hoverlooked⟩ := List.any_eq_true.mp hany
  obtain ⟨r, hr, hexpansions, hdiffer⟩ := Entry.not_sameChoice hoverlooked
  refine ⟨by constructor <;> decide, steps_evaluate _ _, e, he, r, hr, hexpansions,
    fun hsees => ?_, hdiffer⟩
  have hnone := (seesExpansions_iff _ _ r).mp hsees rfl
  omega

end Orchestrator.Server
