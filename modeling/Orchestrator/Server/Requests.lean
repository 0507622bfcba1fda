import Orchestrator.Server.StoreInvariant

/-! # Server — Requests of a replay

A replay builds its request from the store as it is then, not as it was at the dispatch. The
rows it reads have not changed, but the parent of the selected node may have got further
children, and their bursts go into the request.

* `Reach.evolves`: the store of any logged moment is an earlier version of the present one.
* `replay_request_eq_iff`: when a replay asks for the same bursts.
-/

namespace Orchestrator.Server

open Core Services Lib

variable {F : Type} [Float64 F] {exp : Experiment F}

/-- The update of a parent only ever exhausts it. -/
theorem later_parentUpdate {s : Store F} {t : Tree F} {parent : NodeId} {record : NodeRecord F}
    (h : StatusesOf s t (· = parent)) (hr : t.get parent = some record) {row : Row F}
    (hrow : s.rows[parent]? = some row) :
    row.Later (Store.applyUpdate row (parentUpdate parent record.status)) := by
  have hstatus : t.statusOf parent = some record.status := by rw [Tree.statusOf, hr]; rfl
  refine ⟨rfl, ?_⟩
  rcases h parent row hrow with hsame | ⟨-, hfrontier, hexpanded⟩
  · exact .inl (Option.some.inj (hstatus.symm.trans hsame))
  · exact .inr ⟨hfrontier, Option.some.inj (hstatus.symm.trans hexpanded)⟩

variable {p : Point F} {r : Runner F} {op : Op F} {w : World F} {e : Entry F}

theorem Issues.evolves {w₁ : World F} (hi : Issues exp p r op) (happ : Applied op w w₁)
    (h : Assert exp r w.store p) : w.store.Evolves w₁.store := by
  have routed : ∀ {existing : NodeId} {store : Store F},
      w.store.updateNode (routeUpdate existing) = .ok store → w.store.Evolves store :=
    fun hu => Store.evolves_updateNode hu fun row _ => ⟨rfl, .inl rfl⟩
  cases hi with
  | createRoot | create | createReplayed =>
    cases happ with
    | createNode hc => exact Store.evolves_createNode hc
  | route | routeReplayed =>
    cases happ with
    | updateNode hu => exact routed hu
  | parent hr =>
    cases happ with
    | updateNode hu =>
      exact Store.evolves_updateNode hu fun row hrow => later_parentUpdate h.2 hr hrow
  | put hv =>
    cases happ with
    | putCheckpoint hput => exact .of_rows (by rw [(Store.putCheckpoint_ok hput).2.2]; rfl)
  | truncate =>
    cases happ with
    | deleteWal hdel => exact .of_rows (by rw [Store.deleteWal_ok hdel]; rfl)
  | propose => cases happ
  | _ =>
    cases happ
    exact .of_rows rfl

theorem Next.evolves {p' : Point F} {r' : Runner F} {a : Ans F op} {w' : World F}
    (hn : Next exp p r op a p' r') (ha : env exp op w a w') (h : Assert exp r w.store p) :
    w.store.Evolves w'.store := by
  rcases hn.issues with hi | ⟨hrows, -⟩
  · exact env_induct (P := fun x => w.store.Evolves x.store) ha (.refl _)
      (fun w₁ happ => hi.evolves happ h) fun _ _ h => h
  · exact .of_rows (env_rows ha hrows)

/-- The entries a call adds show the store before or after it. -/
theorem env_entry_store {a : Ans F op} {w' : World F} (ha : env exp op w a w') (he : e ∈ w'.log) :
    e ∈ w.log ∨ e.store = w'.store := by
  refine env_induct (P := fun x => ∀ e ∈ x.log, e ∈ w.log ∨ e.store = x.store) ha
    (fun e he => .inl he) (fun w₁ happ e he => ?_) (fun x err h e he => ?_) e he
  · rcases happ.log with hlog | ⟨ev, hlog⟩
    · exact .inl (hlog ▸ he)
    · rw [hlog, List.mem_append, List.mem_singleton] at he
      rcases he with he | rfl
      · exact .inl he
      · exact .inr rfl
  · rcases List.mem_append.mp he with he | he
    · exact h e he
    · rw [List.mem_singleton] at he
      exact .inr (he ▸ rfl)

theorem Reach.evolves (h : Reaches exp p r w) (he : e ∈ w.log) : e.store.Evolves w.store := by
  induction h with
  | init hw =>
    subst hw
    cases he
  | restart _ _ ih => exact ih he
  | loc _ _ ih => exact ih he
  | call h hn ha ih =>
    rcases env_entry_store ha he with hold | hnew
    · exact (ih hold).trans (hn.evolves ha h.refines.2)
    · exact .of_rows (by rw [hnew])

/-- **Nodes never move back.** In every run, with kills, resumes and failing calls, a row stays
and its status only changes from frontier to expanded. -/
theorem rows_evolve (exp : Experiment F) {s : Solo (Op F) (Ans F) (World F)}
    (h : Solo.Steps (env exp) (boot exp) ⟨.empty, none⟩ s) :
    ∀ e ∈ s.world.log, e.store.Evolves s.world.store := by
  obtain ⟨p, r, hreach⟩ := reaches_of_steps h
  exact fun _ => hreach.evolves

theorem rows_evolve_killedInCommit :
    (evaluate sample killedInCommit).store.rows.size = 4 ∧
      ∀ e ∈ (evaluate sample killedInCommit).log,
        e.store.Evolves (evaluate sample killedInCommit).store :=
  ⟨by decide +kernel, (rows_evolve sample (steps_evaluate sample killedInCommit) :)⟩

/-- The intent a request was built for, and whether by a replay. -/
def Event.proposal : Event F → Option (ExpansionIntent × Bool)
  | .proposed intent replay => some (intent, replay)
  | _ => none

/-- The store a request was built from. -/
theorem Reach.entry_proposal (h : Reaches exp p r w) {i : Nat} (he : w.log[i]? = some e)
    {proposal : ExpansionIntent × Bool} (hp : e.event.proposal = some proposal) :
    ∃ p₀ r₀ w₀, Reaches exp p₀ r₀ w₀ ∧ w₀.store = e.store ∧ w₀.log = w.log.take i := by
  rcases h.entry he with ⟨err, herr⟩ |
    ⟨p₀, r₀, w₀, op, a, p₁, r₁, h₀, hnext, ⟨w₁, happ, hlog, hle, hstore, -⟩, hi⟩
  · rw [herr] at hp
    cases hp
  · refine ⟨p₀, r₀, w₀, h₀, ?_, ?_⟩
    · cases happ
      case buildPropose | submit | record => exact hstore.symm
      case putCheckpoint | putWal | deleteWal =>
        cases List.append_cancel_left hlog
        cases hp
      all_goals
        cases List.append_cancel_left ((List.append_nil _).trans hlog)
    · rw [hlog] at hle
      rw [← hi]
      exact List.prefix_iff_eq_take.mp ((List.prefix_append _ _).trans hle)

/-- **When a replay asks for the same bursts.** The request a replay builds for an intent is
the one its dispatch built exactly when that one carried as many siblings as fit, or when the
selected node has got no further sibling whose burst counts. -/
theorem replay_request_eq_iff (exp : Experiment F) {s : Solo (Op F) (Ans F) (World F)}
    (h : Solo.Steps (env exp) (boot exp) ⟨.empty, none⟩ s) {j k : Nat} {e₁ e₂ : Entry F}
    {i : ExpansionIntent} {req : ProposeRequest F} (hjk : j < k)
    (h₁ : s.world.log[j]? = some e₁) (h₂ : s.world.log[k]? = some e₂)
    (hdispatch : e₁.event.proposal = some (i, false))
    (hreplay : e₂.event.proposal = some (i, true))
    (hreq : buildProposeRequest e₁.store (buildSpec exp i) = .ok req) :
    buildProposeRequest e₂.store (buildSpec exp i) = .ok req ↔
      maxSiblingBursts ≤ (siblings e₁.store i.node).length ∨
        (siblings e₂.store i.node).length = (siblings e₁.store i.node).length := by
  obtain ⟨p, r, hreach⟩ := reaches_of_steps h
  obtain ⟨p₁, r₁, w₁, hr₁, hs₁, -⟩ := hreach.entry_proposal h₁ hdispatch
  obtain ⟨p₂, r₂, w₂, hr₂, hs₂, hlog₂⟩ := hreach.entry_proposal h₂ hreplay
  have hmem : e₁ ∈ w₂.log := by
    rw [hlog₂]
    exact List.mem_iff_getElem?.mpr ⟨j, by rw [List.getElem?_take_of_lt hjk, h₁]⟩
  have hevolves : e₁.store.Evolves e₂.store := hs₂ ▸ hr₂.evolves hmem
  obtain ⟨images₁, -, hholds₁, -⟩ := hr₁.refines.1.tree
  obtain ⟨images₂, -, hholds₂, -⟩ := hr₂.refines.1.tree
  exact request_eq_iff (hs₁ ▸ hholds₁) (hs₂ ▸ hholds₂) hevolves hreq

/-- Whether a replay built the request of a dispatch; `none` unless the entries are a dispatch
and a replay of one intent. -/
def sameRequest (exp : Experiment F) (e₁ e₂ : Entry F) : Option Bool :=
  match e₁.event.proposal, e₂.event.proposal with
  | some (i, false), some (i', true) =>
    if i = i' then
      match buildProposeRequest e₁.store (buildSpec exp i) with
      | .ok req => some (decide (buildProposeRequest e₂.store (buildSpec exp i) = .ok req))
      | .error _ => none
    else none
  | _, _ => none

theorem exists_of_sameRequest {log : List (Entry F)} {j k : Nat} {b : Bool}
    (h : (log[j]?.bind fun e₁ => log[k]?.bind fun e₂ => sameRequest exp e₁ e₂) = some b) :
    ∃ e₁ e₂ i req, log[j]? = some e₁ ∧ log[k]? = some e₂ ∧
      e₁.event.proposal = some (i, false) ∧ e₂.event.proposal = some (i, true) ∧
      buildProposeRequest e₁.store (buildSpec exp i) = .ok req ∧
      (buildProposeRequest e₂.store (buildSpec exp i) = .ok req ↔ b = true) := by
  obtain ⟨e₁, h₁, h⟩ := Option.bind_eq_some_iff.mp h
  obtain ⟨e₂, h₂, h⟩ := Option.bind_eq_some_iff.mp h
  unfold sameRequest at h
  split at h
  · rename_i i i' hd hr
    split at h
    · rename_i hi
      subst hi
      split at h
      · rename_i req hreq
        refine ⟨e₁, e₂, i, req, h₁, h₂, hd, hr, hreq, ?_⟩
        rw [← Option.some.inj h, decide_eq_true_iff]
      · cases h
    · cases h
  · cases h

/-- Batch `n` expands the first child of the root, every other one the root. -/
def returning (n : Nat) : Experiment Int :=
  { sample with pick := fun context => .ok (some (if context.batchSeq = n then 1 else 0)) }

/-- Three batches are committed, the process is killed, and the next one replays them. -/
def replayOfThree : List (List Choice) := [List.replicate 80 .answer, List.replicate 60 .answer]

/-- Batch 2 expands a node with one sibling, and its replay asks for the same bursts. -/
theorem replay_request_eq_iff_sibling :
    ∃ e₁ e₂ i req, buildProposeRequest e₁.store (buildSpec (returning 2) i) = .ok req ∧
      (evaluate (returning 2) replayOfThree).log[16]? = some e₁ ∧
      (evaluate (returning 2) replayOfThree).log[28]? = some e₂ ∧
      buildProposeRequest e₂.store (buildSpec (returning 2) i) = .ok req ∧
      (siblings e₁.store i.node).length = 1 ∧ (siblings e₂.store i.node).length = 1 := by
  have hsame : ((evaluate (returning 2) replayOfThree).log[16]?.bind fun e₁ =>
      (evaluate (returning 2) replayOfThree).log[28]?.bind fun e₂ =>
        sameRequest (returning 2) e₁ e₂) = some true := by decide +kernel
  have hone : ((evaluate (returning 2) replayOfThree).log[16]?.bind fun e =>
      e.event.proposal.map fun proposal => (siblings e.store proposal.1.node).length) = some 1 := by
    decide +kernel
  obtain ⟨e₁, e₂, i, req, h₁, h₂, hd, hr, hreq, heq⟩ := exists_of_sameRequest hsame
  rw [h₁, Option.bind_some, hd, Option.map_some, Option.some.injEq] at hone
  have hiff := replay_request_eq_iff (returning 2) (steps_evaluate (returning 2) replayOfThree)
    (by decide) h₁ h₂ hd hr hreq
  refine ⟨e₁, e₂, i, req, hreq, h₁, h₂, heq.mpr rfl, hone, ?_⟩
  -- one sibling does not fill the request, so the replay has found no other
  rcases hiff.mp (heq.mpr rfl) with hfull | hlen
  · rw [hone] at hfull
    exact absurd hfull (by decide)
  · rw [hlen, hone]

/-- The replay of batch 1 carries the burst of the node batch 2 has created. -/
theorem replay_request_differs :
    (returning 1).mode = .deterministic ∧ ∃ s : Solo (Op Int) (Ans Int) (World Int),
      Solo.Steps (env (returning 1)) (boot (returning 1)) ⟨.empty, none⟩ s ∧
      ∃ (j k : Nat) (e₁ e₂ : Entry Int) (i : ExpansionIntent) (req : ProposeRequest Int), j < k ∧
        s.world.log[j]? = some e₁ ∧ s.world.log[k]? = some e₂ ∧
        e₁.event.proposal = some (i, false) ∧ e₂.event.proposal = some (i, true) ∧
        buildProposeRequest e₁.store (buildSpec (returning 1) i) = .ok req ∧
        buildProposeRequest e₂.store (buildSpec (returning 1) i) ≠ .ok req := by
  have hdiffers : ((evaluate (returning 1) replayOfThree).log[10]?.bind fun e₁ =>
      (evaluate (returning 1) replayOfThree).log[25]?.bind fun e₂ =>
        sameRequest (returning 1) e₁ e₂) = some false := by decide +kernel
  obtain ⟨e₁, e₂, i, req, h₁, h₂, hd, hr, hreq, hne⟩ := exists_of_sameRequest hdiffers
  refine ⟨rfl, ⟨evaluate (returning 1) replayOfThree, none⟩,
    steps_evaluate (returning 1) replayOfThree, 10, 25, e₁, e₂, i, req, by decide, h₁, h₂, hd, hr,
    hreq, fun heq => ?_⟩
  exact Bool.false_ne_true (hne.mp heq)

end Orchestrator.Server
