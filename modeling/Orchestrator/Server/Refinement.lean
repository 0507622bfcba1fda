import Orchestrator.Server.Protocol

/-! # Server — Refinement

The code follows the protocol: run from a state the protocol reaches, every function of the
runner leaves only states the protocol reaches, at the point its callers expect, and so does
every single call on the way. The statements are in continuation-passing form, so a function
is checked by going through its body once.

* `reach_of_steps`: every world a run can be in is one the protocol reaches.
-/

namespace Orchestrator.Server

open Core Services Lib Proc

variable {F : Type} [Float64 F] {exp : Experiment F} {W : Type}
  {A : Answers (Op F) (Ans F) W} {Initial : Starts W}

/-- The protocol reaches this world. -/
def Known (exp : Experiment F) (A : Answers (Op F) (Ans F) W) (Initial : Starts W) (w : W) :
    Prop :=
  ∃ p r, Reach exp A Initial p r w

/-- A computation only ever leaves worlds the protocol reaches. -/
abbrev Follows (exp : Experiment F) (A : Answers (Op F) (Ans F) W) (Initial : Starts W)
    {α : Type} (x : M F α) (Q : α → Runner F → W → Prop) (E : ClientError → Runner F → W → Prop)
    (r : Runner F) (w : W) : Prop :=
  Wp A (Known exp A Initial) x Q E r w

section

variable {α : Type} {p : Point F} {r : Runner F} {w : W} {Q : α → Runner F → W → Prop}
  {E : ClientError → Runner F → W → Prop}

theorem Reach.known (h : Reach exp A Initial p r w) : Known exp A Initial w := ⟨p, r, h⟩

theorem Reach.fail (h : Reach exp A Initial p r w) (hp : p.wavers = true) :
    Reach exp A Initial p.onError r w :=
  h.loc (.fail hp)

variable {op : Op F}

theorem Reach.quiet {a : Ans F op} {w' : W} (h : Reach exp A Initial p r w) (hq : op.quiet p = true)
    (ha : A op w a w') : Reach exp A Initial p r w' :=
  h.call (.quiet hq) ha

/-- A change of the runner the protocol does not track. -/
theorem Reach.touch {r' : Runner F} (h : Reach exp A Initial p r w) (hr : SameCore exp r r') :
    Reach exp A Initial p r' w :=
  h.loc (.touch hr)

theorem follows_ask {Q : Ans F op → Runner F → W → Prop}
    (hk : ∀ a w', A op w a w' → Known exp A Initial w') (hQ : ∀ a w', A op w a w' → Q a r w') :
    Follows exp A Initial (ask op) Q E r w :=
  fun a w' ha => ⟨hk a w' ha, hQ a w' ha⟩

theorem follows_quiet {Q : Ans F op → Runner F → W → Prop} (h : Reach exp A Initial p r w)
    (hq : op.quiet p = true) (hQ : ∀ a w', A op w a w' → Q a r w') :
    Follows exp A Initial (ask op) Q E r w :=
  follows_ask (fun _ _ ha => (h.quiet hq ha).known) hQ

theorem follows_issue {Q : Ans F op → Runner F → W → Prop} (h : Reach exp A Initial p r w)
    (hi : Issues exp p r op) (hn : ∀ a, op.Refused a ∨ ∃ p' r', Next exp p r op a p' r')
    (hQ : ∀ a w', A op w a w' → Q a r w') : Follows exp A Initial (ask op) Q E r w := by
  refine follows_ask (fun a w' ha => ?_) hQ
  rcases hn a with href | ⟨p', r', hn⟩
  · exact (h.call (.failed hi href) ha).known
  · exact (h.call hn ha).known

/-- A call with the same next point for every answer. -/
theorem follows_any {Q : Ans F op → Runner F → W → Prop} {p' : Point F}
    (h : Reach exp A Initial p r w) (hn : ∀ a, Next exp p r op a p' r)
    (hQ : ∀ a w', Reach exp A Initial p' r w' → Q a r w') :
    Follows exp A Initial (ask op) Q E r w :=
  follows_ask (fun a _ ha => (h.call (hn a) ha).known) fun a w' ha => hQ a w' (h.call (hn a) ha)

theorem follows_rpc {x : M F (Except ClientError α)}
    (h : Follows exp A Initial x
      (fun a r' w' => (∀ b, a = .ok b → Q b r' w') ∧ ∀ e, a = .error e → E e r' w') E r w) :
    Follows exp A Initial (rpc x) Q E r w := by
  refine wp_bind.mpr (wp_mono h ?_ fun _ _ _ he => he)
  intro a r' w' ha
  exact wp_ofExcept.mpr ha

theorem follows_crashCheck {point : CrashPoint} {Q : Unit → Runner F → W → Prop}
    (hn : ∀ a, Next exp p r (.shouldCrash point) a p r) (h : Reach exp A Initial p r w)
    (hQ : ∀ w', Reach exp A Initial p r w' → Q () r w') :
    Follows exp A Initial (crashCheck point) Q E r w := by
  refine wp_bind.mpr (follows_any h hn ?_)
  intro a w' h
  cases a with
  | true => exact wp_halt
  | false => exact hQ w' h

theorem follows_runIf {c : Bool} {x : M F Unit} {Q : Unit → Runner F → W → Prop}
    (hx : c = true → Follows exp A Initial x Q E r w) (hQ : c = false → Q () r w) :
    Follows exp A Initial (runIf c x) Q E r w := by
  cases c with
  | true => exact hx rfl
  | false => exact hQ rfl

end

/-- A published status shows the goals of the runner, which those before it were the first of. -/
theorem sameCore_publish (r : Runner F) :
    SameCore exp r { r with statusTx := r.statusTx ++ [r.snapshot] } := by
  refine ⟨rfl, id, fun h => ⟨?_, fun status hs => ?_⟩⟩
  · refine List.pairwise_append.mpr ⟨h.grows, List.pairwise_singleton _ _, fun a ha b hb => ?_⟩
    rw [List.mem_singleton.mp hb]
    exact h.shown a ha
  · rcases List.mem_append.mp hs with hs | hs
    · exact h.shown status hs
    · rw [List.mem_singleton.mp hs]
      exact List.prefix_rfl

variable {w : W} {fuel : Nat}

variable {r : Runner F} {w' : W}

theorem follows_publishStatus {p : Point F} {Q : Unit → Runner F → W → Prop}
    {E : ClientError → Runner F → W → Prop} (h : Reach exp A Initial p r w)
    (hQ : ∀ r', Reach exp A Initial p r' w → r'.statusTx.getLast? = some r'.snapshot → Q () r' w) :
    Follows exp A Initial publishStatus Q E r w :=
  wp_modify.mpr (hQ _ (h.touch (sameCore_publish r)) List.getLast?_concat)

/-! ### The checkpoint -/

section

variable {c : Rest} {r : Runner F} {w : W} {E : ClientError → Runner F → W → Prop}

theorem follows_checkpointArchive {id : Nat} {Q : ArchiveSnapshot → Runner F → W → Prop}
    (h : Reach exp A Initial (.began c) r w)
    (hQ : ∀ archive w', Reach exp A Initial (.archived c archive) r w' → Q archive r w')
    (hE : ∀ e w', Reach exp A Initial c.onError r w' → E e r w') :
    Follows exp A Initial (checkpointArchive id) Q E r w := by
  refine wp_bind.mpr (follows_rpc (follows_issue h .archive
    (fun | .error _ => .inl trivial | .ok _ => .inr ⟨_, _, .archived⟩) ?_))
  intro a w₁ ha
  refine ⟨?_, fun e he => hE e w₁ (h.call (.failed .archive (he ▸ trivial)) ha)⟩
  rintro first rfl
  have h₁ := h.call .archived ha
  refine wp_bind.mpr (wp_get.mpr ?_)
  split
  · exact hQ first w₁ h₁
  · refine wp_bind.mpr (follows_rpc (follows_issue h₁ .archiveAgain
      (fun | .error _ => .inl trivial | .ok _ => .inr ⟨_, _, .archivedAgain⟩) ?_))
    intro a w₂ ha₂
    refine ⟨?_, fun e he => hE e w₂ (h₁.call (.failed .archiveAgain (he ▸ trivial)) ha₂)⟩
    rintro second rfl
    have h₂ := h₁.call .archivedAgain ha₂
    split
    · exact hQ second w₂ h₂
    · exact hE _ w₂ (h₂.fail rfl)

variable {Q : Unit → Runner F → W → Prop}

theorem follows_deleteWalEntry {p p' : Point F} {seq : Nat} (h : Reach exp A Initial p r w)
    (hn : ∀ a : Ans F (.deleteWal seq),
      (a = .ok () ∨ ∃ e : ClientError, a = .error e ∧ e.kind = .notFound) →
      Next exp p r (.deleteWal seq) a p' r)
    (hx : ∃ p₁, (∀ e, Next exp p r (.deleteWal seq) (.error e) p₁ r) ∧
      ∀ e w', Reach exp A Initial p₁ r w' → E e r w')
    (hQ : ∀ w', Reach exp A Initial p' r w' → Q () r w') :
    Follows exp A Initial (deleteWalEntry seq) Q E r w := by
  obtain ⟨p₁, hp₁, hE⟩ := hx
  have hknown : ∀ a w', A (.deleteWal seq) w a w' → Known exp A Initial w'
    | .ok (), _, ha => (h.call (hn _ (.inl rfl)) ha).known
    | .error e, _, ha => (h.call (hp₁ e) ha).known
  refine wp_bind.mpr (follows_ask hknown ?_)
  intro a w' ha
  match a with
  | .ok () => exact hQ w' (h.call (hn _ (.inl rfl)) ha)
  | .error e =>
    by_cases he : e.kind = .notFound
    · change Wp _ _ (if _ then _ else _) _ _ _ _
      rw [if_pos he]
      exact hQ w' (h.call (hn _ (.inr ⟨e, rfl, he⟩)) ha)
    · change Wp _ _ (if _ then _ else _) _ _ _ _
      rw [if_neg he]
      exact hE e w' (h.call (hp₁ _) ha)

theorem follows_truncateWal {covered : Nat} {seqs : List Nat}
    (h : Reach exp A Initial (.truncating c covered seqs) r w)
    (hQ : ∀ w', Reach exp A Initial (.truncating c covered []) r w' → Q () r w')
    (hE : ∀ e w', Reach exp A Initial c.onError r w' → E e r w') :
    Follows exp A Initial (truncateWal seqs) Q E r w := by
  induction seqs generalizing w with
  | nil => exact hQ w h
  | cons seq rest ih =>
    refine wp_bind.mpr (follows_deleteWalEntry h (fun a => .truncated)
      ⟨_, fun _ => .failed .truncate trivial, hE⟩ ?_)
    intro w' h'
    exact ih h'

theorem follows_checkpoint (hpause : c = .pausing → r.status = .paused)
    (h : Reach exp A Initial (.at c) r w)
    (hQ : ∀ r' w', Reach exp A Initial c.afterCheckpoint r' w' → Q () r' w')
    (hE : ∀ e r' w', Reach exp A Initial c.onError r' w' → E e r' w') :
    Follows exp A Initial (checkpoint exp) Q E r w := by
  refine wp_bind.mpr (wp_bind.mpr (wp_get.mpr (follows_any h (fun _ => .began hpause) ?_)))
  intro _ w h
  refine wp_bind.mpr (wp_get.mpr (wp_bind.mpr (follows_crashCheck (fun _ => .quiet rfl) h ?_)))
  intro w h
  refine wp_bind.mpr (follows_checkpointArchive h ?_ fun e w' => hE e r w')
  intro archive w h
  refine wp_bind.mpr (follows_crashCheck (fun _ => .quiet rfl) h ?_)
  intro w h
  refine wp_bind.mpr (wp_bind.mpr (wp_get.mpr ?_))
  cases hv : buildCheckpoint exp r archive with
  | none => exact hE _ r w (h.fail rfl)
  | some value =>
    refine wp_bind.mpr (follows_crashCheck (fun _ => .quiet rfl) h ?_)
    intro w h
    refine wp_bind.mpr (wp_get.mpr (wp_bind.mpr (follows_issue h (.put hv)
      (fun | .error _ => .inl trivial | .ok _ => .inr ⟨_, _, .put hv⟩) ?_)))
    intro a w' ha
    cases a with
    | error e => exact hE _ r w' (h.call (.failed (.put hv) (by trivial)) ha)
    | ok g =>
      have h := h.call (.put hv) ha
      refine wp_modify.mpr (wp_bind.mpr (follows_crashCheck (fun _ => .quiet rfl) h fun w h => ?_))
      refine wp_bind.mpr (follows_crashCheck (fun _ => .quiet rfl) h fun w h => ?_)
      refine wp_bind.mpr (wp_bind.mpr (wp_get.mpr (wp_bind.mpr ?_)))
      refine follows_truncateWal h ?_ fun e w' => hE e _ w'
      intro w h
      have h := h.loc .truncated
      refine wp_modify.mpr (wp_bind.mpr (follows_crashCheck (fun _ => .quiet rfl) h fun w h => ?_))
      exact wp_modify.mpr (hQ _ w (h.touch ⟨rfl, id, id⟩))

/-- Where a checkpoint returns to where it was taken. -/
def Rest.stays : Rest → Bool
  | .booted | .pausing => false
  | _ => true

theorem Rest.afterCheckpoint_eq (hc : c.stays = true) : (c.afterCheckpoint : Point F) = .at c := by
  cases c <;> first | rfl | contradiction

theorem Rest.onError_eq (hc : c ≠ .booted) : (c.onError : Point F) = .at .failed := by
  cases c <;> first | rfl | contradiction

theorem Rest.ne_pausing (hc : c.stays = true) : c ≠ .pausing := by
  rintro rfl
  cases hc

theorem Rest.ne_booted (hc : c.stays = true) : c ≠ .booted := by
  rintro rfl
  cases hc

/-- A checkpoint that returns to where it was taken. -/
theorem follows_checkpointAt (hc : c.stays = true) (h : Reach exp A Initial (.at c) r w)
    (hQ : ∀ r' w', Reach exp A Initial (.at c) r' w' → Q () r' w')
    (hE : ∀ e r' w', Reach exp A Initial (.at .failed) r' w' → E e r' w') :
    Follows exp A Initial (checkpoint exp) Q E r w := by
  refine follows_checkpoint (fun hp => absurd hp (Rest.ne_pausing hc)) h (fun r' w' h' => ?_)
    fun e r' w' h' => ?_
  · exact hQ r' w' (Rest.afterCheckpoint_eq (F := F) hc ▸ h')
  · exact hE e r' w' (Rest.onError_eq (F := F) (Rest.ne_booted hc) ▸ h')

theorem follows_maybeCheckpoint (hc : c.stays = true) (h : Reach exp A Initial (.at c) r w)
    (hQ : ∀ r' w', Reach exp A Initial (.at c) r' w' → Q () r' w')
    (hE : ∀ e r' w', Reach exp A Initial (.at .failed) r' w' → E e r' w') :
    Follows exp A Initial (maybeCheckpoint exp) Q E r w := by
  refine wp_bind.mpr (wp_get.mpr (wp_bind.mpr (follows_quiet h rfl ?_)))
  intro due w' ha
  have h := h.quiet rfl ha
  exact follows_runIf (fun _ => follows_checkpointAt hc h hQ hE) fun _ => hQ r w' h

end
/-! ### The commits -/

theorem sameCore_observeScore (node : NodeId) (value : F) (r : Runner F) :
    SameCore exp r (observeScore node value r) := by
  unfold observeScore
  split
  · exact .refl r
  · refine ⟨rfl, fun h => ?_, id⟩
    exact
      { windowN := (StallDetector.observe_windowN _ _).trans h.windowN
        epsilonS := (StallDetector.observe_epsilonS _ _).trans h.epsilonS
        maxLevel := (EscalationLadder.applyStallObservation_maxLevel _ _).trans h.maxLevel
        bestScore := by simp [StallDetector.observe_bestScore] }

theorem sameCore_finishBatch (parent : NodeId) (t : Tally F) (r : Runner F) :
    SameCore exp { r with expansions := r.expansions + 1 } (finishBatch parent t r) := by
  unfold finishBatch
  have hr : ∀ n m, SameCore exp { r with expansions := n }
      { r with expansions := n, commitsSinceCheckpoint := m } :=
    fun _ _ => ⟨rfl, id, id⟩
  split
  · exact (hr _ _).trans (sameCore_observeScore _ _ _)
  · exact (hr _ _).trans (sameCore_observeScore _ _ _)

theorem sameCore_addGuestInstructions (jobs : List JobOutcome) (r : Runner F) :
    SameCore exp r (addGuestInstructions jobs r) := ⟨rfl, id, id⟩

theorem sameCore_countDiscard (disposition : CommitDisposition) (r : Runner F) :
    SameCore exp r (countDiscard disposition r) := by
  unfold countDiscard
  split <;> exact ⟨rfl, id, id⟩

theorem sameCore_registerCommittedChild (id : NodeId) (it : Item F) (r : Runner F) :
    SameCore exp r (registerCommittedChild id it r) := by
  unfold registerCommittedChild
  split <;> exact ⟨rfl, fun h => h, fun h => h⟩

section

variable {p p' : Point F} {d : BatchResult} {r : Runner F} {w : W}
  {E : ClientError → Runner F → W → Prop}

theorem follows_bringUp {passes : Nat} {rebin : Bool} {Q : CompiledMap → Runner F → W → Prop}
    (h : Reach exp A Initial p r w)
    (hQ : ∀ compiled w', Reach exp A Initial p r w' → Q compiled r w')
    (hE : ∀ e w', Reach exp A Initial p r w' → E e r w') :
    Follows exp A Initial (bringUp exp passes rebin) Q E r w := by
  refine wp_bind.mpr (wp_ofExcept.mpr ⟨fun compiled _ => ?_, fun e _ => hE e w h⟩)
  refine wp_bind.mpr (follows_rpc (follows_quiet h rfl fun a w₁ ha => ?_))
  have h := h.quiet rfl ha
  refine ⟨fun _ _ => wp_bind.mpr (follows_rpc (follows_quiet h rfl fun a w₂ ha => ?_)),
    fun e _ => hE e w₁ h⟩
  have h := h.quiet rfl ha
  refine ⟨fun _ _ => wp_bind.mpr (follows_rpc (follows_quiet h rfl fun a w₃ ha => ?_)),
    fun e _ => hE e w₂ h⟩
  have h := h.quiet rfl ha
  exact ⟨fun _ _ => hQ compiled w₃ h, fun e _ => hE e w₃ h⟩

theorem follows_scoreJobs {next : List (ScoreResult F) → Point F}
    {Q : List (ScoreResult F) → Runner F → W → Prop} (h : Reach exp A Initial p r w)
    (hp : p.wavers = true)
    (hn : ∀ seq results, Next exp p r (.scoreBatch (featureBytes d)) (.ok (seq, results))
      (next results) r)
    (hnone : scorable d.jobs = [] → Local exp p r (next []) r)
    (hQ : ∀ results r' w', Reach exp A Initial (next results) r' w' → Q results r' w')
    (hE : ∀ e r' w', Reach exp A Initial p.onError r' w' → E e r' w') :
    Follows exp A Initial (scoreJobs (scorable d.jobs)) Q E r w := by
  unfold scoreJobs
  split
  · rename_i hempty
    exact hQ [] r w (h.loc (hnone (List.isEmpty_iff.mp hempty)))
  · refine wp_bind.mpr (follows_rpc (follows_quiet h rfl fun a w' ha => ?_))
    refine ⟨?_, fun e _ => hE e r w' ((h.quiet rfl ha).fail hp)⟩
    rintro ⟨seq, results⟩ rfl
    refine wp_bind.mpr (wp_modify.mpr (hQ results _ w' ?_))
    exact (h.call (hn seq results) ha).touch ⟨rfl, id, id⟩

variable {Q : Unit → Runner F → W → Prop}

theorem follows_ensureCheckpointOwner (h : Reach exp A Initial p r w) (hp : p.wavers = true)
    (hr : Op.getCheckpoint.quiet p = true)
    (hn : ∀ cp g, r.ckptGeneration = some g → Next exp p r .getCheckpoint (.ok (cp, g)) p' r)
    (hnone : r.ckptGeneration = none → Local exp p r p' r)
    (hQ : ∀ w', Reach exp A Initial p' r w' → Q () r w')
    (hE : ∀ e w', Reach exp A Initial p.onError r w' → E e r w') :
    Follows exp A Initial ensureCheckpointOwner Q E r w := by
  refine wp_bind.mpr (wp_get.mpr ?_)
  cases hg : r.ckptGeneration with
  | none => exact hQ w (h.loc (hnone hg))
  | some expected =>
    refine wp_bind.mpr (follows_quiet h hr fun a w' ha => ?_)
    match a with
    | .error e => exact hE _ w' ((h.quiet hr ha).fail hp)
    | .ok (cp, generation) =>
      by_cases heq : generation = expected
      · change Wp _ _ (if _ then _ else _) _ _ _ _
        rw [if_pos heq]
        subst heq
        exact hQ w' (h.call (hn cp generation hg) ha)
      · change Wp _ _ (if _ then _ else _) _ _ _ _
        rw [if_neg heq]
        exact hE _ w' ((h.quiet hr ha).fail hp)

theorem follows_createChildNode {id parent : NodeId} {it : Item F} {status : NodeStatus}
    (h : Reach exp A Initial p r w)
    (hi : Issues exp p r (.createNode (childRequest exp r.bringup id parent it status)))
    (hn : ∀ a : Ans F (.createNode (childRequest exp r.bringup id parent it status)),
      (a = .ok () ∨ ∃ e : ClientError, a = .error e ∧ e.kind = .alreadyExists) →
      Next exp p r (.createNode (childRequest exp r.bringup id parent it status)) a p' r)
    (hQ : ∀ w', Reach exp A Initial p' r w' → Q () r w')
    (hE : ∀ e w', Reach exp A Initial p.onError r w' → E e r w') :
    Follows exp A Initial (createChildNode exp id parent it status) Q E r w := by
  refine wp_bind.mpr (wp_get.mpr (wp_bind.mpr (follows_issue h hi
    (fun | .error _ => .inl trivial | .ok _ => .inr ⟨_, _, hn _ (.inl rfl)⟩) fun a w' ha => ?_)))
  match a with
  | .ok () => exact hQ w' (h.call (hn _ (.inl rfl)) ha)
  | .error e =>
    by_cases he : e.kind = .alreadyExists
    · change Wp _ _ (if _ then _ else _) _ _ _ _
      rw [if_pos he]
      exact hQ w' (h.call (hn _ (.inr ⟨e, rfl, he⟩)) ha)
    · change Wp _ _ (if _ then _ else _) _ _ _ _
      rw [if_neg he]
      exact hE e w' (h.call (.failed hi (by trivial)) ha)

theorem follows_visitRow {route : Option NodeId} (h : Reach exp A Initial p r w)
    (hi : ∀ existing, route = some existing → Issues exp p r (.updateNode (routeUpdate existing)))
    (hn : ∀ existing, route = some existing →
      Next exp p r (.updateNode (routeUpdate existing)) (.ok ()) p' r)
    (hnone : route = none → Local exp p r p' r) (hQ : ∀ w', Reach exp A Initial p' r w' → Q () r w')
    (hE : ∀ e w', Reach exp A Initial p.onError r w' → E e r w') :
    Follows exp A Initial (visitRow route) Q E r w := by
  cases route with
  | none => exact hQ w (h.loc (hnone rfl))
  | some existing =>
    refine follows_rpc (follows_issue h (hi existing rfl)
      (fun | .error _ => .inl trivial | .ok _ => .inr ⟨_, _, hn existing rfl⟩) fun a w' ha => ?_)
    refine ⟨?_, fun e he => hE e w' (h.call (.failed (hi existing rfl) (he ▸ trivial)) ha)⟩
    rintro ⟨⟩ rfl
    exact hQ w' (h.call (hn existing rfl) ha)

theorem follows_runCommit {α : Type} {x : CommitM F α} {Q : α → Runner F → W → Prop}
    {next : α → Point F} {torn : Point F} (h : Reach exp A Initial p r w)
    (hok : ∀ a s, x r.commitState = .ok a s →
      Local exp p r (next a) { r with commitState := s })
    (herr : ∀ e s, x r.commitState = .error (.error e) s →
      Local exp p r torn { r with commitState := s })
    (hQ : ∀ a s, x r.commitState = .ok a s →
      Reach exp A Initial (next a) { r with commitState := s } w →
      Q a { r with commitState := s } w)
    (hE : ∀ e r' w', Reach exp A Initial torn r' w' → E e r' w') :
    Follows exp A Initial (runCommit x) Q E r w := by
  refine wp_bind.mpr (wp_get.mpr ?_)
  cases hx : x r.commitState with
  | ok a s => exact wp_bind.mpr (wp_modify.mpr (hQ a s hx (h.loc (hok a s hx))))
  | error e s =>
    cases e with
    | panic => exact wp_halt
    | error e => exact wp_bind.mpr (wp_modify.mpr (hE _ _ w (h.loc (herr e s hx))))

end

section

variable {c : Rest} {d : BatchResult} {r : Runner F} {w : W}
  {E : ClientError → Runner F → W → Prop}

variable {states : List CommittedState} {half index : Nat} {action : ReplayAction} {score : F}

theorem follows_replayCommits {p p' : Point F} {r' : Runner F} {Q : Unit → Runner F → W → Prop}
    (h : Reach exp A Initial p r w) (hi : Issues exp p r (.replayCommits states))
    (hn : Next exp p r (.replayCommits states) (.ok ()) p' r')
    (hnone : states = [] → Local exp p r p' r')
    (hQ : ∀ w', Reach exp A Initial p' r' w' → Q () r w')
    (hE : ∀ e w', Reach exp A Initial p.onError r w' → E e r w') :
    Follows exp A Initial (replayCommits states) Q E r w := by
  refine follows_runIf (fun _ => ?_) fun hempty => ?_
  · refine follows_rpc (follows_issue h hi
      (fun | .error _ => .inl trivial | .ok _ => .inr ⟨_, _, hn⟩) fun a w' ha => ?_)
    refine ⟨?_, fun e he => hE e w' (h.call (.failed hi (he ▸ trivial)) ha)⟩
    rintro ⟨⟩ rfl
    exact hQ w' (h.call hn ha)
  · exact hQ w (h.loc (hnone (by simpa using hempty)))

variable {goal : Option NodeId} {t : Tally F} {Q : Option NodeId → Runner F → W → Prop}
  {it : Item F} {rest : List (Item F)}

theorem follows_maybeRebin {Q : Unit → Runner F → W → Prop}
    (h : Reach exp A Initial (.settling c d goal) r w)
    (hQ : ∀ r' w', Reach exp A Initial (.settling c d goal) r' w' → Q () r' w')
    (hE : ∀ e r' w', Reach exp A Initial (.torn d) r' w' → E e r' w') :
    Follows exp A Initial (maybeRebin exp) Q E r w := by
  refine wp_bind.mpr (wp_get.mpr ?_)
  split
  · exact hQ r w h
  · refine wp_bind.mpr (follows_bringUp h ?_ fun e w' h' => hE e r w' (h'.fail rfl))
    intro compiled w' h'
    refine wp_modify.mpr (hQ _ w' ?_)
    exact (h'.loc .rebin).touch ⟨rfl, id, id⟩

theorem follows_settleBatch (h : Reach exp A Initial (.parentDue c d t.committed goal) r w)
    (hQ : ∀ r' w', Reach exp A Initial (.settling c d goal) r' w' → Q goal (addGoal goal r') w')
    (hE : ∀ e r' w', Reach exp A Initial (.torn d) r' w' → E e r' w') :
    Follows exp A Initial (settleBatch exp d.parent t goal) Q E r w := by
  refine wp_bind.mpr (wp_get.mpr ?_)
  cases hr : r.commitState.tree.get d.parent with
  | none => exact wp_halt
  | some record =>
    refine wp_bind.mpr (follows_rpc (follows_issue h (.parent hr)
      (fun | .error _ => .inl trivial | .ok _ => .inr ⟨_, _, .parent hr⟩) fun a w' ha => ?_))
    refine ⟨?_, fun e he => hE e r w' (h.call (.failed (.parent hr) (he ▸ trivial)) ha)⟩
    rintro ⟨⟩ rfl
    have h := h.call (.parent hr) ha
    refine wp_bind.mpr (follows_replayCommits h .replayStates .replayed ?_ ?_
      fun e w' => hE e r w')
    · intro hnil
      rw [hnil]
      exact .noStates
    · intro w' h
      refine wp_bind.mpr (wp_modify.mpr ?_)
      have h := h.touch (sameCore_finishBatch d.parent t r)
      refine wp_bind.mpr (follows_maybeRebin h ?_ hE)
      intro r' w' h
      exact wp_bind.mpr (wp_modify.mpr (hQ r' w' h))

theorem follows_storeChild {commit : ChildCommit} {rest : List (Item F × ChildCommit)}
    {Q : Tally F → Runner F → W → Prop}
    (h : Reach exp A Initial (.storing c d ((it, commit) :: rest) t.committed goal) r w)
    (hQ : ∀ t' r' w', Reach exp A Initial (.storing c d rest t'.committed goal) r' w' →
      Q t' r' w') (hE : ∀ e r' w', Reach exp A Initial (.torn d) r' w' → E e r' w') :
    Follows exp A Initial (storeChild exp d.parent it commit t) Q E r w := by
  unfold storeChild
  cases hid : commit.nodeId with
  | some id =>
    refine wp_bind.mpr (wp_get.mpr ?_)
    cases hr : r.commitState.tree.get id with
    | none => exact wp_halt
    | some record =>
      refine wp_bind.mpr (follows_createChildNode h (.create r.bringup hid hr)
        (fun a => .create r.bringup hid hr) ?_ fun e w' => hE e r w')
      intro w' h
      refine wp_bind.mpr (follows_crashCheck (fun _ => .quiet rfl) h
        fun w' h => wp_bind.mpr (wp_modify.mpr ?_))
      refine hQ _ _ w' ?_
      exact h.touch ⟨rfl, fun h => h, fun h => h⟩
  | none =>
    have h := h.touch (sameCore_countDiscard commit.disposition r)
    refine wp_bind.mpr (wp_modify.mpr (wp_bind.mpr (follows_visitRow h
      (fun existing he => .route hid he) (fun existing he => .route hid he)
      (fun hroute => .unrouted hid hroute) ?_ fun e w' => hE e _ w')))
    intro w' h
    exact hQ t _ w' h

theorem follows_storeChildren {pairs : List (Item F × ChildCommit)}
    {Q : Tally F → Runner F → W → Prop}
    (h : Reach exp A Initial (.storing c d pairs t.committed goal) r w)
    (hQ : ∀ t' r' w', Reach exp A Initial (.storing c d [] t'.committed goal) r' w' → Q t' r' w')
    (hE : ∀ e r' w', Reach exp A Initial (.torn d) r' w' → E e r' w') :
    Follows exp A Initial (storeChildren exp d.parent half index pairs t) Q E r w := by
  induction pairs generalizing index t r w with
  | nil => exact hQ t r w h
  | cons pair rest ih =>
    obtain ⟨it, commit⟩ := pair
    have store : ∀ w', Reach exp A Initial (.storing c d ((it, commit) :: rest) t.committed goal)
        r w' → Follows exp A Initial (storeChild exp d.parent it commit t >>= fun t' =>
          storeChildren exp d.parent half (index + 1) rest t') Q E r w' := by
      intro w' h
      refine wp_bind.mpr (follows_storeChild h ?_ hE)
      intro t' r' w' h
      exact ih h
    exact wp_bind.mpr (follows_runIf (fun _ => follows_crashCheck (fun _ => .quiet rfl) h store)
      fun _ => store w h)

theorem follows_commitCompleted (h : Reach exp A Initial (.taken c d) r w)
    (hQ : ∀ goal r' w', Reach exp A Initial (.settling c d goal) r' w' →
      Q goal (addGoal goal r') w') (hE : ∀ e r' w', Reach exp A Initial (.torn d) r' w' → E e r' w')
    :
    Follows exp A Initial (commitCompleted exp d) Q E r w := by
  refine wp_bind.mpr (wp_modify.mpr ?_)
  have h := h.touch (sameCore_addGuestInstructions d.jobs r)
  refine wp_bind.mpr (follows_scoreJobs h rfl (fun _ _ => .score) .nothingToScore ?_ hE)
  intro results r w h
  refine wp_bind.mpr (wp_bind.mpr (wp_get.mpr (follows_any h (fun _ => .scored) ?_)))
  intro _ w h
  refine wp_bind.mpr (follows_crashCheck (fun _ => .quiet rfl) h fun w h => wp_bind.mpr ?_)
  refine follows_ensureCheckpointOwner h rfl rfl (fun _ _ => .own) .unowned ?_ fun e w' => hE e r w'
  intro w h
  refine wp_bind.mpr (wp_get.mpr (wp_bind.mpr (follows_runCommit h (fun _ _ => .commit)
    (fun _ _ => .commitFailed) ?_ hE)))
  intro outcome s _ h
  refine wp_bind.mpr (follows_storeChildren h ?_ hE)
  intro t r w h
  exact follows_settleBatch (h.loc .stored) (hQ outcome.goalNode) hE

theorem follows_storeReplayed {id : NodeId} {status : NodeStatus} {Q : Unit → Runner F → W → Prop}
    (hact : action.created = some (id, status))
    (h : Reach exp A Initial (.acting d it rest states goal action) r w)
    (hQ : ∀ r' w', Reach exp A Initial
      (.replaying d rest (states ++ action.states it) (action.goalAfter goal)) r' w' → Q () r' w')
    (hE : ∀ e r' w', Reach exp A Initial (.torn d) r' w' → E e r' w') :
    Follows exp A Initial (storeReplayed exp id d.parent it status) Q E r w := by
  refine wp_bind.mpr (follows_createChildNode h (.createReplayed r.bringup hact)
    (fun a => .createReplayed r.bringup hact) ?_ fun e w' => hE e r w')
  intro w' h
  refine wp_bind.mpr (follows_crashCheck (fun _ => .quiet rfl) h fun w' h =>
    wp_modify.mpr (hQ _ w' ?_))
  exact h.touch (sameCore_registerCommittedChild id it r)

theorem follows_replayEffect {t : ReplayTally F} {Q : ReplayTally F → Runner F → W → Prop}
    (h : Reach exp A Initial (.acting d it rest t.tally.committed t.goal action) r w)
    (hQ : ∀ t' r' w', Reach exp A Initial (.replaying d rest t'.tally.committed t'.goal) r' w' →
      Q t' r' w') (hE : ∀ e r' w', Reach exp A Initial (.torn d) r' w' → E e r' w') :
    Follows exp A Initial (replayEffect exp d.parent it t action) Q E r w := by
  cases action with
  | pruneDropped => exact hQ _ r w (h.loc (.acted rfl rfl))
  | pruned id =>
    exact wp_bind.mpr (follows_storeReplayed rfl h (fun r' w' h' => hQ _ r' w' h') hE)
  | duplicate route =>
    refine wp_bind.mpr (wp_modify.mpr (wp_bind.mpr ?_))
    have h := h.touch (sameCore_countDiscard (.discard .duplicate) r)
    refine follows_visitRow h (fun existing he => .routeReplayed he)
      (fun existing he => .routeReplayed he) (fun hroute => .acted rfl hroute) ?_
      fun e w' => hE e _ w'
    intro w' h
    exact hQ t _ w' h
  | regression =>
    refine wp_bind.mpr (wp_modify.mpr (hQ _ _ w ?_))
    exact (h.loc (.acted rfl rfl)).touch (sameCore_countDiscard (.discard .regression) r)
  | kept id status =>
    exact wp_bind.mpr (follows_storeReplayed rfl h (fun r' w' h' => hQ _ r' w' h') hE)

theorem follows_replayItem {t : ReplayTally F} {Q : ReplayTally F → Runner F → W → Prop}
    (h : Reach exp A Initial (.replaying d (it :: rest) t.tally.committed t.goal) r w)
    (hQ : ∀ t' r' w', Reach exp A Initial (.replaying d rest t'.tally.committed t'.goal) r' w' →
      Q t' r' w') (hE : ∀ e r' w', Reach exp A Initial (.torn d) r' w' → E e r' w') :
    Follows exp A Initial (replayItem exp d.parent score it t) Q E r w := by
  refine wp_bind.mpr (wp_get.mpr ?_)
  cases ha : adoptable r d.parent it with
  | some entry => exact hQ _ r w (h.loc (.adoptChild ha))
  | none =>
    refine wp_bind.mpr (follows_runCommit h (fun _ _ => .replayChild)
      (fun _ _ => .replayChildFailed) ?_ hE)
    intro action s _ h
    exact follows_replayEffect h hQ hE

theorem follows_replayItems {its : List (Item F)} {t : ReplayTally F}
    {Q : ReplayTally F → Runner F → W → Prop}
    (h : Reach exp A Initial (.replaying d its t.tally.committed t.goal) r w)
    (hQ : ∀ t' r' w', Reach exp A Initial (.replaying d [] t'.tally.committed t'.goal) r' w' →
      Q t' r' w') (hE : ∀ e r' w', Reach exp A Initial (.torn d) r' w' → E e r' w') :
    Follows exp A Initial (replayItems exp d.parent score half index its t) Q E r w := by
  induction its generalizing index t r w with
  | nil => exact hQ t r w h
  | cons it rest ih =>
    have replay : ∀ w', Reach exp A Initial
        (.replaying d (it :: rest) t.tally.committed t.goal) r w' →
        Follows exp A Initial (replayItem exp d.parent score it t >>= fun t' =>
          replayItems exp d.parent score half (index + 1) rest t') Q E r w' := by
      intro w' h
      refine wp_bind.mpr (follows_replayItem h ?_ hE)
      intro t' r' w' h
      exact ih h
    exact wp_bind.mpr (follows_runIf (fun _ => follows_crashCheck (fun _ => .quiet rfl) h replay)
      fun _ => replay w h)

theorem follows_commitReplayed (h : Reach exp A Initial (.replayTaken d) r w)
    (hQ : ∀ goal r' w', Reach exp A Initial (.settling .replay d goal) r' w' →
      Q goal (addGoal goal r') w') (hE : ∀ e r' w', Reach exp A Initial (.torn d) r' w' → E e r' w')
    :
    Follows exp A Initial (commitReplayed exp d) Q E r w := by
  refine wp_bind.mpr (wp_modify.mpr ?_)
  have h := h.touch (sameCore_addGuestInstructions d.jobs r)
  refine wp_bind.mpr (follows_scoreJobs h rfl (fun _ _ => .scoreReplay) .replayNothingToScore ?_ hE)
  intro results r w h
  refine wp_bind.mpr (follows_crashCheck (fun _ => .quiet rfl) h fun w h => wp_bind.mpr ?_)
  refine follows_ensureCheckpointOwner h rfl rfl (fun _ _ => .ownReplay) .replayUnowned ?_
    fun e w' => hE e r w'
  intro w h
  refine wp_bind.mpr (wp_get.mpr (wp_bind.mpr (follows_replayItems h ?_ hE)))
  intro t r w h
  refine wp_bind.mpr (follows_runCommit h (fun _ _ => .replayParent)
    (fun _ _ => .replayParentFailed) ?_ hE)
  intro evicted s _ h
  exact follows_settleBatch h (hQ t.goal) hE

/-- The end of a commit: back at rest with the batch on the log, or failed. -/
theorem follows_committing {commit : M F (Option NodeId)}
    (hx : ∀ Q' E', (∀ goal r' w', Reach exp A Initial (.settling c d goal) r' w' →
        Q' goal (addGoal goal r') w') →
      (∀ e r' w', Reach exp A Initial (.torn d) r' w' → E' e r' w') →
      Follows exp A Initial commit Q' E' r w)
    (hQ : ∀ goal r' w', Reach exp A Initial (.at (c.afterCommit exp goal)) r' w' → Q goal r' w')
    (hE : ∀ e r' w', Reach exp A Initial (.at .failed) r' w' → E e r' w') :
    Follows exp A Initial (committing d.seq commit) Q E r w := by
  refine wp_bind.mpr (wp_attempt.mpr (hx _ _ ?_ ?_))
  · intro goal r' w' h
    refine wp_bind.mpr (wp_modify.mpr (wp_bind.mpr (wp_bind.mpr (wp_get.mpr ?_))))
    exact follows_any (h.loc .settle) (fun _ => .committed) fun _ w' h => hQ goal _ w' h
  · intro e r' w' h
    refine wp_bind.mpr (wp_bind.mpr (wp_get.mpr ?_))
    exact follows_any h (fun _ => .aborted) fun _ w' h => hE e _ w' h

end

/-! ### The start -/

section

variable {r : Runner F} {w : W} {E : ClientError → Runner F → W → Prop}

variable {Q : Unit → Runner F → W → Prop} {cp : Checkpoint F} {fuel : Nat}

theorem follows_bootstrapRoot {root : Capture} {result : ScoreResult F}
    (h : Reach exp A Initial (.rootReady root result)
      { r with commitState := .fromRoot (rootPayload root result) } w)
    (hQ : ∀ r' w', Reach exp A Initial .starting r' w' → Q () r' w')
    (hE : ∀ e r' w', Known exp A Initial w' → E e r' w') :
    Follows exp A Initial (bootstrapRoot exp root result) Q E r w := by
  refine wp_bind.mpr (wp_modify.mpr (wp_bind.mpr (wp_get.mpr (wp_bind.mpr ?_))))
  have hr : ∀ runtimes, SameCore exp
      { r with commitState := CommitState.fromRoot (rootPayload root result) }
      { r with commitState := CommitState.fromRoot (rootPayload root result), runtimes } :=
    fun _ => ⟨rfl, id, id⟩
  have h := h.touch (hr ((NodeId.root, ⟨root.snapshot, root.determinismClass⟩) :: r.runtimes))
  refine follows_rpc (follows_issue h (.createRoot r.bringup)
    (fun | .error _ => .inl trivial | .ok _ => .inr ⟨_, _, .rootCreated r.bringup⟩)
    fun a w' ha => ?_)
  refine ⟨?_, fun e he =>
    hE e _ w' (h.call (.failed (.createRoot r.bringup) (he ▸ trivial)) ha).known⟩
  rintro ⟨⟩ rfl
  have h := h.call (.rootCreated r.bringup) ha
  refine wp_bind.mpr (follows_replayCommits h .replayRoot .rootReplayed (fun hnil => ?_) ?_
    fun e w' h' => hE e _ w' h'.known)
  · cases hnil
  · intro w' h
    refine wp_bind.mpr (wp_modify.mpr ?_)
    exact follows_checkpoint (by rintro ⟨⟩) (h.touch (sameCore_observeScore _ _ _)) hQ
      fun e r' w' h' => hE e r' w' h'.known

theorem follows_bootstrapFresh (h : Reach exp A Initial .fresh r w)
    (hQ : ∀ r' w', Reach exp A Initial .starting r' w' → Q () r' w')
    (hE : ∀ e r' w', Known exp A Initial w' → E e r' w') :
    Follows exp A Initial (bootstrapFresh exp) Q E r w := by
  refine wp_bind.mpr (follows_rpc (follows_quiet h rfl fun a w' ha => ?_))
  refine ⟨?_, fun e _ => hE e r w' (h.quiet rfl ha).known⟩
  rintro root rfl
  have h := h.call .bootstrap ha
  cases hb : root.featureBytes with
  | none => exact hE _ r w' h.known
  | some bytes =>
    refine wp_bind.mpr (wp_bind.mpr (follows_rpc (follows_quiet h rfl fun a w' ha => ?_)))
    refine ⟨?_, fun e _ => hE e r w' (h.quiet rfl ha).known⟩
    rintro ⟨seq, results⟩ rfl
    refine wp_bind.mpr (wp_modify.mpr ?_)
    cases results with
    | nil => exact hE _ _ w' (h.quiet rfl ha).known
    | cons result others =>
      refine follows_bootstrapRoot ?_ hQ hE
      exact (h.call (.rootScored hb) ha).touch ⟨rfl, id, id⟩

variable {seq : Nat}

theorem follows_finishTruncation (hseq : seq ≤ cp.batchSeq)
    (h : Reach exp A Initial (.resuming cp) r w)
    (hQ : ∀ w', Reach exp A Initial (.resuming cp) r w' → Q () r w')
    (hE : ∀ e w', Known exp A Initial w' → E e r w') :
    Follows exp A Initial (finishTruncation fuel seq) Q E r w := by
  induction fuel generalizing seq w with
  | zero =>
    cases seq with
    | zero => exact hQ w h
    | succ seq => exact wp_halt
  | succ fuel ih =>
    cases seq with
    | zero => exact hQ w h
    | succ seq =>
      refine wp_bind.mpr (follows_quiet h rfl fun a w' ha => ?_)
      have h := h.quiet rfl ha
      match a with
      | .ok i =>
        refine wp_bind.mpr (follows_deleteWalEntry h (fun _ _ => .stale hseq)
          ⟨_, fun _ => .stale hseq, fun e w' h' => hE e w' h'.known⟩ ?_)
        intro w' h
        exact ih (Nat.le_of_lt hseq) h
      | .error e =>
        change Wp _ _ (if _ then _ else if _ then _ else _) _ _ _ _
        split
        · exact hQ w' h
        · split
          · exact ih hseq h
          · exact hE e w' h.known

theorem follows_collectWindow {misses : Nat} {intents : List ExpansionIntent}
    {Q : List ExpansionIntent → Runner F → W → Prop}
    (h : Reach exp A Initial (.collecting cp seq misses intents) r w)
    (hQ : ∀ intents' w', Reach exp A Initial
      (.loaded cp (intents'.insertionSort (·.seq ≤ ·.seq))) r w' → Q intents' r w')
    (hE : ∀ e w', Known exp A Initial w' → E e r w') :
    Follows exp A Initial (collectWindow (max exp.maxInflightBatches 1) fuel seq misses intents)
      Q E r w := by
  induction fuel generalizing seq misses intents w with
  | zero => exact wp_halt
  | succ fuel ih =>
    unfold collectWindow
    split
    · rename_i hm
      exact hQ intents w (h.loc (.loaded hm))
    · refine wp_bind.mpr (follows_quiet h rfl fun a w' ha => ?_)
      match a with
      | .ok i => exact ih (h.call .collected ha)
      | .error e =>
        change Wp _ _ (if _ then _ else if _ then _ else _) _ _ _ _
        split
        · rename_i he
          exact ih (h.call (.missed he) ha)
        · split
          · exact ih (h.quiet rfl ha)
          · exact hE e w' (h.quiet rfl ha).known

theorem follows_resume {generation : Nat} (h : Reach exp A Initial (.found cp generation) r w)
    (hQ : ∀ r' w', Reach exp A Initial .starting r' w' → Q () r' w')
    (hE : ∀ e r' w', Known exp A Initial w' → E e r' w') :
    Follows exp A Initial (resume exp fuel cp generation) Q E r w := by
  refine wp_bind.mpr (wp_modify.mpr ?_)
  have hr : ∀ g s, SameCore exp { r with ckptGeneration := g }
      { r with ckptGeneration := g, checkpointedBatchSeq := s } :=
    fun _ _ => ⟨rfl, id, id⟩
  have h := (h.loc .adoptGeneration).touch (hr (some generation) cp.batchSeq)
  refine wp_bind.mpr (wp_bind.mpr (follows_finishTruncation (Nat.le_refl _) h ?_
    fun e w' => hE e _ w'))
  intro w h
  refine wp_bind.mpr (follows_collectWindow (h.loc .collect) ?_ fun e w' => hE e _ w')
  intro intents w h
  refine wp_bind.mpr (follows_rpc (follows_quiet h rfl fun a w' ha => ?_))
  refine ⟨?_, fun e _ => hE e _ w' (h.quiet rfl ha).known⟩
  rintro rows rfl
  refine wp_bind.mpr (wp_bind.mpr (wp_get.mpr ?_))
  cases ht : rebuildTree rows with
  | error e => exact hE e _ w' (h.quiet rfl ha).known
  | ok tree =>
    simp only []
    split
    · exact wp_halt
    · rename_i a hadopt
      have h := h.call (.adopt ht hadopt) ha
      refine wp_bind.mpr (wp_modify.mpr (wp_bind.mpr (wp_bind.mpr ?_)))
      refine follows_rpc (follows_issue h .restore
        (fun | .error _ => .inl trivial | .ok _ => .inr ⟨_, _, .restored⟩) fun a w' ha => ?_)
      refine ⟨?_, fun e he => hE e _ w' (h.call (.failed .restore (he ▸ trivial)) ha).known⟩
      rintro seq rfl
      have h := h.call .restored ha
      split
      · refine wp_bind.mpr (wp_modify.mpr ?_)
        refine follows_replayCommits (h.touch ⟨rfl, id, id⟩)
          .catchUp .caughtUp ?_ ?_ fun e w' h' => hE e _ w' h'.known
        · intro hnil
          rw [hnil]
          exact .noPost
        · intro w' h
          exact wp_modify.mpr (hQ _ w' (h.loc .books))
      · exact hE _ _ w' h.known

theorem follows_startFrom {existing : Option (Checkpoint F × Nat)}
    (h : Reach exp A Initial (match existing with
      | none => .fresh
      | some (cp, g) => .found cp g) r w)
    (hQ : ∀ r' w', Reach exp A Initial .starting r' w' → Q () r' w')
    (hE : ∀ e r' w', Known exp A Initial w' → E e r' w') :
    Follows exp A Initial (startFrom exp fuel existing) Q E r w := by
  match existing with
  | none =>
    refine wp_bind.mpr (follows_bringUp h ?_ fun e w' h' => hE e r w' h'.known)
    intro compiled w' h
    refine wp_bind.mpr (wp_modify.mpr ?_)
    exact follows_bootstrapFresh (h.touch ⟨rfl, id, id⟩) hQ hE
  | some (cp, g) =>
    refine wp_bind.mpr (follows_bringUp h ?_ fun e w' h' => hE e r w' h'.known)
    intro compiled w' h
    refine wp_bind.mpr (wp_modify.mpr ?_)
    unfold resumeFrom
    split
    · exact hE _ _ w' h.known
    · split
      · exact hE _ _ w' h.known
      · exact follows_resume (h.touch ⟨rfl, id, id⟩) hQ hE

theorem follows_start (h : Reach exp A Initial .start r w)
    (hQ : ∀ r' w', Reach exp A Initial (.at .replay) r' w' → Q () r' w')
    (hE : ∀ e r' w', Known exp A Initial w' → E e r' w') :
    Follows exp A Initial (start exp fuel) Q E r w := by
  have goOn : ∀ existing w', Reach exp A Initial (match existing with
        | none => .fresh
        | some (cp, g) => .found cp g) r w' →
      Follows exp A Initial (startFrom exp fuel existing >>= fun _ => publishStatus >>= fun _ =>
        noting .started) Q E r w' := by
    intro existing w' h
    refine wp_bind.mpr (follows_startFrom h ?_ hE)
    intro r' w' h
    refine wp_bind.mpr (follows_publishStatus h fun r' h _ => wp_bind.mpr (wp_get.mpr ?_))
    exact follows_any h (fun _ => .started) fun _ w' h => hQ r' w' h
  -- a start whose read fails is given up before it
  have hended : ∀ a w', A .getCheckpoint w a w' → Reach exp A Initial .ended r w' :=
    fun _ _ ha => (h.fail rfl).quiet rfl ha
  refine wp_bind.mpr (wp_bind.mpr (follows_ask (fun a w' ha => (hended a w' ha).known) ?_))
  intro a w' ha
  match a with
  | .ok (cp, g) => exact goOn (some (cp, g)) w' (h.call .foundCheckpoint ha)
  | .error e =>
    change Wp _ _ (if _ then _ else _) _ _ _ _
    split
    · rename_i he
      exact goOn none w' (h.call (.noCheckpoint he) ha)
    · exact hE e r w' (hended _ w' ha).known

end

/-! ### Dispatch and completion -/

section

variable {p : Point F} {c : Rest} {i : ExpansionIntent} {r : Runner F} {w : W}
  {E : ClientError → Runner F → W → Prop}

theorem follows_guardedPropose {replay : Bool} {request : ProposeRequest F}
    {Q : ProposeResponse → Runner F → W → Prop}
    (h : Reach exp A Initial (.requested replay i request) r w)
    (hQ : ∀ response r' w', Reach exp A Initial (.proposed replay i response.bursts) r' w' →
      Q response r' w')
    (hE : ∀ e r' w', Reach exp A Initial (.at .failed) r' w' → E e r' w') :
    Follows exp A Initial (guardedPropose request) Q E r w := by
  refine wp_bind.mpr (follows_rpc (follows_issue h .propose
    (fun | .error _ => .inl trivial | .ok _ => .inr ⟨_, _, .offered⟩) fun a w' ha => ?_))
  refine ⟨?_, fun e he => hE e r w' (h.call (.failed .propose (he ▸ trivial)) ha)⟩
  rintro response rfl
  have h := h.call .offered ha
  cases hv : validateProposeResponse request response with
  | some e => exact hE e r w' (h.fail rfl)
  | none =>
    refine wp_bind.mpr (wp_get.mpr ?_)
    split
    · exact hE _ r w' (h.fail rfl)
    · rename_i hb
      split
      · exact hE _ r w' (h.fail rfl)
      · rename_i fingerprints hf
        refine wp_bind.mpr (wp_modify.mpr (hQ response _ w' ?_))
        exact h.loc (.accepted hv (Bool.eq_false_iff.mpr hb) hf)

variable {Q : Unit → Runner F → W → Prop}

theorem follows_submitBatch {bursts : List Burst} {p' : Point F} (h : Reach exp A Initial p r w)
    (hp : p.wavers = true)
    (hi : ∀ b : Batch, b.seq = i.seq → b.parent = i.node → b.bursts = bursts →
      Issues exp p r (.submit b))
    (hn : ∀ b : Batch, b.seq = i.seq → b.parent = i.node → b.bursts = bursts →
      Next exp p r (.submit b) (.ok ()) p' { r with pipeline := r.pipeline ++ [b] })
    (hQ : ∀ r' w', Reach exp A Initial p' r' w' → Q () r' w')
    (hE : ∀ e r' w', Reach exp A Initial p.onError r' w' → E e r' w') :
    Follows exp A Initial (submitBatch i bursts) Q E r w := by
  refine wp_bind.mpr (wp_get.mpr ?_)
  split
  · exact hE _ r w (h.fail hp)
  · refine wp_bind.mpr (follows_rpc (follows_issue h (hi _ rfl rfl rfl)
      (fun | .error _ => .inl trivial | .ok _ => .inr ⟨_, _, hn _ rfl rfl rfl⟩) fun a w' ha => ?_))
    refine ⟨?_, fun e he =>
      hE e r w' (h.call (.failed (hi _ rfl rfl rfl) (he ▸ trivial)) ha)⟩
    rintro ⟨⟩ rfl
    exact wp_modify.mpr (hQ _ w' (h.call (hn _ rfl rfl rfl) ha))

theorem follows_dispatchIntent (h : Reach exp A Initial (.dispatching i) r w)
    (hQ : ∀ r' w', Reach exp A Initial .filling r' w' → Q () r' w')
    (hE : ∀ e r' w', Reach exp A Initial (.at .failed) r' w' → E e r' w') :
    Follows exp A Initial (dispatchIntent exp i) Q E r w := by
  refine wp_bind.mpr (follows_rpc (follows_issue h .build
    (fun | .error _ => .inl trivial | .ok _ => .inr ⟨_, _, .build⟩) fun a w' ha => ?_))
  refine ⟨?_, fun e he => hE e r w' (h.call (.failed .build (he ▸ trivial)) ha)⟩
  rintro request rfl
  refine wp_bind.mpr (follows_guardedPropose (h.call .build ha) ?_ hE)
  intro response r w h
  refine wp_bind.mpr (follows_rpc (follows_issue h .write
    (fun | .error _ => .inl trivial | .ok _ => .inr ⟨_, _, .written⟩) fun a w' ha => ?_))
  refine ⟨?_, fun e he => hE e r w' (h.call (.failed .write (he ▸ trivial)) ha)⟩
  rintro ⟨⟩ rfl
  have h := h.call .written ha
  refine wp_bind.mpr (follows_crashCheck (fun _ => .checked) h fun w h => wp_bind.mpr ?_)
  refine follows_submitBatch h rfl (fun b => .submit) (fun b => .submitted) ?_ hE
  intro r w h
  exact wp_bind.mpr (follows_crashCheck (fun _ => .quiet rfl) h fun w h =>
    wp_modify.mpr (hQ _ w (h.loc .flight)))

theorem follows_dispatchReplay (h : Reach exp A Initial (.at (.popped i)) r w)
    (hQ : ∀ r' w', Reach exp A Initial (.sent i) r' w' → Q () r' w')
    (hE : ∀ e r' w', Reach exp A Initial (.at .failed) r' w' → E e r' w') :
    Follows exp A Initial (dispatchReplay exp i) Q E r w := by
  refine wp_bind.mpr (follows_rpc (follows_issue h .buildReplay
    (fun | .error _ => .inl trivial | .ok _ => .inr ⟨_, _, .buildReplay⟩) fun a w' ha => ?_))
  refine ⟨?_, fun e he => hE e r w' (h.call (.failed .buildReplay (he ▸ trivial)) ha)⟩
  rintro request rfl
  refine wp_bind.mpr (follows_guardedPropose (h.call .buildReplay ha) ?_ hE)
  intro response r w h
  refine wp_bind.mpr (follows_crashCheck (fun _ => .checkedReplay) h fun w h => wp_bind.mpr ?_)
  refine follows_submitBatch h rfl (fun b => .submitReplay) (fun b => .submittedReplay) ?_ hE
  intro r w h
  exact follows_crashCheck (fun _ => .quiet rfl) h fun w h => hQ r w h

theorem follows_nextCompleted {next : BatchResult → Point F}
    {Q : Option BatchResult → Runner F → W → Prop} (h : Reach exp A Initial p r w)
    (hp : p.wavers = true)
    (hn : ∀ (k : Nat) (jobs : List JobOutcome) (b : Batch), r.pipeline[k]? = some b →
      Next exp p r (.nextCompleted r.pipeline) (.ok (some (k, jobs)))
        (next ⟨b.seq, b.parent, jobs⟩) { r with pipeline := r.pipeline.eraseIdx k })
    (hnone : ∀ w', Reach exp A Initial p r w' → Q none r w')
    (hQ : ∀ d r' w', Reach exp A Initial (next d) r' w' → Q (some d) r' w')
    (hE : ∀ e r' w', Reach exp A Initial p.onError r' w' → E e r' w') :
    Follows exp A Initial nextCompleted Q E r w := by
  refine wp_bind.mpr (wp_get.mpr (wp_bind.mpr (follows_rpc (follows_quiet h rfl ?_))))
  intro a w' ha
  refine ⟨?_, fun e _ => hE e r w' ((h.quiet rfl ha).fail hp)⟩
  rintro answer rfl
  cases answer with
  | none => exact hnone w' (h.quiet rfl ha)
  | some completed =>
    obtain ⟨k, jobs⟩ := completed
    dsimp only
    cases hb : r.pipeline[k]? with
    | none => exact wp_halt
    | some b => exact wp_bind.mpr (wp_modify.mpr (hQ _ _ w' (h.call (hn k jobs b hb) ha)))

theorem follows_takeAndCommit {d : BatchResult} {α : Type} {f : Option NodeId → M F α}
    {Q : α → Runner F → W → Prop} (h : Reach exp A Initial (.completed c d) r w)
    (hf : ∀ goal r' w', Reach exp A Initial (.at (c.afterCommit exp goal)) r' w' →
      Follows exp A Initial (f goal) Q E r' w')
    (hE : ∀ e r' w', Reach exp A Initial (.at .failed) r' w' → E e r' w')
    (hc : c ≠ .booted) :
    Follows exp A Initial (takeInflight d.seq >>= fun _ =>
      committing d.seq (commitCompleted exp d) >>= f) Q E r w := by
  refine wp_bind.mpr (wp_bind.mpr (wp_get.mpr ?_))
  cases hi : r.inflight.find? (·.seq = d.seq) with
  | none =>
    exact hE _ r w (Rest.onError_eq (F := F) hc ▸ h.fail rfl)
  | some i =>
    refine wp_modify.mpr (wp_bind.mpr (follows_committing ?_ hf hE))
    intro Q' E' hQ' hE'
    exact follows_commitCompleted (h.loc (.take hi)) hQ' hE'

end

/-! ### The run -/

section

variable {c : Rest} {r : Runner F} {w : W} {E : ClientError → Runner F → W → Prop}

variable {p : Point F} {Q : Unit → Runner F → W → Prop} {fuel : Nat}

variable {status : ExperimentState}

theorem follows_setStatus (h : Reach exp A Initial p r w)
    (hQ : ∀ r', Reach exp A Initial p r' w → Q () r' w) :
    Follows exp A Initial (setStatus status) Q E r w :=
  wp_modify.mpr (hQ _ (h.touch ⟨rfl, id, id⟩))

theorem follows_endWith {reason : RuntimeReason} (h : Reach exp A Initial p r w)
    (hQ : ∀ r', Reach exp A Initial p r' w → Q () r' w) :
    Follows exp A Initial (endWith status reason) Q E r w :=
  wp_modify.mpr (hQ _ (h.touch ⟨rfl, id, id⟩))

/-- Where the batches in flight are waited for whatever they commit. -/
def Rest.drains : Rest → Bool
  | .popped _ | .pausing | .ending => true
  | _ => false

theorem follows_drainInflight (hc : c.drains = true) (h : Reach exp A Initial (.at c) r w)
    (hQ : ∀ r' w', Reach exp A Initial (.at c) r' w' → Q () r' w')
    (hE : ∀ e r' w', Reach exp A Initial (.at .failed) r' w' → E e r' w') :
    Follows exp A Initial (drainInflight exp fuel) Q E r w := by
  have hdraining : c.draining = true := by cases c <;> first | rfl | contradiction
  have hboot : c ≠ .booted := by rintro rfl; cases hc
  have hgoal : ∀ goal, c.afterCommit exp goal = c := by
    intro goal
    cases c <;> first | rfl | contradiction
  induction fuel generalizing r w with
  | zero => exact wp_halt
  | succ fuel ih =>
    refine wp_bind.mpr (wp_get.mpr ?_)
    split
    · exact hQ r w h
    · refine wp_bind.mpr (follows_nextCompleted h rfl (fun _ _ _ => .completed hdraining) ?_ ?_ ?_)
      · intro w' h
        exact hQ r w' h
      · intro d r' w' h
        exact follows_takeAndCommit h (fun goal r' w' h => ih (hgoal goal ▸ h)) hE hboot
      · intro e r' w' h
        exact hE e r' w' (Rest.onError_eq (F := F) hboot ▸ h)

theorem follows_park {Q : Bool → Runner F → W → Prop} (h : Reach exp A Initial p r w)
    (hQ : ∀ b r' w', Reach exp A Initial p r' w' → Q b r' w') :
    Follows exp A Initial (park fuel) Q E r w := by
  induction fuel generalizing r w with
  | zero => exact wp_halt
  | succ fuel ih =>
    refine wp_bind.mpr (follows_quiet h rfl fun a w' ha => ?_)
    have h := h.quiet rfl ha
    match a with
    | some .resume =>
      refine wp_bind.mpr (follows_setStatus h fun r' h => wp_bind.mpr ?_)
      exact follows_publishStatus h fun r' h _ => hQ true r' w' h
    | some .pause => exact ih h
    | some .stop => exact wp_bind.mpr (follows_setStatus h fun r' h => hQ false r' w' h)
    | none => exact wp_bind.mpr (follows_setStatus h fun r' h => hQ false r' w' h)

/-- Where a pause waits. -/
def Rest.onPause : Rest → Rest
  | .loop => .pausing
  | c => c

/-- Where the end of a run waits. -/
def Rest.onStop : Rest → Rest
  | .loop => .ending
  | c => c

theorem Reach.pause (h : Reach exp A Initial (.at c) r w) :
    Reach exp A Initial (.at c.onPause) r w := by
  cases c with
  | loop => exact h.loc .pausing
  | _ => exact h

theorem Reach.stop (h : Reach exp A Initial (.at c) r w) :
    Reach exp A Initial (.at c.onStop) r w := by
  cases c with
  | loop => exact h.loc .ending
  | _ => exact h

/-- Where control messages are handled. -/
def Rest.controlled : Rest → Bool
  | .popped _ | .loop => true
  | _ => false

theorem follows_handleControl {Q : Bool → Runner F → W → Prop} (hc : c.controlled = true)
    (h : Reach exp A Initial (.at c) r w)
    (hQ : ∀ r' w', Reach exp A Initial (.at c) r' w' → Q true r' w')
    (hend : ∀ c' r' w', c'.stays = true → Reach exp A Initial (.at c') r' w' → Q false r' w')
    (hE : ∀ e r' w', Reach exp A Initial (.at .failed) r' w' → E e r' w') :
    Follows exp A Initial (handleControl exp fuel) Q E r w := by
  have hpause : c.onPause.drains = true ∧ (c.onPause.afterCheckpoint : Point F) = .at c ∧
      (c.onPause.onError : Point F) = .at .failed := by
    cases c <;> first | exact ⟨rfl, rfl, rfl⟩ | contradiction
  have hstop : c.onStop.drains = true ∧ c.onStop.stays = true ∧ c.stays = true := by
    cases c <;> first | exact ⟨rfl, rfl, rfl⟩ | contradiction
  induction fuel generalizing r w with
  | zero => exact wp_halt
  | succ fuel ih =>
    refine wp_bind.mpr (follows_quiet h rfl fun a w' ha => ?_)
    have h := h.quiet rfl ha
    match a with
    | none => exact hQ r w' h
    | some .resume => exact ih h
    | some .stop =>
      refine wp_bind.mpr (follows_drainInflight hstop.1 h.stop (fun r' w' h => ?_) hE)
      exact wp_bind.mpr (follows_setStatus h fun r' h => hend _ r' w' hstop.2.1 h)
    | some .pause =>
      refine wp_bind.mpr (follows_drainInflight hpause.1 h.pause (fun r' w' h => ?_) hE)
      have h : Reach exp A Initial (.at c.onPause) { r' with status := .paused } w' :=
        h.touch ⟨rfl, id, id⟩
      refine wp_bind.mpr (wp_modify.mpr (wp_bind.mpr (follows_checkpoint (fun _ => rfl) h ?_
        fun e r' w' h' => hE e r' w' (hpause.2.2 ▸ h'))))
      intro r' w' h
      refine wp_bind.mpr (follows_publishStatus h fun r' h _ => wp_bind.mpr ?_)
      refine follows_park (hpause.2.1 ▸ h) fun b r' w' h => ?_
      cases b with
      | true => exact ih h
      | false => exact hend c r' w' hstop.2.2 h

theorem follows_afterCommit {goal : Option NodeId} {Q : Bool → Runner F → W → Prop}
    (hc : c = .replay ∨ c = .loop)
    (h : Reach exp A Initial (.at (c.afterCommit exp goal)) r w)
    (hQ : ∀ r' w', Reach exp A Initial (.at c) r' w' → Q false r' w')
    (hend : ∀ r' w', Reach exp A Initial (.at .ending) r' w' → Q true r' w')
    (hE : ∀ e r' w', Reach exp A Initial (.at .failed) r' w' → E e r' w') :
    Follows exp A Initial (afterCommit exp goal) Q E r w := by
  have hstays : c.stays = true := by rcases hc with rfl | rfl <;> rfl
  refine wp_bind.mpr (follows_crashCheck (fun _ => .quiet rfl) h fun w h => ?_)
  cases goal with
  | none =>
    have hnone : c.afterCommit exp none = c := by rcases hc with rfl | rfl <;> rfl
    rw [hnone] at h
    exact wp_bind.mpr (follows_maybeCheckpoint hstays h (fun r' w' h => hQ r' w' h) hE)
  | some node =>
    by_cases hstop : exp.onGoal = .stop
    · have hgoal : c.afterCommit exp (some node) = .ending := by
        rcases hc with rfl | rfl <;> simp [Rest.afterCommit, hstop]
      rw [hgoal] at h
      refine wp_bind.mpr (follows_checkpointAt rfl h (fun r' w' h => ?_) hE)
      rw [decide_eq_true hstop]
      exact hend r' w' h
    · have hgoal : c.afterCommit exp (some node) = c := by
        rcases hc with rfl | rfl <;> simp [Rest.afterCommit, hstop]
      rw [hgoal] at h
      refine wp_bind.mpr (follows_checkpointAt hstays h (fun r' w' h => ?_) hE)
      rw [decide_eq_false hstop]
      exact hQ r' w' h

theorem follows_replayIntent {i : ExpansionIntent} {Q : Bool → Runner F → W → Prop}
    (h : Reach exp A Initial (.at (.popped i)) r w)
    (hQ : ∀ r' w', Reach exp A Initial (.at .replay) r' w' → Q false r' w')
    (hend : ∀ r' w', Reach exp A Initial (.at .ending) r' w' → Q true r' w')
    (hE : ∀ e r' w', Reach exp A Initial (.at .failed) r' w' → E e r' w') :
    Follows exp A Initial (replayIntent exp i) Q E r w := by
  refine wp_bind.mpr (follows_dispatchReplay h (fun r w h => ?_) hE)
  refine wp_bind.mpr (follows_nextCompleted h rfl (fun _ _ _ => .completedReplay) ?_ ?_ hE)
  · intro w' h
    exact hE _ r w' (h.fail rfl)
  · intro d r' w' h
    refine wp_bind.mpr (follows_committing (c := .replay) ?_ (fun goal r' w' h => ?_) hE)
    · intro Q' E' hQ' hE'
      exact follows_commitReplayed h hQ' hE'
    · refine wp_bind.mpr (follows_publishStatus h fun r' h _ => ?_)
      exact follows_afterCommit (.inl rfl) h hQ hend hE

theorem follows_replayPhase {Q : Bool → Runner F → W → Prop}
    (h : Reach exp A Initial (.at .replay) r w)
    (hloop : ∀ r' w', Reach exp A Initial (.at .loop) r' w' → Q true r' w')
    (hend : ∀ c r' w', c.stays = true → Reach exp A Initial (.at c) r' w' → Q false r' w')
    (hE : ∀ e r' w', Reach exp A Initial (.at .failed) r' w' → E e r' w') :
    Follows exp A Initial (replayPhase exp fuel) Q E r w := by
  induction fuel generalizing r w with
  | zero => exact wp_halt
  | succ fuel ih =>
    refine wp_bind.mpr (wp_get.mpr ?_)
    cases hq : r.replayQueue with
    | nil => exact hloop r w (h.loc (.enterLoop hq))
    | cons i rest =>
      refine wp_bind.mpr (wp_modify.mpr (wp_bind.mpr ?_))
      refine follows_handleControl rfl (h.loc (.pop hq)) (fun r' w' h => ?_) hend hE
      refine wp_bind.mpr (follows_replayIntent h (fun r' w' h => ih h) (fun r' w' h => ?_) hE)
      exact wp_bind.mpr (follows_setStatus h fun r' h => hend .ending r' w' rfl h)

theorem follows_fillPipeline (h : Reach exp A Initial .filling r w)
    (hQ : ∀ r' w', Reach exp A Initial (.at .loop) r' w' → Q () r' w')
    (hE : ∀ e r' w', Reach exp A Initial (.at .failed) r' w' → E e r' w') :
    Follows exp A Initial (fillPipeline exp fuel) Q E r w := by
  induction fuel generalizing r w with
  | zero => exact wp_halt
  | succ fuel ih =>
    refine wp_bind.mpr (wp_get.mpr ?_)
    split
    · exact hQ r w (h.loc .filled)
    · rename_i hroom
      have hroom : r.inflight.length < max exp.maxInflightBatches 1 :=
        Nat.lt_of_not_le fun hfull => hroom (.inl hfull)
      refine wp_bind.mpr (wp_bind.mpr (wp_get.mpr (follows_any h (fun _ => .select hroom) ?_)))
      intro _ w h
      cases hs : selectNode exp r with
      | error e => exact hE e r w (h.fail rfl)
      | ok choice =>
        cases choice with
        | none => exact hQ r w (h.loc .unselected)
        | some node =>
          exact wp_bind.mpr (follows_dispatchIntent (h.loc (.selected hs))
            (fun r' w' h => ih h) hE)

theorem follows_runLoop (h : Reach exp A Initial (.at .loop) r w)
    (hQ : ∀ c r' w', c.stays = true → Reach exp A Initial (.at c) r' w' → Q () r' w')
    (hE : ∀ e r' w', Reach exp A Initial (.at .failed) r' w' → E e r' w') :
    Follows exp A Initial (runLoop exp fuel) Q E r w := by
  induction fuel generalizing r w with
  | zero => exact wp_halt
  | succ fuel ih =>
    refine wp_bind.mpr (follows_handleControl rfl h (fun r w h => ?_) hQ hE)
    have spent : ∀ reason w', Reach exp A Initial (.at .loop) r w' → Follows exp A Initial
        (drainInflight exp fuel >>= fun _ => endWith .budgetExhausted reason) Q E r w' := by
      intro reason w' h
      refine wp_bind.mpr (follows_drainInflight rfl (h.loc .ending) (fun r' w' h => ?_) hE)
      exact follows_endWith h fun r' h => hQ .ending r' w' rfl h
    refine wp_bind.mpr (wp_bind.mpr (wp_get.mpr ?_))
    cases hb : budgetSpent exp r with
    | some reason => exact spent reason w h
    | none =>
      refine wp_bind.mpr (follows_quiet h rfl fun a w' ha => ?_)
      have h := h.quiet rfl ha
      by_cases hs : 0 < exp.budgets.maxWallClockS ∧ a = true
      · simp only [wp_pure, if_pos hs]
        exact spent _ w' h
      · simp only [wp_pure, if_neg hs]
        refine wp_bind.mpr (follows_fillPipeline (h.loc (.fill hb)) (fun r w h => ?_) hE)
        refine wp_bind.mpr (wp_get.mpr ?_)
        split
        · exact follows_endWith h fun r' h => hQ .loop r' w rfl h
        · refine wp_bind.mpr (follows_nextCompleted h rfl (fun _ _ _ => .completed rfl)
            (fun w' h => hQ .loop r w' rfl h) (fun d r' w' h => ?_) hE)
          refine follows_takeAndCommit h (fun goal r' w' h => ?_) hE (by simp)
          refine wp_bind.mpr (follows_publishStatus h fun r' h _ => wp_bind.mpr ?_)
          refine follows_afterCommit (.inr rfl) h (fun r' w' h => ih h) (fun r' w' h => ?_) hE
          refine wp_bind.mpr (follows_drainInflight rfl h (fun r' w' h => ?_) hE)
          exact follows_setStatus h fun r' h => hQ .ending r' w' rfl h

theorem follows_runPhases (h : Reach exp A Initial (.at .replay) r w)
    (hQ : ∀ c r' w', c.stays = true → Reach exp A Initial (.at c) r' w' → Q () r' w')
    (hE : ∀ e r' w', Reach exp A Initial (.at .failed) r' w' → E e r' w') :
    Follows exp A Initial (runPhases exp fuel) Q E r w := by
  have phases : ∀ r' w', Reach exp A Initial (.at .replay) r' w' →
      Follows exp A Initial (replayAndLoop exp fuel) Q E r' w' := by
    intro r' w' h
    refine wp_bind.mpr (follows_replayPhase h (fun r' w' h => ?_) hQ hE)
    exact follows_runLoop h hQ hE
  refine wp_bind.mpr (wp_get.mpr ?_)
  split
  · refine wp_bind.mpr (follows_publishStatus h fun r' h _ => wp_bind.mpr ?_)
    refine follows_park h fun b r' w' h => ?_
    cases b with
    | true => exact phases r' w' h
    | false => exact hQ .replay r' w' rfl h
  · exact phases r w h

/-- The end of a run: the final checkpoint, from wherever the run ended, and the last status. -/
theorem follows_run (h : Reach exp A Initial (.at .replay) r w) :
    Follows exp A Initial (run exp fuel)
      (fun _ r' w' => (∃ p, Reach exp A Initial p r' w') ∧
        r'.statusTx.getLast? = some r'.snapshot) (fun _ _ _ => False) r w := by
  have publish : ∀ p r' w', Reach exp A Initial p r' w' → Follows exp A Initial publishStatus
      (fun _ r' w' => (∃ p, Reach exp A Initial p r' w') ∧
        r'.statusTx.getLast? = some r'.snapshot) (fun _ _ _ => False) r' w' :=
    fun p r' w' h => follows_publishStatus h fun r' h hlast => ⟨⟨p, h⟩, hlast⟩
  have final : ∀ c r' w', c.stays = true → Reach exp A Initial (.at c) r' w' →
      Follows exp A Initial (Proc.get >>= fun r => runIf (r.failureReason ≠ some .casOwnershipLost)
        (finalCheckpoint exp) >>= fun _ => publishStatus)
        (fun _ r' w' => (∃ p, Reach exp A Initial p r' w') ∧
          r'.statusTx.getLast? = some r'.snapshot) (fun _ _ _ => False) r' w' := by
    intro c r' w' hc h
    refine wp_bind.mpr (wp_get.mpr (wp_bind.mpr (follows_runIf (fun _ => ?_) fun _ =>
      publish _ r' w' h)))
    refine wp_bind.mpr (wp_attempt.mpr (follows_checkpointAt hc h
      (fun r' w' h => publish _ r' w' h) ?_))
    intro e r' w' h
    refine wp_bind.mpr (wp_get.mpr (follows_runIf (fun _ => ?_) fun _ => publish _ r' w' h))
    exact follows_endWith h fun r' h => publish _ r' w' h
  refine wp_bind.mpr (wp_attempt.mpr (follows_runPhases h ?_ ?_))
  · exact final
  · intro e r' w' h
    exact wp_bind.mpr (follows_endWith h fun r' h => final .failed r' w' rfl h)

theorem follows_process (h : Reach exp A Initial .start r w) :
    Follows exp A Initial (process exp fuel)
      (fun _ r' w' => (∃ p, Reach exp A Initial p r' w') ∧
        r'.statusTx.getLast? = some r'.snapshot) (fun _ _ _ => True) r w :=
  wp_bind.mpr (follows_start h (fun _ _ h => wp_mono (follows_run h) (fun _ _ _ h => h)
    fun _ _ _ h => h.elim) fun _ _ _ _ => trivial)

end

/-! ### The system -/

theorem safe_boot (h : Reach exp A Initial .start (.initial exp) w) :
    (boot exp fuel).Safe A (Known exp A Initial) (fun _ _ => True) w :=
  Prog.safe_bind.mpr (Prog.Safe.mono (follows_process h) fun _ _ _ => trivial)

/-- **The code refines the protocol.** Every world reached by starting a process, stopping
it between any two calls and starting again is one the protocol reaches. -/
theorem reach_of_steps (hw : Initial.first w) (hagain : Initial.again) {s : Solo (Op F) (Ans F) W}
    (h : Solo.Steps A (boot exp) ⟨w, none⟩ s) : Known exp A Initial s.world :=
  Solo.invariant (fun _ _ ⟨_, _, h⟩ => safe_boot (h.restart hagain)) ⟨_, _, .init hw⟩ h

/-- The worlds of a process that is never stopped are reached by the protocol without another
start. -/
theorem reach_of_undisturbed {p : Prog (Op F) (Ans F) Unit} (hw : Initial.first w)
    (h : Prog.Undisturbed A (boot exp fuel) w p w') : Known exp A Initial w' :=
  h.invariant (safe_boot (.init hw)) ⟨_, _, .init hw⟩

/-- A process that has run to its end has published where it ended, and the protocol reaches
its memory. -/
theorem reach_of_return (hw : Initial.first w)
    (h : Prog.Undisturbed A (process exp fuel (.initial exp)) w (.ret (.ok (), r)) w') :
    (∃ p, Reach exp A Initial p r w') ∧ r.statusTx.getLast? = some r.snapshot :=
  h.safe (follows_process (.init hw))

end Orchestrator.Server
