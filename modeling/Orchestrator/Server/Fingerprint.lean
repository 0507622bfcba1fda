import Orchestrator.Lib.Observer
import Orchestrator.Server.Phases

/-! # Server — The synthesizer's fingerprint

Whether an experiment uses one configuration of the synthesizer. The fingerprint of the first
accepted response to a request without overrides is pinned in the runner's memory, and in the
store with the next checkpoint. A resume takes it from the checkpoint, where zero stands for
none: what was accepted after the last checkpoint is forgotten.

Responses are not on the log, so an observer notes them: a response is accepted when the runner
goes on with it, by writing the intent, by passing the crash point of a replay, or by
submitting the batch.

* `Watch.note`: what the observer notes.
* `Pinned`: how the notes, the runner's pin and the checkpoint's compare at every point.
* `one_fingerprint`: where no process starts without a pin after a response was accepted, all
  accepted responses have the same fingerprint.
-/

namespace Orchestrator.Server

open Core Services Lib

variable {F : Type} [Float64 F] {exp : Experiment F}

/-! ### The observer -/

/-- A request with the response to it. -/
abbrev Offer (F : Type) [Float64 F] := ProposeRequest F × ProposeResponse

/-- A request without overrides. -/
def Offer.base (x : Offer F) : Bool := baseProfile x.1

/-- What the observer knows: the response the runner has not yet reacted to, those it went on
with, the batches it submitted, and whether a process has started without a pin although a
response to a request without overrides had been accepted. -/
structure Watch (F : Type) [Float64 F] where
  asked : Option (Offer F)
  accepted : List (Offer F)
  executed : List Batch
  unpinned : Bool

namespace Watch

def new : Watch F := ⟨none, [], [], false⟩

/-- The runner goes on with the response. -/
def accept (n : Watch F) : Watch F :=
  { n with asked := none, accepted := n.accepted ++ n.asked.toList }

/-- A process starts. -/
def start (r : Runner F) (n : Watch F) : Watch F :=
  { n with unpinned := n.unpinned || (r.fingerprint.isNone && n.accepted.any Offer.base) }

/-- One call and its answer. -/
def note : (op : Op F) → Ans F op → Watch F → Watch F
  | .propose request, .ok response, n => { n with asked := some (request, response) }
  | .propose _, .error _, n => { n with asked := none }
  | .putWal _, _, n | .shouldCrash .afterWalWrite, _, n => n.accept
  | .submit b, _, n => { n.accept with executed := n.executed ++ [b] }
  | .record (.started r), _, n => n.start r
  | _, _, n => n

/-- The accepted responses to requests without overrides have this fingerprint. -/
def Uses (n : Watch F) (fingerprint : Nat) : Prop :=
  ∀ x ∈ n.accepted, x.base = true → x.2.configFingerprint = fingerprint

/-- No response to a request without overrides was accepted. -/
def Unused (n : Watch F) : Prop := ∀ x ∈ n.accepted, x.base = false

/-- The accepted responses to requests without overrides have one fingerprint, and what is
executed are the bursts of accepted responses. -/
structure Consistent (n : Watch F) : Prop where
  fingerprint : ∀ x ∈ n.accepted, ∀ y ∈ n.accepted, x.base = true → y.base = true →
    x.2.configFingerprint = y.2.configFingerprint
  executed : ∀ b ∈ n.executed, ∃ x ∈ n.accepted, b.bursts = x.2.bursts

instance (n : Watch F) : Decidable n.Consistent :=
  decidable_of_iff
    ((∀ x ∈ n.accepted, ∀ y ∈ n.accepted, x.base = true → y.base = true →
      x.2.configFingerprint = y.2.configFingerprint) ∧
      ∀ b ∈ n.executed, ∃ x ∈ n.accepted, b.bursts = x.2.bursts)
    ⟨fun h => ⟨h.1, h.2⟩, fun h => ⟨h.1, h.2⟩⟩

end Watch

/-- The environment with the observer of the synthesizer's responses. -/
def watching (exp : Experiment F) : Answers (Op F) (Ans F) (World F × Watch F) :=
  observed (env exp) Watch.note

/-- `n` is what the observer knows after a run. -/
def Watched (exp : Experiment F) (s : Solo (Op F) (Ans F) (World F)) (n : Watch F) : Prop :=
  Solo.Steps (watching exp) (boot exp) ⟨(.empty, .new), none⟩ ⟨(s.world, n), s.proc⟩

/-- What the protocol reaches with the observer. -/
abbrev ReachesWatched (exp : Experiment F) : Point F → Runner F → World F × Watch F → Prop :=
  Reach exp (watching exp) ⟨((World.empty, Watch.new) = ·), True⟩

variable {p : Point F} {r : Runner F} {x : World F × Watch F}

theorem Reach.forget (h : ReachesWatched exp p r x) : Reaches exp p r x.1 := by
  induction h with
  | init hw =>
    subst hw
    exact .init rfl
  | restart _ _ ih => exact ih.restart trivial
  | loc _ hl ih => exact ih.loc hl
  | call _ hn ha ih => exact ih.call hn ha.1

/-- The calls the observer notes. -/
def Op.heard : Op F → Bool
  | .propose _ | .putWal _ | .submit _ | .record _ => true
  | .shouldCrash point => point = .afterWalWrite
  | _ => false

theorem Watch.note_of_not_heard {op : Op F} {a : Ans F op} (h : op.heard = false) (n : Watch F) :
    Watch.note op a n = n := by
  cases op with
  | propose | putWal | submit | record => cases h
  | shouldCrash point => cases point <;> first | rfl | cases h
  | _ => rfl

/-! ### The pin -/

/-- A process that has started. -/
def Rest.runs : Rest → Bool
  | .booted => false
  | _ => true

/-- A process that has started. -/
def Point.runs : Point F → Bool
  | .start | .ended | .fresh | .bootstrapped _ | .rootReady _ _ | .rootStored _ | .found _ _
  | .resuming _ | .collecting _ _ _ _ | .loaded _ _ | .adopted _ _ _ | .restored _ _ _
  | .ready _ _ | .starting => false
  | .at c | .began c | .archived c _ | .truncating c _ _ => c.runs
  | _ => true

/-- A process that has put or restored the checkpoint. -/
def Point.knows : Point F → Bool
  | .starting | .truncating _ _ _ => true
  | p => p.runs

/-- What the observer knows at a point between a response and its batch. -/
def Point.Watching (r : Runner F) (n : Watch F) : Point F → Prop
  | .offered _ _ request response => n.asked = some (request, response)
  | .proposed replay _ bursts =>
    (∃ x : Offer F, n.asked = some x ∧ x.2.bursts = bursts ∧
      (x.base = true → r.fingerprint = some x.2.configFingerprint)) ∨
    replay = true ∧ n.asked = none ∧ ∃ x ∈ n.accepted, x.2.bursts = bursts
  | .walled _ bursts => n.asked = none ∧ ∃ x ∈ n.accepted, x.2.bursts = bursts
  | _ => True

/-- The runner's pin and the checkpoint's are of the accepted responses, and a runner without
a pin has accepted none. -/
structure Pinned (p : Point F) (r : Runner F) (s : Store F) (n : Watch F) : Prop where
  consistent : n.Consistent
  pin : ∀ f, r.fingerprint = some f → n.Uses f
  pinned : p.runs = true → r.fingerprint = none → n.Unused
  stored : ∀ cp g, s.checkpoint = some (cp, g) → cp.synthConfigFingerprint ≠ 0 →
    n.Uses cp.synthConfigFingerprint
  kept : p.knows = true → ∀ cp g, s.checkpoint = some (cp, g) → cp.synthConfigFingerprint ≠ 0 →
    r.fingerprint = some cp.synthConfigFingerprint
  watching : p.Watching r n

section

variable {p p' : Point F} {r r' : Runner F} {s s' : Store F} {n : Watch F}

theorem Point.runs_onError (h : p.onError.runs = true) : p.runs = true := by
  cases p with
  | «at» c | began c | archived c _ | truncating c _ _ =>
    cases c with
    | booted => cases h
    | _ => rfl
  | start | ended | fresh | bootstrapped | rootReady | rootStored | found | resuming | collecting
  | loaded | adopted | restored | ready | starting => cases h
  | _ => rfl

theorem Point.knows_of_runs (h : p.runs = true) : p.knows = true := by
  cases p with
  | starting | truncating => rfl
  | _ => exact h

theorem Point.knows_onError (h : p.onError.knows = true) : p.knows = true := by
  have hruns : p.onError.runs = true := by
    cases p with
    | «at» c | completed c _ | began c | archived c _ | truncating c _ _ => cases c <;> exact h
    | _ => exact h
  exact Point.knows_of_runs (Point.runs_onError hruns)

theorem Point.watching_onError (p : Point F) (r : Runner F) (n : Watch F) :
    p.onError.Watching r n := by
  cases p with
  | «at» c | completed c _ | began c | archived c _ | truncating c _ _ => cases c <;> trivial
  | _ => trivial

/-- A step that leaves the pin alone. -/
theorem Pinned.move (h : Pinned p r s n) (hf : r'.fingerprint = r.fingerprint)
    (hruns : p'.runs = true → p.runs = true) (hknows : p'.knows = true → p.knows = true)
    (hwatch : p'.Watching r' n) : Pinned p' r' s n := by
  refine ⟨h.consistent, ?_, ?_, h.stored, ?_, hwatch⟩
  · rw [hf]
    exact h.pin
  · rw [hf]
    exact fun hp => h.pinned (hruns hp)
  · rw [hf]
    exact fun hp => h.kept (hknows hp)

theorem Pinned.onError (h : Pinned p r s n) : Pinned p.onError r s n :=
  h.move rfl Point.runs_onError Point.knows_onError (p.watching_onError r n)

theorem SameCore.fingerprint (h : SameCore exp r r') : r'.fingerprint = r.fingerprint :=
  congrArg Tracked.fingerprint h.tracked

/-- The books of a resume take the pin of the checkpoint. -/
theorem Pinned.books {cp : Checkpoint F} {intents : List ExpansionIntent}
    (h : Pinned (.ready cp intents) r s n) (hcp : s.checkpoint.map (·.1) = some cp) :
    Pinned .starting (restoreBooks exp cp intents r) s n := by
  obtain ⟨⟨cp, g⟩, hckpt, rfl⟩ := Option.map_eq_some_iff.mp hcp
  refine ⟨h.consistent, ?_, by simp [Point.runs], h.stored, ?_, trivial⟩
  · intro f hf
    simp only [restoreBooks] at hf
    split at hf
    · exact h.pin f hf
    · rename_i hne
      cases hf
      exact h.stored cp g hckpt hne
  · intro _ cp' g' hcp' hne
    cases hckpt.symm.trans hcp'
    exact if_neg hne

variable {i : ExpansionIntent} {b : Batch} {bursts : List Burst}

/-- A response is accepted only if it agrees with the pin, and pins the next ones. -/
theorem Pinned.accepted {replay : Bool} {request : ProposeRequest F} {response : ProposeResponse}
    {fingerprints : FingerprintRegistry} (h : Pinned (.offered replay i request response) r s n)
    (hb : (baseProfile request && r.fingerprint.any (· ≠ response.configFingerprint)) = false) :
    Pinned (.proposed replay i response.bursts)
      { r with
        fingerprints
        fingerprint :=
          if baseProfile request then some response.configFingerprint else r.fingerprint } s n := by
  cases hbase : baseProfile request with
  | false =>
    refine h.move rfl id id (.inl ⟨_, h.watching, rfl, fun hx => ?_⟩)
    cases hbase.symm.trans hx
  | true =>
    have hsame : ∀ f, r.fingerprint = some f → f = response.configFingerprint := by
      intro f hf
      rw [hbase, hf] at hb
      simpa using hb
    have huses : n.Uses response.configFingerprint := by
      cases hf : r.fingerprint with
      | none =>
        intro x hx hxb
        cases (h.pinned rfl hf x hx).symm.trans hxb
      | some f => exact hsame f hf ▸ h.pin f hf
    refine ⟨h.consistent, ?_, ?_, h.stored, ?_, .inl ⟨_, h.watching, rfl, fun _ => rfl⟩⟩
    · intro f hf
      cases hf
      exact huses
    · intro _ hf
      cases hf
    · intro _ cp g hcp hne
      exact congrArg some (hsame _ (h.kept rfl cp g hcp hne)).symm

theorem Local.pinned (hl : Local exp p r p' r')
    (hread : ∀ cp, p.reads = some cp → s.checkpoint.map (·.1) = some cp)
    (h : Pinned p r s n) : Pinned p' r' s n := by
  cases hl with
  | touch hsame =>
    refine h.move hsame.fingerprint id id ?_
    have hwatch := h.watching
    unfold Point.Watching at hwatch ⊢
    rw [hsame.fingerprint]
    exact hwatch
  | fail => exact h.onError
  | @books cp => exact h.books (hread cp rfl)
  | accepted hv hb hf => exact h.accepted hb
  | @truncated c =>
    cases c with
    | booted => exact h.move rfl (by simp [Rest.afterCheckpoint, Point.runs]) id trivial
    | _ => exact h.move rfl id id trivial
  | @settle c d goal =>
    have hf : (addGoal goal r).fingerprint = r.fingerprint := by
      unfold addGoal
      split
      · rfl
      · split <;> rfl
    exact h.move hf id id trivial
  | _ => exact h.move rfl id id trivial

/-! ### Calls -/

/-- The runner goes on with the response it was offered. -/
theorem Pinned.accept {x : Offer F} (h : Pinned p r s n) (hruns : p.runs = true)
    (hx : n.asked = some x)
    (hpin : x.base = true → r.fingerprint = some x.2.configFingerprint)
    (hwatch : p'.Watching r n.accept) : Pinned p' r s n.accept := by
  have hmem : ∀ y, y ∈ n.accept.accepted ↔ y ∈ n.accepted ∨ y = x := by
    intro y
    simp [Watch.accept, hx]
  have huses : ∀ f, n.Uses f → (x.base = true → x.2.configFingerprint = f) →
      n.accept.Uses f := by
    intro f hf hxf y hy
    rcases (hmem y).mp hy with hy | rfl
    · exact hf y hy
    · exact hxf
  have hxuses : x.base = true → n.Uses x.2.configFingerprint := fun hb => h.pin _ (hpin hb)
  have hknows := Point.knows_of_runs hruns
  refine ⟨⟨?_, ?_⟩, ?_, ?_, ?_, fun _ => h.kept hknows, hwatch⟩
  · intro y hy z hz hyb hzb
    rcases (hmem y).mp hy with hy | rfl
    · rcases (hmem z).mp hz with hz | rfl
      · exact h.consistent.fingerprint y hy z hz hyb hzb
      · exact hxuses hzb y hy hyb
    · rcases (hmem z).mp hz with hz | rfl
      · exact (hxuses hyb z hz hzb).symm
      · rfl
  · intro b hb
    obtain ⟨y, hy, hbursts⟩ := h.consistent.executed b hb
    exact ⟨y, (hmem y).mpr (.inl hy), hbursts⟩
  · intro f hf
    refine huses f (h.pin f hf) fun hb => ?_
    exact Option.some.inj ((hpin hb).symm.trans hf)
  · intro _ hf y hy
    rcases (hmem y).mp hy with hy | rfl
    · exact h.pinned hruns hf y hy
    · by_contra hb
      rw [Bool.not_eq_false] at hb
      cases (hpin hb).symm.trans hf
  · intro cp g hcp hne
    refine huses _ (h.stored cp g hcp hne) fun hb => ?_
    exact Option.some.inj ((hpin hb).symm.trans (h.kept hknows cp g hcp hne))

theorem Pinned.of_checkpoint (h : Pinned p r s n) (hc : s'.checkpoint = s.checkpoint) :
    Pinned p r s' n :=
  ⟨h.consistent, h.pin, h.pinned, hc ▸ h.stored, hc ▸ h.kept, h.watching⟩

/-- A batch with the bursts of an accepted response is submitted. -/
theorem Pinned.execute (h : Pinned p r s n) (hb : ∃ x ∈ n.accepted, b.bursts = x.2.bursts)
    (hruns : p'.runs = true → p.runs = true) (hknows : p'.knows = true → p.knows = true)
    (hwatch : p'.Watching r { n with executed := n.executed ++ [b] }) :
    Pinned p' r s { n with executed := n.executed ++ [b] } := by
  refine ⟨⟨h.consistent.fingerprint, fun b' hb' => ?_⟩, h.pin, fun hp => h.pinned (hruns hp),
    h.stored, fun hp => h.kept (hknows hp), hwatch⟩
  rcases List.mem_append.mp hb' with hb' | hb'
  · exact h.consistent.executed b' hb'
  · rw [List.mem_singleton.mp hb']
    exact hb

theorem Watch.accept_of_none (h : n.asked = none) : n.accept = n := by
  cases n
  cases h
  simp [Watch.accept]

/-- Only what is between a response and its batch depends on the last response. -/
theorem Pinned.ask {asked : Option (Offer F)} (h : Pinned p r s n)
    (hwatch : p.Watching r { n with asked }) : Pinned p r s { n with asked } :=
  ⟨⟨h.consistent.fingerprint, h.consistent.executed⟩, h.pin, h.pinned, h.stored, h.kept, hwatch⟩

/-- The intent of an accepted response is written. -/
theorem Pinned.write (h : Pinned (.proposed false i bursts) r s n) :
    Pinned (.walled i bursts) r s n.accept := by
  obtain ⟨x, hx, hbursts, hpin⟩ | ⟨hreplay, -⟩ := h.watching
  · exact h.accept rfl hx hpin ⟨rfl, x, by simp [Watch.accept, hx], hbursts⟩
  · cases hreplay

/-- A replay goes on with the response. -/
theorem Pinned.check (h : Pinned (.proposed true i bursts) r s n) :
    Pinned (.proposed true i bursts) r s n.accept ∧ n.accept.asked = none ∧
      ∃ x ∈ n.accept.accepted, x.2.bursts = bursts := by
  obtain ⟨x, hx, hbursts, hpin⟩ | ⟨-, hnone, hmem⟩ := h.watching
  · have hmem : ∃ y ∈ n.accept.accepted, y.2.bursts = bursts :=
      ⟨x, by simp [Watch.accept, hx], hbursts⟩
    exact ⟨h.accept rfl hx hpin (.inr ⟨rfl, rfl, hmem⟩), rfl, hmem⟩
  · rw [Watch.accept_of_none hnone]
    exact ⟨h, hnone, hmem⟩

theorem Pinned.submit (h : Pinned (.walled i bursts) r s n) (hb : b.bursts = bursts) :
    Pinned (.submitted i) r s { n.accept with executed := n.executed ++ [b] } := by
  obtain ⟨hnone, x, hx, hbursts⟩ := h.watching
  rw [Watch.accept_of_none hnone]
  exact h.execute ⟨x, hx, hb.trans hbursts.symm⟩ id id trivial

theorem Pinned.submitReplay (h : Pinned (.proposed true i bursts) r s n) (hb : b.bursts = bursts) :
    Pinned (.sent i) r s { n.accept with executed := n.executed ++ [b] } := by
  obtain ⟨h, -, x, hx, hbursts⟩ := h.check
  exact h.execute ⟨x, hx, hb.trans hbursts.symm⟩ id id trivial

/-- A checkpoint stores the pin. -/
theorem Pinned.put {c : Rest} {g : Nat} {archive : ArchiveSnapshot} {value : Checkpoint F}
    (h : Pinned (.archived c archive) r s n) (hv : buildCheckpoint exp r archive = some value)
    (covered : Nat) (rest : List Nat) :
    Pinned (.truncating c covered rest) r { s with checkpoint := some (value, g) } n := by
  have hpin : value.synthConfigFingerprint ≠ 0 →
      r.fingerprint = some value.synthConfigFingerprint := by
    obtain ⟨frontier, -, rfl⟩ := Option.map_eq_some_iff.mp hv
    intro hne
    cases hf : r.fingerprint with
    | none => exact absurd (by simp [hf]) hne
    | some f => simp
  refine ⟨h.consistent, h.pin, h.pinned, ?_, ?_, trivial⟩
  · intro cp g' hcp hne
    cases hcp
    exact h.pin _ (hpin hne)
  · intro _ cp g' hcp hne
    cases hcp
    exact hpin hne

theorem Watch.unpinned_note {op : Op F} {a : Ans F op} (h : (Watch.note op a n).unpinned = false) :
    n.unpinned = false := by
  unfold Watch.note at h
  split at h
  case h_6 => exact (Bool.or_eq_false_iff.mp h).1
  all_goals exact h

variable {op : Op F} {a : Ans F op} {w w' : World F}

/-- A call the observer does not note. -/
theorem Pinned.frame (h : Pinned p r w.store n) (ha : env exp op w a w')
    (hop : op.heard = false) (hckpt : op.writesCheckpoint = false) :
    Pinned p r w'.store (Watch.note op a n) := by
  rw [Watch.note_of_not_heard hop]
  exact h.of_checkpoint (env_checkpoint ha hckpt)

/-- A moment of the run other than a start. -/
theorem Pinned.record {e : Event F} {a : Unit} (h : Pinned p r w.store n)
    (ha : env exp (.record e) w a w') (he : ∀ r, e ≠ .started r) :
    Pinned p r w'.store (Watch.note (.record e) a n) := by
  have hnote : Watch.note (.record e) a n = n := by
    cases e with
    | started r => exact absurd rfl (he r)
    | _ => rfl
  rw [hnote, env_record ha]
  exact h

theorem Issues.pinned (hi : Issues exp p r op) (ha : env exp op w a w')
    (h : Pinned p r w.store n) : Pinned p.onError r w'.store (Watch.note op a n) := by
  cases hi with
  | propose =>
    have hsame := h.of_checkpoint (env_checkpoint ha rfl)
    match a with
    | .ok _ => exact (hsame.ask trivial).onError
    | .error _ => exact (hsame.ask trivial).onError
  | write => exact (h.write.of_checkpoint (env_checkpoint ha rfl)).onError
  | submit _ _ hb => exact ((h.submit hb).of_checkpoint (env_checkpoint ha rfl)).onError
  | submitReplay _ _ hb =>
    exact ((h.submitReplay hb).of_checkpoint (env_checkpoint ha rfl)).onError
  | @put c archive _ value hv =>
    refine env_induct (P := fun x => Pinned c.onError r x.store n) ha h.onError (fun w₁ happ => ?_)
      fun _ _ h => h
    cases happ with
    | putCheckpoint hput =>
      rw [(Store.putCheckpoint_ok hput).2.2]
      exact (h.put hv 0 []).onError
  | _ => exact h.onError.frame ha rfl rfl

theorem Next.pinned (hn : Next exp p r op a p' r') (ha : env exp op w a w')
    (hunp : (Watch.note op a n).unpinned = false) (h : Pinned p r w.store n) :
    Pinned p' r' w'.store (Watch.note op a n) := by
  cases hn with
  | quiet hq =>
    exact h.frame ha (by cases op <;> simp_all [Op.quiet, Op.heard])
      (Op.keeps_of_quiet hq)
  | failed hi => exact hi.pinned ha h
  | started =>
    rw [env_record ha]
    have hstart := (Bool.or_eq_false_iff.mp hunp).2
    refine ⟨⟨h.consistent.fingerprint, h.consistent.executed⟩, h.pin, fun _ hf x hx => ?_,
      h.stored, h.kept, trivial⟩
    rw [hf, Option.isNone_none, Bool.true_and, List.any_eq_false] at hstart
    exact Bool.eq_false_iff.mpr (hstart x hx)
  | @offered replay i request response =>
    have hsame := h.of_checkpoint (env_checkpoint ha rfl)
    exact (hsame.ask trivial).move rfl id id rfl
  | written => exact h.write.of_checkpoint (env_checkpoint ha rfl)
  | checked =>
    have hnone := h.watching.1
    change Pinned _ _ _ n.accept
    rw [Watch.accept_of_none hnone]
    exact h.of_checkpoint (env_checkpoint ha rfl)
  | checkedReplay => exact h.check.1.of_checkpoint (env_checkpoint ha rfl)
  | submitted _ _ hb =>
    exact ((h.submit hb).of_checkpoint (env_checkpoint ha rfl)).move rfl id id trivial
  | submittedReplay _ _ hb =>
    exact ((h.submitReplay hb).of_checkpoint (env_checkpoint ha rfl)).move rfl id id trivial
  | put hv =>
    obtain ⟨store, hput, rfl⟩ := env_putCheckpoint_ok ha
    obtain ⟨-, -, rfl⟩ := Store.putCheckpoint_ok hput
    exact (h.put hv _ _).move rfl id id trivial
  | @completed c _ _ _ _ hc =>
    have hruns : (Point.at c : Point F).runs = true := by
      cases c with
      | booted => cases hc
      | _ => rfl
    exact (h.frame ha rfl rfl).move rfl (fun _ => hruns) (fun _ => hruns) trivial
  | committed =>
    exact (h.record ha (by simp)).move rfl (fun _ => rfl) (fun _ => rfl) trivial
  | select | scored | aborted | began => exact (h.record ha (by simp)).move rfl id id trivial
  | _ => exact (h.frame ha rfl rfl).move rfl id id trivial

end

theorem Reach.pinned (h : ReachesWatched exp p r x) (hunp : x.2.unpinned = false) :
    Pinned p r x.1.store x.2 := by
  induction h with
  | init hw =>
    subst hw
    refine ⟨⟨by simp [Watch.new], by simp [Watch.new]⟩, ?_, ?_, ?_, ?_, trivial⟩
    · intro f hf
      cases hf
    · intro hruns
      cases hruns
    · intro cp g hcp
      cases hcp
    · intro hknows
      cases hknows
  | restart _ _ ih =>
    have h := ih hunp
    refine ⟨h.consistent, ?_, ?_, h.stored, ?_, trivial⟩
    · intro f hf
      cases hf
    · intro hruns
      cases hruns
    · intro hknows
      cases hknows
  | loc h hl ih => exact hl.pinned (fun _ => h.forget.current) (ih hunp)
  | call h hn ha ih =>
    obtain ⟨ha, hnote⟩ := ha
    rw [hnote] at hunp ⊢
    exact hn.pinned ha hunp (ih (Watch.unpinned_note hunp))

/-! ### Whole runs -/

/-- **One configuration of the synthesizer.** Every run can be observed, and in every run, with
any kills, failing calls and any behaviour of the synthesizer, in which no process starts
without a pin after a response to a request without overrides was accepted: all such responses
have one fingerprint, and what is executed are the bursts of accepted responses. -/
theorem one_fingerprint (exp : Experiment F) {s : Solo (Op F) (Ans F) (World F)}
    (h : Solo.Steps (env exp) (boot exp) ⟨.empty, none⟩ s) :
    (∃ n, Watched exp s n) ∧ ∀ n, Watched exp s n → n.unpinned = false → n.Consistent := by
  refine ⟨h.observe Watch.new, fun n hn hunp => ?_⟩
  have hknown : Known exp (watching exp) ⟨((World.empty, Watch.new) = ·), True⟩ (s.world, n) :=
    reach_of_steps rfl trivial hn
  obtain ⟨p, r, hreach⟩ := hknown
  exact (hreach.pinned hunp).consistent

/-- What an observed script leads to. -/
def evaluateWatched (exp : Experiment Int) (scripts : List (List Choice)) : World Int × Watch Int :=
  Solo.script (respondObserved (respond exp) Watch.note) (boot exp)
    (scripts.map fun script => (script.length, script)) (.empty, .new)

theorem watched_evaluate (exp : Experiment Int) (scripts : List (List Choice)) :
    Watched exp ⟨(evaluateWatched exp scripts).1, none⟩ (evaluateWatched exp scripts).2 :=
  Solo.steps_observed (respond exp) Watch.note _ _

/-- A process killed after its first intent, before a checkpoint has the pin, and the next one,
which is offered bursts of another configuration for the replay. -/
def reconfigured : List (List Choice) :=
  [List.replicate 25 .answer,
    List.replicate 13 .answer ++ [.proposes ⟨[⟨0, [], 9, 0⟩], 9, 0⟩] ++ List.replicate 3 .answer]

theorem two_fingerprints :
    ∃ s, Solo.Steps (env sample) (boot sample) ⟨.empty, none⟩ s ∧
      ∃ n, Watched sample s n ∧ ¬ n.Consistent := by
  have hdivided : ¬ (evaluateWatched sample reconfigured).2.Consistent := by decide +kernel
  have hwatched := watched_evaluate sample reconfigured
  generalize evaluateWatched sample reconfigured = x at hdivided hwatched
  exact ⟨⟨x.1, none⟩, hwatched.forget, x.2, hwatched, hdivided⟩

/-- A checkpoint after every commit, so that the pin is stored with the first batch. -/
def pinning : Experiment Int := { sample with everyCommits := 1 }

/-- A process killed in its second batch, and the next one, which replays it and goes on. -/
def killedPinned : List (List Choice) := [List.replicate 60 .answer, List.replicate 60 .answer]

theorem one_fingerprint_killedPinned :
    (evaluateWatched pinning killedPinned).2.accepted.length = 4 ∧
      (evaluateWatched pinning killedPinned).2.Consistent := by
  have hlength : (evaluateWatched pinning killedPinned).2.accepted.length = 4 := by
    decide +kernel
  have hunp : (evaluateWatched pinning killedPinned).2.unpinned = false := by decide +kernel
  have hwatched := watched_evaluate pinning killedPinned
  generalize evaluateWatched pinning killedPinned = x at hlength hunp hwatched ⊢
  exact ⟨hlength, (one_fingerprint pinning hwatched.forget).2 x.2 hwatched hunp⟩

end Orchestrator.Server
