import Mathlib.Tactic.Common

/-! # Lib — State and errors

Computations that thread a state and keep it when they fail, the reading of a method on
`&mut self` whose errors are passed on with `?`: inversion rules for those that succeed, and
rules of pre- and postconditions that speak of both ends.

* `bind_eq_ok`, `bind_eq_error`, `refuseIf_eq_ok`: computations that have no state.
* `bind_ok`, `bind_error`: the inversion of a sequence.
* `Leads`: from a precondition to the state of a success, or to the state of a failure.
-/

namespace Orchestrator.Lib

variable {ε σ α β : Type}

/-- Runs a computation when a condition holds. -/
def runIf {m : Type → Type} [Pure m] (c : Bool) (x : m Unit) : m Unit := if c then x else pure ()

variable {m : Type → Type} {c : Prop} {b : β} {s' : σ}

@[simp] theorem runIf_true [Pure m] (x : m Unit) : runIf true x = x := rfl

@[simp] theorem runIf_false [Pure m] (x : m Unit) : runIf false x = pure () := rfl

/-- A result whose error is ignored, as `.ok()` does. -/
def okOr {ε α : Type} (default : α) : Except ε α → α
  | .ok a => a
  | .error _ => default

/-- Fails on a condition. -/
def refuseIf {ε : Type} (c : Prop) [Decidable c] (e : ε) : Except ε Unit :=
  if c then .error e else .ok ()

variable {e : ε} {x : Except ε α} {f : α → EStateM ε σ β} {s : σ}

@[simp] theorem refuseIf_eq_ok [Decidable c] {u : Unit} : refuseIf c e = .ok u ↔ ¬ c := by
  unfold refuseIf
  split <;> simp [*]

@[simp] theorem bind_eq_ok {f : α → Except ε β} :
    (x >>= f) = .ok b ↔ ∃ a, x = .ok a ∧ f a = .ok b := by
  cases x with
  | error e => simp [bind, Except.bind]
  | ok a => simp [bind, Except.bind]

theorem refuseIf_eq_error [Decidable c] {e' : ε} : refuseIf c e = .error e' ↔ c ∧ e = e' := by
  unfold refuseIf
  split <;> simp [*]

theorem bind_eq_error {f : α → Except ε β} :
    (x >>= f) = .error e ↔ x = .error e ∨ ∃ a, x = .ok a ∧ f a = .error e := by
  cases x with
  | error e => simp [bind, Except.bind]
  | ok a => simp [bind, Except.bind]

/-- A successful sequence is a successful first part followed by a successful second. -/
theorem bind_ok {x : EStateM ε σ α} (h : (x >>= f) s = .ok b s') :
    ∃ a s₁, x s = .ok a s₁ ∧ f a s₁ = .ok b s' := by
  change EStateM.bind x f s = _ at h
  unfold EStateM.bind at h
  split at h
  · rename_i a s₁ hx
    exact ⟨a, s₁, hx, h⟩
  · cases h

/-- A sequence fails when its first part does, or when its second part does after it. -/
theorem bind_error {x : EStateM ε σ α} (h : (x >>= f) s = .error e s') :
    x s = .error e s' ∨ ∃ a s₁, x s = .ok a s₁ ∧ f a s₁ = .error e s' := by
  change EStateM.bind x f s = _ at h
  unfold EStateM.bind at h
  split at h
  · rename_i a s₁ hx
    exact .inr ⟨a, s₁, hx, h⟩
  · rename_i e₁ s₁ hx
    cases h
    exact .inl hx

/-- A test of the outcome of a run: it succeeds, with a value and state that pass. -/
def succeedsWith (r : EStateM.Result ε σ α) (p : α → σ → Bool) : Bool :=
  match r with
  | .ok a s => p a s
  | .error _ _ => false

theorem exists_of_succeedsWith {r : EStateM.Result ε σ α} {p : α → σ → Bool}
    (h : succeedsWith r p = true) : ∃ a s, r = .ok a s ∧ p a s = true := by
  cases r with
  | ok a s => exact ⟨a, s, rfl, h⟩
  | error e s => cases h

theorem exists_of_isOk (h : x.isOk = true) : ∃ a, x = .ok a := by
  cases x with
  | ok a => exact ⟨a, rfl⟩
  | error e => cases h

/-! ### Both ends -/

/-- From a state in `P` the computation returns into `Q` or fails into `E`. -/
def Leads (P : σ → Prop) (x : EStateM ε σ α) (Q : α → σ → Prop) (E : σ → Prop) : Prop :=
  ∀ s, P s → match x s with
    | .ok a s' => Q a s'
    | .error _ s' => E s'

section Leads

variable {P P' : σ → Prop} {Q Q' : α → σ → Prop} {E E' : σ → Prop}

variable {x : EStateM ε σ α}

variable {s' : σ} {a : α}

theorem Leads.ok (h : Leads P x Q E) {s : σ} (hs : P s) (hx : x s = .ok a s') : Q a s' := by
  simpa only [hx] using h s hs

theorem Leads.error (h : Leads P x Q E) {s : σ} {e : ε} (hs : P s) (hx : x s = .error e s') :
    E s' := by
  simpa only [hx] using h s hs

theorem Leads.pre (h : Leads P x Q E) (hP : ∀ s, P' s → P s) : Leads P' x Q E :=
  fun s hs => h s (hP s hs)

theorem Leads.post (h : Leads P x Q E) (hQ : ∀ a s, Q a s → Q' a s) (hE : ∀ s, E s → E' s) :
    Leads P x Q' E' := by
  intro s hs
  have hend := h s hs
  split at hend
  · exact hQ _ _ hend
  · exact hE _ hend

theorem leads_pure (h : ∀ s, P s → Q a s) : Leads P (pure a : EStateM ε σ α) Q E :=
  h

theorem leads_throw {e : ε} (h : ∀ s, P s → E s) : Leads P (throw e : EStateM ε σ α) Q E :=
  h

theorem leads_get : Leads P (get : EStateM ε σ σ) (fun a s => P s ∧ a = s) E :=
  fun _ hs => ⟨hs, rfl⟩

theorem leads_modify {f : σ → σ} {Q : Unit → σ → Prop} (h : ∀ s, P s → Q () (f s)) :
    Leads P (modify f : EStateM ε σ Unit) Q E :=
  h

theorem Leads.bind {x : EStateM ε σ β} {f : β → EStateM ε σ α} {R : β → σ → Prop}
    (hx : Leads P x R E) (hf : ∀ b, Leads (R b) (f b) Q E) : Leads P (x >>= f) Q E := by
  intro s hs
  have hfirst := hx s hs
  change match EStateM.bind x f s with | .ok a s' => Q a s' | .error _ s' => E s'
  unfold EStateM.bind
  split at hfirst
  · rename_i b s₁ hb
    simp only [hb]
    exact hf b s₁ hfirst
  · rename_i e s₁ he
    simp only [he]
    exact hfirst

theorem Leads.runIf {c : Bool} {x : EStateM ε σ Unit} (h : Leads P x (fun _ => P) E) :
    Leads P (runIf c x) (fun _ => P) E := by
  cases c with
  | true => exact h
  | false => exact leads_pure fun _ hs => hs

end Leads

end Orchestrator.Lib
