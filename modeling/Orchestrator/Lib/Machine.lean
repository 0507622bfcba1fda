import Mathlib.Logic.Basic

/-! # Lib — Machine

A machine takes actions, and an action that is not enabled has no next state. A run takes
actions that meet a condition on the state they are taken in; the condition is trivial for
the runs of the machine as it is.

* `Runs.invariant`: what every such step keeps, every such run keeps.
* `runs_exec`: a list of actions that evaluates is a run.
* `Logged`: runs of a machine whose steps give something back, with the log of the actions taken
  and what they gave; a condition may speak of the log so far.
-/

namespace Orchestrator.Lib

variable {S A : Type} {step : S → A → Option S} {C : S → A → Prop} {s t : S}

/-- The states reached from `s` by steps that meet `C`. -/
inductive Runs (step : S → A → Option S) (C : S → A → Prop) (s : S) : S → Prop where
  | refl : Runs step C s s
  | next {t u : S} {a : A} (h : Runs step C s t) (hc : C t a) (hs : step t a = some u) :
      Runs step C s u

/-- The condition every step meets. -/
abbrev Any : S → A → Prop := fun _ _ => True

namespace Runs

theorem invariant {I : S → Prop} (h : Runs step C s t) (h0 : I s)
    (hI : ∀ t a u, I t → C t a → step t a = some u → I u) : I t := by
  induction h with
  | refl => exact h0
  | next _ hc hs ih => exact hI _ _ _ ih hc hs

theorem trans {u : S} (h : Runs step C s t) (h' : Runs step C t u) : Runs step C s u := by
  induction h' with
  | refl => exact h
  | next _ hc hs ih => exact ih.next hc hs

end Runs

/-- Takes the actions in turn, as long as each meets the condition and is enabled. -/
def exec (step : S → A → Option S) (C : S → A → Prop) [∀ s a, Decidable (C s a)] :
    List A → S → Option S
  | [], s => some s
  | a :: as, s => if C s a then (step s a).bind (exec step C as) else none

theorem runs_exec [∀ s a, Decidable (C s a)] {as : List A} (h : exec step C as s = some t) :
    Runs step C s t := by
  induction as generalizing s with
  | nil =>
    cases h
    exact .refl
  | cons a as ih =>
    rw [exec] at h
    split at h
    · rename_i hc
      obtain ⟨u, hu, ht⟩ := Option.bind_eq_some_iff.mp h
      exact (Runs.next .refl hc hu).trans (ih ht)
    · cases h

/-! ### Runs with a log -/

section Log

variable {O : Type} {act : S → A → Option (S × O)} {L : List (A × O) → S → A → Prop}
  {log log' : List (A × O)}

/-- The states reached from `s` with what was done and given back on the way. -/
inductive Logged (act : S → A → Option (S × O)) (L : List (A × O) → S → A → Prop) (s : S) :
    List (A × O) → S → Prop where
  | refl : Logged act L s [] s
  | next {log : List (A × O)} {t u : S} {a : A} {o : O} (h : Logged act L s log t)
      (hc : L log t a) (hs : act t a = some (u, o)) : Logged act L s (log ++ [(a, o)]) u

theorem Logged.invariant {I : List (A × O) → S → Prop} (h : Logged act L s log t) (h0 : I [] s)
    (hI : ∀ log t a u o, I log t → L log t a → act t a = some (u, o) → I (log ++ [(a, o)]) u) :
    I log t := by
  induction h with
  | refl => exact h0
  | next _ hc hs ih => exact hI _ _ _ _ _ ih hc hs

/-- Takes the actions in turn, as long as each meets the condition and is enabled. -/
def record (act : S → A → Option (S × O)) (L : List (A × O) → S → A → Prop)
    [∀ log s a, Decidable (L log s a)] :
    List A → List (A × O) → S → Option (List (A × O) × S)
  | [], log, s => some (log, s)
  | a :: as, log, s =>
    if L log s a then
      match act s a with
      | some (t, o) => record act L as (log ++ [(a, o)]) t
      | none => none
    else none

theorem logged_record [∀ log s a, Decidable (L log s a)] {as : List A} {s₀ : S}
    (h₀ : Logged act L s₀ log s) (h : record act L as log s = some (log', t)) :
    Logged act L s₀ log' t := by
  induction as generalizing log s with
  | nil =>
    cases h
    exact h₀
  | cons a as ih =>
    rw [record] at h
    split at h
    · rename_i hc
      split at h
      · rename_i u o hs
        exact ih (h₀.next hc hs) h
      · cases h
    · cases h

end Log
end Orchestrator.Lib
