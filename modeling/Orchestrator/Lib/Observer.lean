import Orchestrator.Lib.Program

/-! # Lib — Observers

An observer of a run hears every call with its answer and keeps notes; it answers nothing and
changes nothing. The notes are a part of the world, so what is proved of every run of a world
with an observer is proved of the calls and answers of every run.

* `observed`: an environment with an observer.
* `Solo.Steps.forget`, `Solo.Steps.observe`: the runs with an observer are the runs.
* `Solo.steps_observed`: a script is a run with an observer.
-/

namespace Orchestrator.Lib

variable {Op : Type} {Ans : Op → Type} {W N : Type}

/-- The environment with an observer that notes a call and its answer. -/
def observed (A : Answers Op Ans W) (note : (op : Op) → Ans op → N → N) :
    Answers Op Ans (W × N) :=
  fun op x a x' => A op x.1 a x'.1 ∧ x'.2 = note op a x.2

namespace Solo

variable {A : Answers Op Ans W} {note : (op : Op) → Ans op → N → N} {boot : Nat → Prog Op Ans Unit}

/-- A run without its observer. -/
theorem Steps.forget {c c' : Solo Op Ans (W × N)} (h : Steps (observed A note) boot c c') :
    Steps A boot ⟨c.world.1, c.proc⟩ ⟨c'.world.1, c'.proc⟩ := by
  induction h with
  | refl => exact .refl _
  | more _ h ih =>
    cases h with
    | boot w n => exact .more ih (.boot _ _)
    | call h => exact .more ih (.call h.1)
    | stop w p => exact .more ih (.stop _ _)

/-- Every run can be observed. -/
theorem Steps.observe {c c' : Solo Op Ans W} (h : Steps A boot c c') (n : N) :
    ∃ n', Steps (observed A note) boot ⟨(c.world, n), c.proc⟩ ⟨(c'.world, n'), c'.proc⟩ := by
  induction h with
  | refl => exact ⟨n, .refl _⟩
  | more _ h ih =>
    obtain ⟨n', ih⟩ := ih
    cases h with
    | boot w k => exact ⟨n', .more ih (.boot _ _)⟩
    | @call w w' op next a h => exact ⟨note op a n', .more ih (.call ⟨h, rfl⟩)⟩
    | stop w p => exact ⟨n', .more ih (.stop _ _)⟩

/-- What an environment can do, a more liberal one can. -/
theorem Steps.mono {A' : Answers Op Ans W} {c c' : Solo Op Ans W} (h : Steps A boot c c')
    (hA : ∀ op w a w', A op w a w' → A' op w a w') : Steps A' boot c c' := by
  induction h with
  | refl => exact .refl _
  | more _ h ih =>
    cases h with
    | boot w n => exact .more ih (.boot _ _)
    | call h => exact .more ih (.call (hA _ _ _ _ h))
    | stop w p => exact .more ih (.stop _ _)

end Solo

section

variable {C : Type} (respond : (op : Op) → C → W → Ans op × W)
  (note : (op : Op) → Ans op → N → N)

/-- The answers to choices, with an observer. -/
def respondObserved (op : Op) (c : C) (x : W × N) : Ans op × (W × N) :=
  match respond op c x.1 with
  | (a, w) => (a, (w, note op a x.2))

/-- A script is a run with an observer. -/
theorem Solo.steps_observed {boot : Nat → Prog Op Ans Unit} (l : List (Nat × List C)) (x : W × N) :
    Solo.Steps (observed (fun op w a w' => ∃ c, respond op c w = (a, w')) note) boot ⟨x, none⟩
      ⟨Solo.script (respondObserved respond note) boot l x, none⟩ := by
  refine (Solo.steps_script (respondObserved respond note) l x).mono ?_
  rintro op w a w' ⟨c, hc⟩
  cases hc
  exact ⟨⟨c, rfl⟩, rfl⟩

end
end Orchestrator.Lib
