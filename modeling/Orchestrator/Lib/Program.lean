import Mathlib.Tactic.Common

/-! # Lib — Programs

Processes that work on a private state and call an environment: each call is answered, the
process continues with the answer, and it may be stopped between any two calls. The
environment is a relation between a call, the world before it, the answer and the world
after it, so an answer may depend on choices no process controls.

A program logic for such processes keeps two things apart: the postconditions of a normal
and of a failing return, which speak of the private state and the world, and a crash
invariant, which speaks of the world only and holds after every single call. What the logic
proves of a process is what holds in every world reached by starting it again and again and
stopping it anywhere.

* `Proc.wp_bind`, `Proc.wp_call`, `Proc.wp_attempt`, `Proc.wp_mono`: the rules.
* `Solo.invariant`: a crash invariant every start keeps holds in every reachable world.
-/

namespace Orchestrator.Lib

/-- A process: it returns, stops for good, or calls the environment and continues with the
answer. -/
inductive Prog (Op : Type) (Ans : Op → Type) (α : Type) where
  | ret (a : α)
  | halt
  | call (op : Op) (next : Ans op → Prog Op Ans α)

/-- How an environment answers calls: the call, the world before it, the answer and the
world after it. -/
abbrev Answers (Op : Type) (Ans : Op → Type) (W : Type) :=
  (op : Op) → W → Ans op → W → Prop

section

variable {Op : Type} {Ans : Op → Type} {W α β : Type}

namespace Prog

def bind : Prog Op Ans α → (α → Prog Op Ans β) → Prog Op Ans β
  | .ret a, f => f a
  | .halt, _ => .halt
  | .call op next, f => .call op fun r => (next r).bind f

/-- `p.Safe A I Q w`: run from `w`, the process keeps `I` at every call, and returns only
values and worlds in `Q`. -/
def Safe (A : Answers Op Ans W) (I : W → Prop) : Prog Op Ans α → (α → W → Prop) → W → Prop
  | .ret a, Q, w => Q a w
  | .halt, _, _ => True
  | .call op next, Q, w => ∀ r w', A op w r w' → I w' ∧ (next r).Safe A I Q w'

variable {A : Answers Op Ans W} {I : W → Prop}

variable {p : Prog Op Ans α} {w : W} {Q : α → W → Prop}

theorem safe_bind {f : α → Prog Op Ans β} {Q : β → W → Prop} :
    (p.bind f).Safe A I Q w ↔ p.Safe A I (fun a w' => (f a).Safe A I Q w') w := by
  induction p generalizing w with
  | ret a => exact Iff.rfl
  | halt => exact Iff.rfl
  | call op next ih =>
    constructor
    · intro h r w' hr
      exact ⟨(h r w' hr).1, (ih r).mp (h r w' hr).2⟩
    · intro h r w' hr
      exact ⟨(h r w' hr).1, (ih r).mpr (h r w' hr).2⟩

theorem Safe.mono {Q' : α → W → Prop} (h : p.Safe A I Q w) (hQ : ∀ a w', Q a w' → Q' a w') :
    p.Safe A I Q' w := by
  induction p generalizing w with
  | ret a => exact hQ a w h
  | halt => trivial
  | call op next ih =>
    intro r w' hr
    exact ⟨(h r w' hr).1, ih r (h r w' hr).2⟩

/-- Where a process and its world get to when it is never stopped. -/
inductive Undisturbed (A : Answers Op Ans W) (p : Prog Op Ans α) (w : W) :
    Prog Op Ans α → W → Prop where
  | start : Undisturbed A p w p w
  | call {op : Op} {next : Ans op → Prog Op Ans α} {r : Ans op} {w₁ w₂ : W}
      (h : Undisturbed A p w (.call op next) w₁) (hr : A op w₁ r w₂) :
      Undisturbed A p w (next r) w₂

variable {p' : Prog Op Ans α} {w' : W}

theorem Undisturbed.safe (h : Undisturbed A p w p' w') (hp : p.Safe A I Q w) :
    p'.Safe A I Q w' := by
  induction h with
  | start => exact hp
  | call _ hr ih => exact (ih _ _ hr).2

theorem Undisturbed.invariant (h : Undisturbed A p w p' w') (hp : p.Safe A I Q w) (hw : I w) :
    I w' := by
  cases h with
  | start => exact hw
  | call h hr => exact (h.safe hp _ _ hr).1

end Prog

/-! ### One process at a time -/

/-- A world with at most one live process. -/
structure Solo (Op : Type) (Ans : Op → Type) (W : Type) where
  world : W
  proc : Option (Prog Op Ans Unit)

namespace Solo

/-- The steps of a world in which a process is started only when none is live. A process
stops because it returned or because it was killed: nothing of it survives but the world. -/
inductive Step (A : Answers Op Ans W) (boot : Nat → Prog Op Ans Unit) :
    Solo Op Ans W → Solo Op Ans W → Prop where
  | boot (w : W) (n : Nat) : Step A boot ⟨w, none⟩ ⟨w, some (boot n)⟩
  | call {w w' : W} {op : Op} {next : Ans op → Prog Op Ans Unit} {r : Ans op}
      (h : A op w r w') : Step A boot ⟨w, some (.call op next)⟩ ⟨w', some (next r)⟩
  | stop (w : W) (p : Prog Op Ans Unit) : Step A boot ⟨w, some p⟩ ⟨w, none⟩

/-- Any number of steps. -/
inductive Steps (A : Answers Op Ans W) (boot : Nat → Prog Op Ans Unit) :
    Solo Op Ans W → Solo Op Ans W → Prop where
  | refl (c : Solo Op Ans W) : Steps A boot c c
  | more {c c₁ c' : Solo Op Ans W} (t : Steps A boot c c₁) (h : Step A boot c₁ c') :
      Steps A boot c c'

variable {A : Answers Op Ans W} {boot : Nat → Prog Op Ans Unit} {c : Solo Op Ans W}

variable {c' : Solo Op Ans W} {I : W → Prop}

theorem Steps.trans {c₁ : Solo Op Ans W} (h₁ : Steps A boot c c₁) (h₂ : Steps A boot c₁ c') :
    Steps A boot c c' := by
  induction h₂ with
  | refl => exact h₁
  | more _ h ih => exact .more ih h

/-- The live process, if any, is safe from here on. -/
def Live (A : Answers Op Ans W) (I : W → Prop) (c : Solo Op Ans W) : Prop :=
  I c.world ∧ ∀ p, c.proc = some p → p.Safe A I (fun _ _ => True) c.world

/-- **The crash rule.** An invariant of the world that every start keeps at every one of
its calls holds in every world reachable by starting, stopping and starting again. -/
theorem live (hboot : ∀ n w, I w → (boot n).Safe A I (fun _ _ => True) w) (hc : Live A I c)
    (h : Steps A boot c c') : Live A I c' := by
  induction h with
  | refl => exact hc
  | more _ h ih =>
    obtain ⟨hI, hp⟩ := ih
    cases h with
    | boot w n =>
      refine ⟨hI, fun p h => ?_⟩
      cases h
      exact hboot n w hI
    | @call w w' op next r hr =>
      obtain ⟨hI', hsafe⟩ := hp _ rfl r w' hr
      refine ⟨hI', fun p h => ?_⟩
      cases h
      exact hsafe
    | stop w p => exact ⟨hI, fun p h => by cases h⟩

theorem invariant (hboot : ∀ n w, I w → (boot n).Safe A I (fun _ _ => True) w) {w : W} (hw : I w)
    (h : Steps A boot ⟨w, none⟩ c) : I c.world :=
  (live hboot ⟨hw, fun p h => by cases h⟩ h).1

end Solo

/-! ### Scripted runs -/

section

variable {C : Type} (respond : (op : Op) → C → W → Ans op × W)

/-- The world after a process was given so many answers, one choice each, and stopped. -/
def Prog.drive : List C → Prog Op Ans α → W → W
  | _, .ret _, w => w
  | _, .halt, w => w
  | [], .call _ _, w => w
  | c :: cs, .call op next, w =>
    match respond op c w with
    | (r, w') => Prog.drive cs (next r) w'

/-- Processes started one after the other, each with its parameter and its choices. -/
def Solo.script (boot : Nat → Prog Op Ans Unit) : List (Nat × List C) → W → W
  | [], w => w
  | (n, cs) :: rest, w => Solo.script boot rest ((boot n).drive respond cs w)

variable {boot : Nat → Prog Op Ans Unit} {p p₁ : Prog Op Ans α} {w w₁ : W} {cs : List C}

theorem Solo.steps_drive (cs : List C) (p : Prog Op Ans Unit) (w : W) :
    Steps (fun op w r w' => ∃ c, respond op c w = (r, w')) boot ⟨w, some p⟩
      ⟨p.drive respond cs w, none⟩ := by
  induction cs generalizing p w with
  | nil => cases p <;> exact .more (.refl _) (.stop _ _)
  | cons c cs ih =>
    cases p with
    | ret a => exact .more (.refl _) (.stop _ _)
    | halt => exact .more (.refl _) (.stop _ _)
    | call op next => exact .trans (.more (.refl _) (.call ⟨c, rfl⟩)) (ih _ _)

/-- A process that is given answers is not disturbed by them. -/
theorem Prog.undisturbed_drive {A : Answers Op Ans W}
    (hA : ∀ c ∈ cs, ∀ op w, A op w (respond op c w).1 (respond op c w).2)
    (h : Undisturbed A p w p₁ w₁) : ∃ p', Undisturbed A p w p' (p₁.drive respond cs w₁) := by
  induction cs generalizing p₁ w₁ with
  | nil => cases p₁ <;> exact ⟨_, h⟩
  | cons c cs ih =>
    cases p₁ with
    | ret a => exact ⟨_, h⟩
    | halt => exact ⟨_, h⟩
    | call op next =>
      exact ih (fun c hc => hA c (List.mem_cons_of_mem _ hc))
        (.call h (hA c List.mem_cons_self op w₁))

/-- What a process returns after at most so many answers, one choice each, and the world then. -/
def Prog.returns : List C → Prog Op Ans α → W → Option (α × W)
  | _, .ret a, w => some (a, w)
  | c :: cs, .call op next, w =>
    match respond op c w with
    | (r, w') => Prog.returns cs (next r) w'
  | _, _, _ => none

theorem Prog.undisturbed_returns {w' : W} {a : α}
    (h : Undisturbed (fun op w r w' => ∃ c, respond op c w = (r, w')) p w p₁ w₁)
    (hr : p₁.returns respond cs w₁ = some (a, w')) :
    Undisturbed (fun op w r w' => ∃ c, respond op c w = (r, w')) p w (.ret a) w' := by
  induction cs generalizing p₁ w₁ with
  | nil =>
    cases p₁ with
    | ret b =>
      cases hr
      exact h
    | _ => cases hr
  | cons c cs ih =>
    cases p₁ with
    | ret b =>
      cases hr
      exact h
    | halt => cases hr
    | call op next => exact ih (.call h ⟨c, rfl⟩) hr

/-- A script is a run. -/
theorem Solo.steps_script (l : List (Nat × List C)) (w : W) :
    Steps (fun op w r w' => ∃ c, respond op c w = (r, w')) boot ⟨w, none⟩
      ⟨Solo.script respond boot l w, none⟩ := by
  induction l generalizing w with
  | nil => exact .refl _
  | cons entry rest ih =>
    exact .trans (.trans (.more (.refl _) (.boot w entry.1)) (steps_drive respond _ _ _)) (ih _)

end
end

/-! ### Processes with a private state and errors -/

/-- A computation of a process: it threads the private state, and keeps it when it fails. -/
def Proc (Op : Type) (Ans : Op → Type) (σ ε α : Type) : Type :=
  σ → Prog Op Ans (Except ε α × σ)

namespace Proc

variable {Op : Type} {Ans : Op → Type} {σ ε W α β : Type}

instance : Monad (Proc Op Ans σ ε) where
  pure a := fun s => .ret (.ok a, s)
  bind x f := fun s => (x s).bind fun out =>
    match out with
    | (.ok a, s') => f a s'
    | (.error e, s') => .ret (.error e, s')

/-- One call of the environment. -/
def call (op : Op) : Proc Op Ans σ ε (Ans op) := fun s => .call op fun r => .ret (.ok r, s)

def get : Proc Op Ans σ ε σ := fun s => .ret (.ok s, s)

def modify (f : σ → σ) : Proc Op Ans σ ε Unit := fun s => .ret (.ok (), f s)

def fail (e : ε) : Proc Op Ans σ ε α := fun s => .ret (.error e, s)

/-- The process is gone: a panic, or no fuel left. -/
def halt : Proc Op Ans σ ε α := fun _ => .halt

/-- Catches an error. The state keeps what the failed part did to it. -/
def attempt (x : Proc Op Ans σ ε α) : Proc Op Ans σ ε (Except ε α) := fun s =>
  (x s).bind fun out => .ret (.ok out.1, out.2)

/-- Passes an error value on. -/
def ofExcept : Except ε α → Proc Op Ans σ ε α
  | .ok a => pure a
  | .error e => fail e

/-- The two ways out of a computation, as one postcondition of its program. -/
def post (Q : α → σ → W → Prop) (E : ε → σ → W → Prop) (out : Except ε α × σ) (w : W) : Prop :=
  match out with
  | (.ok a, s) => Q a s w
  | (.error e, s) => E e s w

/-- `Wp A I x Q E s w`: from private state `s` and world `w`, the computation keeps `I` at
every call, returns only into `Q` and fails only into `E`. -/
def Wp (A : Answers Op Ans W) (I : W → Prop) (x : Proc Op Ans σ ε α)
    (Q : α → σ → W → Prop) (E : ε → σ → W → Prop) (s : σ) (w : W) : Prop :=
  (x s).Safe A I (post Q E) w

/-- Where the computation returns, `Q` holds, whatever it calls on the way. -/
abbrev Ensures (A : Answers Op Ans W) (x : Proc Op Ans σ ε α) (Q : α → σ → W → Prop) (s : σ)
    (w : W) : Prop :=
  Wp A (fun _ => True) x Q (fun _ _ _ => True) s w

variable {A : Answers Op Ans W} {I : W → Prop} {Q Q' : α → σ → W → Prop}
  {E E' : ε → σ → W → Prop} {s : σ} {w : W}

theorem wp_pure (a : α) : Wp A I (pure a) Q E s w ↔ Q a s w := Iff.rfl

variable {x : Proc Op Ans σ ε β}

theorem wp_bind {f : β → Proc Op Ans σ ε α} :
    Wp A I (x >>= f) Q E s w ↔ Wp A I x (fun b s' w' => Wp A I (f b) Q E s' w') E s w := by
  change ((x s).bind _).Safe A I (post Q E) w ↔ _
  rw [Prog.safe_bind]
  constructor
  · refine fun h => h.mono fun out w' hout => ?_
    match out with
    | (.ok b, s') => exact hout
    | (.error e, s') => exact hout
  · refine fun h => h.mono fun out w' hout => ?_
    match out with
    | (.ok b, s') => exact hout
    | (.error e, s') => exact hout

theorem wp_get {Q : σ → σ → W → Prop} : Wp A I get Q E s w ↔ Q s s w := Iff.rfl

theorem wp_modify {f : σ → σ} {Q : Unit → σ → W → Prop} :
    Wp A I (modify f) Q E s w ↔ Q () (f s) w := Iff.rfl

theorem wp_fail (e : ε) : Wp A I (fail e) Q E s w ↔ E e s w := Iff.rfl

theorem wp_halt : Wp A I halt Q E s w := trivial

theorem wp_mono {x : Proc Op Ans σ ε α} (h : Wp A I x Q E s w)
    (hQ : ∀ a s' w', Q a s' w' → Q' a s' w') (hE : ∀ e s' w', E e s' w' → E' e s' w') :
    Wp A I x Q' E' s w := by
  refine Prog.Safe.mono h fun out w' hout => ?_
  match out with
  | (.ok a, s') => exact hQ a s' w' hout
  | (.error e, s') => exact hE e s' w' hout

theorem wp_attempt {Q : Except ε β → σ → W → Prop} :
    Wp A I (attempt x) Q E s w ↔
      Wp A I x (fun b s' w' => Q (.ok b) s' w') (fun e s' w' => Q (.error e) s' w') s w := by
  change ((x s).bind _).Safe A I (post Q E) w ↔ _
  rw [Prog.safe_bind]
  constructor
  · refine fun h => h.mono fun out w' hout => ?_
    match out with
    | (.ok b, s') => exact hout
    | (.error e, s') => exact hout
  · refine fun h => h.mono fun out w' hout => ?_
    match out with
    | (.ok b, s') => exact hout
    | (.error e, s') => exact hout

theorem wp_ofExcept {r : Except ε α} :
    Wp A I (ofExcept r) Q E s w ↔
      (∀ a, r = .ok a → Q a s w) ∧ (∀ e, r = .error e → E e s w) := by
  cases r with
  | ok a => simp [ofExcept, wp_pure]
  | error e => simp [ofExcept, wp_fail]

end Proc
end Orchestrator.Lib
