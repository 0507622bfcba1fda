import Orchestrator.Lib.Program
import Orchestrator.Lib.Collections

/-! # Lib — Traces

What a process does, as the list of its calls with their answers. A trace says nothing about
the environment, so every answer is possible; what an environment guarantees is a property of
the trace as a whole. Processes that run side by side interleave their traces.

* `Prog.traces_bind`: the traces of a sequence are made of those of its parts.
* `Interleaving.split`, `Interleaving.sum`: what an interleaving keeps of its parts.
-/

namespace Orchestrator.Lib

variable {Op : Type} {Ans : Op → Type} {α β σ ε : Type}

/-- A call and its answer. -/
structure Exchange (Op : Type) (Ans : Op → Type) where
  op : Op
  answer : Ans op

/-- `p.Traces t a`: the process makes the calls of `t` and returns `a`. -/
inductive Prog.Traces : Prog Op Ans α → List (Exchange Op Ans) → α → Prop where
  | ret (a : α) : Traces (.ret a) [] a
  | call {op : Op} {next : Ans op → Prog Op Ans α} {t : List (Exchange Op Ans)} {a : α}
      (answer : Ans op) (h : (next answer).Traces t a) :
      Traces (.call op next) (⟨op, answer⟩ :: t) a

variable {p : Prog Op Ans α} {t : List (Exchange Op Ans)} {b : β} {a : α}

theorem Prog.traces_bind {f : α → Prog Op Ans β} :
    (p.bind f).Traces t b ↔ ∃ t₁ t₂ a, t = t₁ ++ t₂ ∧ p.Traces t₁ a ∧ (f a).Traces t₂ b := by
  constructor
  · intro h
    induction p generalizing t with
    | ret a => exact ⟨[], t, a, rfl, .ret a, h⟩
    | halt => cases h
    | call op next ih =>
      cases h with
      | call answer h =>
        obtain ⟨t₁, t₂, a, rfl, hp, hf⟩ := ih answer h
        exact ⟨⟨op, answer⟩ :: t₁, t₂, a, rfl, .call answer hp, hf⟩
  · rintro ⟨t₁, t₂, a, rfl, hp, hf⟩
    induction hp with
    | ret a => exact hf
    | call answer _ ih => exact .call answer (ih hf)

/-- The trace of a process that is answered by a function of the call and of its number. -/
def Prog.trace (answer : Nat → (op : Op) → Ans op) :
    Nat → Nat → Prog Op Ans α → Option (List (Exchange Op Ans) × α)
  | _, _, .ret a => some ([], a)
  | _, _, .halt => none
  | 0, _, .call _ _ => none
  | fuel + 1, i, .call op next =>
    (Prog.trace answer fuel (i + 1) (next (answer i op))).map fun (t, a) =>
      (⟨op, answer i op⟩ :: t, a)

variable {i : Nat} {R : α → β → Prop} {as : List α} {bs : List β}

theorem Prog.traces_of_trace {answer : Nat → (op : Op) → Ans op} {fuel : Nat}
    (h : p.trace answer fuel i = some (t, a)) : p.Traces t a := by
  induction fuel generalizing i p t with
  | zero =>
    cases p with
    | ret => cases h; exact .ret _
    | halt => cases h
    | call => cases h
  | succ fuel ih =>
    cases p with
    | ret => cases h; exact .ret _
    | halt => cases h
    | call op next =>
      obtain ⟨⟨t, a⟩, hnext, ht⟩ := Option.map_eq_some_iff.mp h
      cases ht
      exact .call _ (ih hnext)

namespace Proc

/-- `x.Yields s t out s'`: from private state `s`, the computation makes the calls of `t`, ends
with `out` and leaves `s'`. -/
def Yields (x : Proc Op Ans σ ε α) (s : σ) (t : List (Exchange Op Ans)) (out : Except ε α)
    (s' : σ) : Prop :=
  (x s).Traces t (out, s')

end Proc

/-! ### Side by side -/

theorem exists_of_forall₂ (h : List.Forall₂ R as bs) (ha : a ∈ as) : ∃ b ∈ bs, R a b := by
  induction h with
  | nil => cases ha
  | cons hr _ ih =>
    rcases List.mem_cons.mp ha with rfl | ha
    · exact ⟨_, List.mem_cons_self, hr⟩
    · obtain ⟨b, hb, hr⟩ := ih ha
      exact ⟨b, List.mem_cons_of_mem _ hb, hr⟩

theorem forall₂_getElem? (h : List.Forall₂ R as bs) (hb : bs[i]? = some b) :
    ∃ a, as[i]? = some a ∧ R a b := by
  induction h generalizing i with
  | nil => cases hb
  | cons hr _ ih =>
    cases i with
    | zero =>
      cases hb
      exact ⟨_, rfl, hr⟩
    | succ i => exact ih hb

/-- Related lists, with where their elements are from. -/
theorem forall₂_mem (h : List.Forall₂ R as bs) :
    List.Forall₂ (fun a b => a ∈ as ∧ b ∈ bs ∧ R a b) as bs := by
  induction h with
  | nil => exact .nil
  | cons hr _ ih =>
    refine .cons ⟨List.mem_cons_self, List.mem_cons_self, hr⟩ (ih.imp fun a b hab => ?_)
    exact ⟨List.mem_cons_of_mem _ hab.1, List.mem_cons_of_mem _ hab.2.1, hab.2.2⟩

/-- `t` takes the elements of the lists in some order that keeps the order of each list. -/
inductive Interleaving : List (List α) → List α → Prop where
  | nil {ts : List (List α)} (h : ∀ t ∈ ts, t = []) : Interleaving ts []
  | cons {ts : List (List α)} {i : Nat} {e : α} {rest t : List α} (h : ts[i]? = some (e :: rest))
      (ht : Interleaving (ts.set i rest) t) : Interleaving ts (e :: t)

theorem perm_flatten_set {ts : List (List α)} {e : α} {rest : List α}
    (h : ts[i]? = some (e :: rest)) : ts.flatten.Perm (e :: (ts.set i rest).flatten) := by
  induction ts generalizing i with
  | nil => cases h
  | cons u ts ih =>
    cases i with
    | zero =>
      cases h
      exact .refl _
    | succ i => exact ((ih h).append_left u).trans List.perm_middle

namespace Interleaving

variable {ts : List (List α)} {t : List α}

theorem perm (h : Interleaving ts t) : t.Perm ts.flatten := by
  induction h with
  | nil h => rw [List.flatten_eq_nil_iff.mpr h]
  | cons hi _ ih => exact (ih.cons _).trans (perm_flatten_set hi).symm

variable {e : α}

theorem mem (h : Interleaving ts t) {u : List α} (hu : u ∈ ts) (he : e ∈ u) : e ∈ t :=
  h.perm.mem_iff.mpr (List.mem_flatten_of_mem hu he)

/-- What follows an element in its list follows it in the interleaving. -/
theorem split (h : Interleaving ts t) {before after : List α} (ht : t = before ++ e :: after) :
    ∃ u ∈ ts, ∃ before' after', u = before' ++ e :: after' ∧ ∀ x ∈ after', x ∈ after := by
  induction h generalizing before with
  | nil => cases before <;> cases ht
  | @cons ts i e' rest t hi hrest ih =>
    have hlt := (List.getElem?_eq_some_iff.mp hi).1
    cases before with
    | nil =>
      cases ht
      refine ⟨_, List.mem_of_getElem? hi, [], rest, rfl, fun x hx => ?_⟩
      exact hrest.mem (List.mem_of_getElem? (List.getElem?_set_self hlt)) hx
    | cons b before =>
      cases ht
      obtain ⟨u, hu, before', after', rfl, hafter⟩ := ih rfl
      obtain ⟨j, hj⟩ := List.mem_iff_getElem?.mp hu
      rcases getElem?_set_eq_some hj with ⟨rfl, heq⟩ | ⟨-, hj⟩
      · exact ⟨_, List.mem_of_getElem? hi, e' :: before', after', by rw [heq]; rfl, hafter⟩
      · exact ⟨_, List.mem_of_getElem? hj, before', after', rfl, hafter⟩

theorem exists_mem (h : Interleaving ts t) (he : e ∈ t) : ∃ u ∈ ts, e ∈ u :=
  List.mem_flatten.mp (h.perm.mem_iff.mp he)

/-- A measure of the interleaving is that of its parts. -/
theorem sum (h : Interleaving ts t) (f : α → Nat) :
    (t.map f).sum = (ts.map fun u => (u.map f).sum).sum := by
  rw [(h.perm.map f).sum_nat, List.map_flatten, List.sum_flatten, List.map_map]
  rfl

end Interleaving
end Orchestrator.Lib
