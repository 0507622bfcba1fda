import Orchestrator.Lib.Trace

/-! # Lib — Joins

Processes that run side by side until all of them have returned, as one process. An additional
call asks which of two goes on, so a schedule is a part of what the environment answers, and
what holds however a process is answered holds for every schedule.

* `Prog.Always`: what holds at the end of a process however its calls are answered.
* `Prog.traces_join`: the traces of a join are interleavings of the traces of its parts.
* `Prog.halts_join`: a join that never returns has a part that does not.
-/

namespace Orchestrator.Lib

variable {Op : Type} {Ans : Op → Type} {α β σ ε : Type}

/-! ### Ends -/

namespace Prog

/-- `p.Halts t`: the process makes the calls of `t` and never returns. -/
inductive Halts : Prog Op Ans α → List (Exchange Op Ans) → Prop where
  | halt : Halts .halt []
  | call {op : Op} {next : Ans op → Prog Op Ans α} {t : List (Exchange Op Ans)}
      (answer : Ans op) (h : (next answer).Halts t) : Halts (.call op next) (⟨op, answer⟩ :: t)

/-- However its calls are answered, the process comes to an end in `Q`, with the calls it has
made and the value it returns if it does return. -/
def Always : Prog Op Ans α → (List (Exchange Op Ans) → Option α → Prop) → Prop
  | .ret a, Q => Q [] (some a)
  | .halt, Q => Q [] none
  | .call op next, Q => ∀ answer, (next answer).Always fun t out => Q (⟨op, answer⟩ :: t) out

variable {p : Prog Op Ans α}

theorem always_iff {Q : List (Exchange Op Ans) → Option α → Prop} :
    p.Always Q ↔ (∀ t a, p.Traces t a → Q t (some a)) ∧ ∀ t, p.Halts t → Q t none := by
  induction p generalizing Q with
  | ret a =>
    refine ⟨fun h => ⟨fun t a ht => ?_, fun t ht => ?_⟩, fun h => h.1 [] a (.ret a)⟩
    · cases ht
      exact h
    · cases ht
  | halt =>
    refine ⟨fun h => ⟨fun t a ht => ?_, fun t ht => ?_⟩, fun h => h.2 [] .halt⟩
    · cases ht
    · cases ht
      exact h
  | call op next ih =>
    constructor
    · intro h
      refine ⟨fun t a ht => ?_, fun t ht => ?_⟩
      · cases ht with
        | call answer ht => exact ((ih answer).mp (h answer)).1 _ a ht
      · cases ht with
        | call answer ht => exact ((ih answer).mp (h answer)).2 _ ht
    · intro h answer
      exact (ih answer).mpr
        ⟨fun t a ht => h.1 _ a (.call answer ht), fun t ht => h.2 _ (.call answer ht)⟩

theorem halts_bind {f : α → Prog Op Ans β} {t : List (Exchange Op Ans)} :
    (p.bind f).Halts t ↔
      p.Halts t ∨ ∃ t₁ t₂ a, t = t₁ ++ t₂ ∧ p.Traces t₁ a ∧ (f a).Halts t₂ := by
  constructor
  · intro h
    induction p generalizing t with
    | ret a => exact .inr ⟨[], t, a, rfl, .ret a, h⟩
    | halt =>
      cases h
      exact .inl .halt
    | call op next ih =>
      cases h with
      | call answer h =>
        rcases ih answer h with h | ⟨t₁, t₂, a, rfl, hp, hf⟩
        · exact .inl (.call answer h)
        · exact .inr ⟨⟨op, answer⟩ :: t₁, t₂, a, rfl, .call answer hp, hf⟩
  · rintro (h | ⟨t₁, t₂, a, rfl, hp, hf⟩)
    · induction h with
      | halt => exact .halt
      | call answer _ ih => exact .call answer ih
    · induction hp with
      | ret a => exact hf
      | call answer _ ih => exact .call answer (ih hf)

end Prog

/-! ### Turns -/

/-- The calls of a process that has parts: those of its parts, and the question which of two
goes on. -/
inductive Turn (Op : Type) where
  | call (op : Op)
  | next

/-- Whether the first of the two goes on. -/
abbrev Turn.Answer (Ans : Op → Type) : Turn Op → Type
  | .call op => Ans op
  | .next => Bool

abbrev Schedule (Op : Type) (Ans : Op → Type) : Type := List (Exchange (Turn Op) (Turn.Answer Ans))

/-- The call of a part, if it is one. -/
def Exchange.ofTurn : Exchange (Turn Op) (Turn.Answer Ans) → Option (Exchange Op Ans)
  | ⟨.call op, answer⟩ => some ⟨op, answer⟩
  | ⟨.next, _⟩ => none

/-- The calls of the parts. -/
def calls (t : Schedule Op Ans) : List (Exchange Op Ans) := t.filterMap Exchange.ofTurn

@[simp] theorem calls_nil : calls ([] : Schedule Op Ans) = [] := rfl

@[simp] theorem calls_call (op : Op) (answer : Ans op) (t : Schedule Op Ans) :
    calls (⟨.call op, answer⟩ :: t) = ⟨op, answer⟩ :: calls t := rfl

@[simp] theorem calls_append (t u : Schedule Op Ans) : calls (t ++ u) = calls t ++ calls u :=
  List.filterMap_append

theorem calls_cons_sublist (e : Exchange (Turn Op) (Turn.Answer Ans)) {t u : Schedule Op Ans}
    (h : (calls t).Sublist (calls u)) : (calls (e :: t)).Sublist (calls (e :: u)) := by
  obtain ⟨op, answer⟩ := e
  cases op with
  | call op => exact h.cons_cons _
  | next => exact h

theorem sublist_calls_cons (e : Exchange (Turn Op) (Turn.Answer Ans)) (t : Schedule Op Ans) :
    (calls t).Sublist (calls (e :: t)) := by
  obtain ⟨op, answer⟩ := e
  cases op with
  | call op => exact List.sublist_cons_self _ _
  | next => exact .refl _

/-! ### Two lists woven into one -/

/-- `t` takes the elements of `u` and of `v`, those of each in their order. -/
inductive Weave : List α → List α → List α → Prop where
  | nil : Weave [] [] []
  | left {u v t : List α} (e : α) (h : Weave u v t) : Weave (e :: u) v (e :: t)
  | right {u v t : List α} (e : α) (h : Weave u v t) : Weave u (e :: v) (e :: t)

namespace Weave

variable {u v t : List α}

theorem nil_left (v : List α) : Weave [] v v := by
  induction v with
  | nil => exact .nil
  | cons e v ih => exact .right e ih

end Weave

theorem Interleaving.cons_iff {u : List α} {us : List (List α)} {t : List α} :
    Interleaving (u :: us) t ↔ ∃ w, Weave u w t ∧ Interleaving us w := by
  constructor
  · intro h
    generalize hts : u :: us = ts at h
    induction h generalizing u us with
    | nil hnil =>
      subst hts
      rw [hnil u List.mem_cons_self]
      exact ⟨[], .nil, .nil fun t ht => hnil t (List.mem_cons_of_mem _ ht)⟩
    | @cons ts i e rest t hi _ ih =>
      subst hts
      cases i with
      | zero =>
        cases hi
        obtain ⟨w, hw, hus⟩ := ih rfl
        exact ⟨w, .left e hw, hus⟩
      | succ i =>
        obtain ⟨w, hw, hus⟩ := ih rfl
        exact ⟨e :: w, .right e hw, .cons hi hus⟩
  · rintro ⟨w, hw, hus⟩
    induction hw generalizing us with
    | nil =>
      cases hus with
      | nil hnil => exact .nil fun t ht => (List.mem_cons.mp ht).elim id (hnil t)
    | left e _ ih => exact .cons (i := 0) rfl (ih hus)
    | right e _ ih =>
      cases hus with
      | @cons _ i _ rest _ hi hus => exact .cons (i := i + 1) hi (ih hus)

/-! ### Processes side by side -/

namespace Prog

/-- A process on its own. -/
def alone : Prog Op Ans α → Prog (Turn Op) (Turn.Answer Ans) α
  | .ret a => .ret a
  | .halt => .halt
  | .call op next => .call (.call op) fun answer => (next answer).alone

/-- A process that is about to call beside others: it goes on, or the others do. -/
def beside (op : Op)
    (next : Ans op → Prog (Turn Op) (Turn.Answer Ans) β → Prog (Turn Op) (Turn.Answer Ans) β) :
    Prog (Turn Op) (Turn.Answer Ans) β → Prog (Turn Op) (Turn.Answer Ans) β
  | .ret b => .call (.call op) fun answer => next answer (.ret b)
  | .halt => .call (.call op) fun answer => next answer .halt
  | .call other rest => .call .next fun (first : Bool) =>
    if first then .call (.call op) fun answer => next answer (.call other rest)
    else .call other fun answer => beside op next (rest answer)

/-- A process and others side by side, until all have returned. -/
def par : Prog Op Ans α → Prog (Turn Op) (Turn.Answer Ans) (List α) →
    Prog (Turn Op) (Turn.Answer Ans) (List α)
  | .ret a, others => others.bind fun as => .ret (a :: as)
  | .halt, others => others.bind fun _ => .halt
  | .call op next, others => beside op (fun answer others => (next answer).par others) others

/-- Processes side by side, until all have returned. -/
def join : List (Prog Op Ans α) → Prog (Turn Op) (Turn.Answer Ans) (List α)
  | [] => .ret []
  | p :: ps => p.par (join ps)

variable {t : Schedule Op Ans}

variable {p : Prog Op Ans α}

theorem traces_alone {a : α} (h : p.alone.Traces t a) : p.Traces (calls t) a := by
  induction p generalizing t with
  | ret a =>
    cases h
    exact .ret _
  | halt => cases h
  | call op next ih =>
    cases h with
    | call answer h =>
      rw [calls_call]
      exact @Traces.call Op Ans α op next _ _ answer (ih answer h)

theorem halts_alone (h : p.alone.Halts t) : p.Halts (calls t) := by
  induction p generalizing t with
  | ret a => cases h
  | halt =>
    cases h
    exact .halt
  | call op next ih =>
    cases h with
    | call answer h =>
      rw [calls_call]
      exact @Halts.call Op Ans α op next _ answer (ih answer h)

section

variable {others : Prog (Turn Op) (Turn.Answer Ans) (List α)}

-- Induction on the process, and where it is about to call on the others.
variable {p : Prog Op Ans α}

theorem traces_par {t : Schedule Op Ans} {as : List α} (h : (p.par others).Traces t as) :
    ∃ u v a rest, as = a :: rest ∧ p.Traces u a ∧ others.Traces v rest ∧
      Weave u (calls v) (calls t) := by
  induction p generalizing others t with
  | ret a =>
    obtain ⟨t₁, t₂, rest, rfl, hothers, hret⟩ := traces_bind.mp h
    cases hret
    rw [List.append_nil]
    exact ⟨[], t₁, a, rest, rfl, .ret a, hothers, .nil_left _⟩
  | halt =>
    obtain ⟨t₁, t₂, rest, -, -, hhalt⟩ := traces_bind.mp h
    cases hhalt
  | call op next ih =>
    -- The process makes its call: the induction hypothesis goes on with the others as they are.
    have hstep : ∀ {others : Prog (Turn Op) (Turn.Answer Ans) (List α)} {t : Schedule Op Ans}
        (answer : Ans op), ((next answer).par others).Traces t as →
        ∃ u v a rest, as = a :: rest ∧ (Prog.call op next).Traces u a ∧ others.Traces v rest ∧
          Weave u (calls v) (calls (⟨.call op, answer⟩ :: t)) := by
      intro others t answer h
      obtain ⟨u, v, a, rest, rfl, hp, hothers, hw⟩ := ih answer h
      exact ⟨_, v, a, rest, rfl, .call answer hp, hothers, .left _ hw⟩
    change (beside op (fun answer others => (next answer).par others) others).Traces t as at h
    induction others generalizing t with
    | ret rest =>
      cases h with
      | call answer h => exact hstep answer h
    | halt =>
      cases h with
      | call answer h => exact hstep answer h
    | call other rest ihothers =>
      cases h with
      | call first h =>
        cases first with
        | true =>
          cases h with
          | call answer h => exact hstep answer h
        | false =>
          cases h with
          | call answer h =>
            obtain ⟨u, v, a, rest, rfl, hp, hothers, hw⟩ := ihothers answer h
            refine ⟨u, ⟨other, answer⟩ :: v, a, rest, rfl, hp, .call answer hothers, ?_⟩
            cases other with
            | call other => exact .right _ hw
            | next => exact hw

theorem halts_par {t : Schedule Op Ans} (h : (p.par others).Halts t) :
    (∃ u, p.Halts u ∧ u.Sublist (calls t)) ∨
      ∃ v, others.Halts v ∧ (calls v).Sublist (calls t) := by
  induction p generalizing others t with
  | ret a =>
    rcases halts_bind.mp h with h | ⟨t₁, t₂, rest, -, -, hret⟩
    · exact .inr ⟨t, h, .refl _⟩
    · cases hret
  | halt => exact .inl ⟨[], .halt, List.nil_sublist _⟩
  | call op next ih =>
    have hstep : ∀ {others : Prog (Turn Op) (Turn.Answer Ans) (List α)} {t : Schedule Op Ans}
        (answer : Ans op), ((next answer).par others).Halts t →
        (∃ u, (Prog.call op next).Halts u ∧ u.Sublist (calls (⟨.call op, answer⟩ :: t))) ∨
          ∃ v, others.Halts v ∧ (calls v).Sublist (calls (⟨.call op, answer⟩ :: t)) := by
      intro others t answer h
      rcases ih answer h with ⟨u, hu, hsub⟩ | ⟨v, hv, hsub⟩
      · exact .inl ⟨_, .call answer hu, hsub.cons_cons _⟩
      · exact .inr ⟨v, hv, hsub.cons _⟩
    change (beside op (fun answer others => (next answer).par others) others).Halts t at h
    induction others generalizing t with
    | ret rest =>
      cases h with
      | call answer h => exact hstep answer h
    | halt => exact .inr ⟨[], .halt, List.nil_sublist _⟩
    | call other rest ihothers =>
      cases h with
      | call first h =>
        cases first with
        | true =>
          cases h with
          | call answer h => exact hstep answer h
        | false =>
          cases h with
          | call answer h =>
            rcases ihothers answer h with ⟨u, hu, hsub⟩ | ⟨v, hv, hsub⟩
            · exact .inl ⟨u, hu, hsub.trans (sublist_calls_cons ⟨other, answer⟩ _)⟩
            · exact .inr ⟨_, .call answer hv, calls_cons_sublist ⟨other, answer⟩ hsub⟩

end

variable {ps : List (Prog Op Ans α)}

/-- The traces of processes side by side are interleavings of their traces. -/
theorem traces_join {as : List α} (h : (join ps).Traces t as) :
    ∃ runs : List (List (Exchange Op Ans) × α),
      List.Forall₂ (fun p run => p.Traces run.1 run.2) ps runs ∧
        Interleaving (runs.map Prod.fst) (calls t) ∧ as = runs.map Prod.snd := by
  induction ps generalizing t as with
  | nil =>
    cases h
    exact ⟨[], .nil, .nil (by simp), rfl⟩
  | cons p ps ih =>
    obtain ⟨u, v, a, rest, rfl, hp, hothers, hw⟩ := traces_par h
    obtain ⟨runs, hruns, hweave, rfl⟩ := ih hothers
    exact ⟨(u, a) :: runs, .cons hp hruns, Interleaving.cons_iff.mpr ⟨_, hw, hweave⟩, rfl⟩

/-- Processes side by side that never all return have one that does not. -/
theorem halts_join (h : (join ps).Halts t) : ∃ p ∈ ps, ∃ u, p.Halts u ∧ u.Sublist (calls t) := by
  induction ps generalizing t with
  | nil => cases h
  | cons p ps ih =>
    rcases halts_par h with ⟨u, hu, hsub⟩ | ⟨v, hv, hsub⟩
    · exact ⟨p, List.mem_cons_self, u, hu, hsub⟩
    · obtain ⟨q, hq, u, hu, hsub'⟩ := ih hv
      exact ⟨q, List.mem_cons_of_mem _ hq, u, hu, hsub'.trans hsub⟩

end Prog

/-! ### Computations -/

namespace Proc

/-- A computation on its own, from a private state of its own. -/
def alone (init : σ) (x : Proc Op Ans σ ε α) : Proc (Turn Op) (Turn.Answer Ans) Unit ε α :=
  fun s => (x init).alone.bind fun out => .ret (out.1, s)

/-- The values of computations that have all returned one, or the first error. -/
def collect : List (Except ε α × σ) → Except ε (List α)
  | [] => .ok []
  | (.ok a, _) :: rest => (collect rest).map (a :: ·)
  | (.error e, _) :: _ => .error e

/-- Computations side by side, each from a private state of its own. -/
def join (init : σ) (xs : List (Proc Op Ans σ ε α)) :
    Proc (Turn Op) (Turn.Answer Ans) Unit ε (List α) :=
  fun s => (Prog.join (xs.map (· init))).bind fun outs => .ret (collect outs, s)

variable {init : σ} {t : Schedule Op Ans} {s s' : Unit}

theorem yields_alone {x : Proc Op Ans σ ε α} {out : Except ε α}
    (h : (alone init x).Yields s t out s') : ∃ s₁, x.Yields init (calls t) out s₁ := by
  obtain ⟨t₁, t₂, ⟨r, s₁⟩, rfl, hx, hret⟩ := Prog.traces_bind.mp h
  cases hret
  rw [List.append_nil]
  exact ⟨s₁, Prog.traces_alone hx⟩

/-- What computations side by side return: the values of an interleaving of their traces. -/
theorem yields_join {xs : List (Proc Op Ans σ ε α)} {out : Except ε (List α)}
    (hok : ∀ x ∈ xs, ∀ u r s₁, x.Yields init u r s₁ → ∃ a, r = .ok a)
    (h : (join init xs).Yields s t out s') :
    ∃ runs : List (List (Exchange Op Ans) × α),
      List.Forall₂ (fun x run => ∃ s₁, x.Yields init run.1 (.ok run.2) s₁) xs runs ∧
        Interleaving (runs.map Prod.fst) (calls t) ∧ out = .ok (runs.map Prod.snd) := by
  obtain ⟨t₁, t₂, outs, rfl, hjoin, hret⟩ := Prog.traces_bind.mp h
  cases hret
  obtain ⟨runs, hruns, hweave, rfl⟩ := Prog.traces_join hjoin
  rw [List.forall₂_map_left_iff] at hruns
  rw [List.append_nil]
  suffices hvalues : ∃ values : List (List (Exchange Op Ans) × α),
      List.Forall₂ (fun x run => ∃ s₁, x.Yields init run.1 (.ok run.2) s₁) xs values ∧
        values.map Prod.fst = runs.map Prod.fst ∧
        collect (runs.map Prod.snd) = .ok (values.map Prod.snd) by
    obtain ⟨values, hvalues, hfst, hsnd⟩ := hvalues
    exact ⟨values, hvalues, hfst ▸ hweave, hsnd⟩
  clear hjoin hweave h
  induction hruns with
  | nil => exact ⟨[], .nil, rfl, rfl⟩
  | @cons x run xs runs hx _ ih =>
    obtain ⟨u, r, s₁⟩ := run
    obtain ⟨a, rfl⟩ := hok x List.mem_cons_self _ _ _ hx
    obtain ⟨values, hvalues, hfst, hsnd⟩ := ih fun y hy => hok y (List.mem_cons_of_mem _ hy)
    refine ⟨(u, a) :: values, .cons ⟨s₁, hx⟩ hvalues, by rw [List.map_cons, hfst]; rfl, ?_⟩
    simp only [List.map_cons, collect, hsnd]
    rfl

end Proc
end Orchestrator.Lib
