import Orchestrator.Lib.Join

/-! # Lib — Accounts

An account of a process: a state that is brought up to date at every call with its answer. What
holds of the account at the end, however the calls are answered, is proved along the process,
part by part, and is then known of each of its traces.

* `Prog.Leads.returns`, `Prog.Leads.halts`: the account of a trace.
* `Proc.leads_bind`, `Proc.leads_attempt`, `Proc.leads_mono`, `Proc.leads_invariant`: the rules.
  Those for a call, a return, a failure and the private state hold by definition.
* `Proc.leads_alone`, `Proc.leads_join`: parts that run side by side, with all the calls as the
  account.
-/

namespace Orchestrator.Lib

variable {Op : Type} {Ans : Op → Type} {W α β σ ε : Type} {f : W → Exchange Op Ans → W}
  {H : W → Prop} {w : W}

namespace Prog

/-- However the calls of a process are answered, the account that `f` keeps of them is in `Q`
where the process returns, and in `H` where it never does. -/
def Leads (f : W → Exchange Op Ans → W) (p : Prog Op Ans α) (Q : α → W → Prop) (H : W → Prop)
    (w : W) : Prop :=
  p.Always fun t out => out.elim (H (t.foldl f w)) fun a => Q a (t.foldl f w)

variable {p : Prog Op Ans α} {Q Q' : α → W → Prop} {t : List (Exchange Op Ans)}

theorem Leads.returns {a : α} (h : p.Leads f Q H w) (ht : p.Traces t a) : Q a (t.foldl f w) :=
  (always_iff.mp h).1 t a ht

theorem Leads.halts (h : p.Leads f Q H w) (ht : p.Halts t) : H (t.foldl f w) :=
  (always_iff.mp h).2 t ht

theorem leads_bind {g : α → Prog Op Ans β} {Q : β → W → Prop} :
    (p.bind g).Leads f Q H w ↔ p.Leads f (fun a => (g a).Leads f Q H) H w := by
  induction p generalizing w with
  | ret a => exact Iff.rfl
  | halt => exact Iff.rfl
  | call op next ih => exact forall_congr' fun r => ih r

theorem Leads.mono (h : p.Leads f Q H w) (hQ : ∀ a w', Q a w' → Q' a w') : p.Leads f Q' H w := by
  induction p generalizing w with
  | ret a => exact hQ a w h
  | halt => exact h
  | call op next ih => exact fun r => ih r (h r)

end Prog

namespace Proc

/-- The same for a computation, which returns into `Q` and fails into `E`. -/
def Leads (f : W → Exchange Op Ans → W) (x : Proc Op Ans σ ε α) (Q : α → σ → W → Prop)
    (E : ε → σ → W → Prop) (H : W → Prop) (s : σ) (w : W) : Prop :=
  (x s).Leads f (post Q E) H w

variable {x : Proc Op Ans σ ε α} {Q Q' : α → σ → W → Prop} {E E' : ε → σ → W → Prop} {s s' : σ}
  {t : List (Exchange Op Ans)}

theorem Leads.returns {a : α} (h : x.Leads f Q E H s w) (ht : x.Yields s t (.ok a) s') :
    Q a s' (t.foldl f w) :=
  Prog.Leads.returns (Q := post Q E) h ht

theorem Leads.fails {e : ε} (h : x.Leads f Q E H s w) (ht : x.Yields s t (.error e) s') :
    E e s' (t.foldl f w) :=
  Prog.Leads.returns (Q := post Q E) h ht

theorem leads_bind {g : α → Proc Op Ans σ ε β} {Q : β → σ → W → Prop} :
    (x >>= g).Leads f Q E H s w ↔ x.Leads f (fun a => (g a).Leads f Q E H) E H s w := by
  refine Prog.leads_bind.trans (iff_of_eq (congrArg (Prog.Leads f (x s) · H w) ?_))
  funext ⟨r, s'⟩ w'
  cases r <;> rfl

theorem leads_get_bind {g : σ → Proc Op Ans σ ε β} {Q : β → σ → W → Prop} :
    (get >>= g).Leads f Q E H s w ↔ (g s).Leads f Q E H s w := Iff.rfl

theorem leads_modify_bind {u : σ → σ} {g : Unit → Proc Op Ans σ ε β} {Q : β → σ → W → Prop} :
    (modify u >>= g).Leads f Q E H s w ↔ (g ()).Leads f Q E H (u s) w := Iff.rfl

theorem leads_attempt {Q : Except ε α → σ → W → Prop} :
    (attempt x).Leads f Q E H s w ↔
      x.Leads f (fun a => Q (.ok a)) (fun e => Q (.error e)) H s w := by
  refine Prog.leads_bind.trans (iff_of_eq (congrArg (Prog.Leads f (x s) · H w) ?_))
  funext ⟨r, s'⟩ w'
  cases r <;> rfl

theorem leads_mono (h : x.Leads f Q E H s w) (hQ : ∀ a s' w', Q a s' w' → Q' a s' w')
    (hE : ∀ e s' w', E e s' w' → E' e s' w') : x.Leads f Q' E' H s w := by
  refine Prog.Leads.mono h fun ⟨r, s'⟩ w' hout => ?_
  cases r with
  | ok a => exact hQ a s' w' hout
  | error e => exact hE e s' w' hout

/-- What every call keeps holds at the end. -/
theorem leads_invariant {I : W → Prop} (hI : ∀ w e, I w → I (f w e))
    (hQ : ∀ a s' w', I w' → Q a s' w') (hE : ∀ e s' w', I w' → E e s' w') (hH : ∀ w', I w' → H w')
    (hw : I w) : x.Leads f Q E H s w := by
  suffices h : ∀ p : Prog Op Ans (Except ε α × σ), p.Leads f (post Q E) H w from h (x s)
  intro p
  induction p generalizing w with
  | ret out =>
    obtain ⟨r, s'⟩ := out
    cases r with
    | ok a => exact hQ a s' w hw
    | error e => exact hE e s' w hw
  | halt => exact hH w hw
  | call op next ih => exact fun r => ih r (hI w _ hw)

/-! ### Parts that run side by side -/

/-- The calls of the parts so far. -/
def log (w : List (Exchange Op Ans)) (e : Exchange (Turn Op) (Turn.Answer Ans)) :
    List (Exchange Op Ans) :=
  w ++ calls [e]

section

variable {w : List (Exchange Op Ans)} {H : List (Exchange Op Ans) → Prop} {init : σ} {u : Unit}

theorem foldl_log (t : Schedule Op Ans) : t.foldl log w = w ++ calls t := by
  induction t generalizing w with
  | nil => exact (List.append_nil w).symm
  | cons e t ih =>
    rw [List.foldl_cons, ih, log, List.append_assoc, ← calls_append]
    rfl

/-- A part on its own. -/
theorem leads_alone {Q : α → Unit → List (Exchange Op Ans) → Prop}
    {E : ε → Unit → List (Exchange Op Ans) → Prop}
    (hok : ∀ t a s', x.Yields init t (.ok a) s' → Q a u (w ++ t))
    (herr : ∀ t e s', x.Yields init t (.error e) s' → E e u (w ++ t))
    (hhalt : ∀ t, (x init).Halts t → H (w ++ t)) : (alone init x).Leads log Q E H u w := by
  refine Prog.always_iff.mpr ⟨fun t (r, u') ht => ?_, fun t ht => ?_⟩
  · show post Q E _ (t.foldl log w)
    rw [foldl_log]
    obtain ⟨s₁, hx⟩ := yields_alone ht
    cases r with
    | ok a => exact hok _ a s₁ hx
    | error e => exact herr _ e s₁ hx
  · show H (t.foldl log w)
    rw [foldl_log]
    rcases Prog.halts_bind.mp ht with ht | ⟨_, _, _, -, -, hret⟩
    · exact hhalt _ (Prog.halts_alone ht)
    · cases hret

/-- Parts side by side: their traces are interleaved, or one of them never returns. -/
theorem leads_join {xs : List (Proc Op Ans σ ε α)}
    {Q : List α → Unit → List (Exchange Op Ans) → Prop}
    {E : ε → Unit → List (Exchange Op Ans) → Prop}
    (hok : ∀ x ∈ xs, ∀ t r s', x.Yields init t r s' → ∃ a, r = .ok a)
    (hjoin : ∀ (runs : List (List (Exchange Op Ans) × α)) (t : List (Exchange Op Ans)),
      List.Forall₂ (fun x run => ∃ s', x.Yields init run.1 (.ok run.2) s') xs runs →
        Interleaving (runs.map Prod.fst) t → Q (runs.map Prod.snd) u (w ++ t))
    (hhalt : ∀ x ∈ xs, ∀ t t', (x init).Halts t → t.Sublist t' → H (w ++ t')) :
    (join init xs).Leads log Q E H u w := by
  refine Prog.always_iff.mpr ⟨fun t (r, u') ht => ?_, fun t ht => ?_⟩
  · show post Q E _ (t.foldl log w)
    rw [foldl_log]
    obtain ⟨runs, hruns, hweave, rfl⟩ := yields_join hok ht
    exact hjoin runs _ hruns hweave
  · show H (t.foldl log w)
    rw [foldl_log]
    rcases Prog.halts_bind.mp ht with ht | ⟨_, _, _, -, -, hret⟩
    · obtain ⟨p, hp, t', ht', hsub⟩ := Prog.halts_join ht
      obtain ⟨x, hx, rfl⟩ := List.mem_map.mp hp
      exact hhalt x hx t' _ ht' hsub
    · cases hret

end

end Proc
end Orchestrator.Lib
