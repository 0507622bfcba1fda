import Orchestrator.Sched.SlotAccounting

/-! # Sched — Slot order

Whether the calls that wait are served before the ones that come later. A drop frees its slot
in one section and looks at the queue in another, and the fast path of a call only looks at
`free`, so a later call can take the slot in between. Where this synchronous code runs to its end
before anybody else takes a section, as on a runtime of one thread, the order holds, and so it
does where sections run beside it only while nobody is still to be served.

* `served_in_order`: every serial run serves first come, first served.
* `overtaken`: a run in which a later call takes the slot a waiter was to get.
-/

namespace Orchestrator.Sched

open Lib

/-- A call that begins after another one was enqueued gets its permit after that one did, or
after that one gave up. -/
def Fifo (log : List Event) : Prop :=
  ∀ before c, before ++ [Event.obtained c] <+: log → ∀ w,
    Precedes before (.enqueued w) (.began c) → .obtained w ∈ before ∨ .cancelled w ∈ before

theorem fifo_concat {log : List Event} {e : Event} (h : Fifo log)
    (he : ∀ c, e = .obtained c → ∀ w, Precedes log (.enqueued w) (.began c) →
      .obtained w ∈ log ∨ .cancelled w ∈ log) : Fifo (log ++ [e]) := by
  intro before c hp w hw
  rcases List.prefix_concat_iff.mp hp with heq | hp
  · obtain ⟨rfl, he'⟩ := List.append_inj' heq rfl
    exact he c (by simpa using he'.symm) w hw
  · exact h before c hp w hw

/-! ### The queue and the log -/

/-- The calls of `queue` are those that the log says are still to be served, in the order in
which they were enqueued. -/
structure Ordered (log : List Event) (calls : List Phase) (queue : List Nat) : Prop where
  fifo : Fifo log
  known : ∀ w, .enqueued w ∈ log → w < calls.length
  fresh : ∀ (c : Nat) (p : Phase), calls[c]? = some p → p.early → .enqueued c ∉ log
  began : ∀ c, ¬ Precedes log (.enqueued c) (.began c)
  enqueued : ∀ w ∈ queue, .enqueued w ∈ log
  served : ∀ w, .enqueued w ∈ log → .obtained w ∈ log ∨ .cancelled w ∈ log ∨ w ∈ queue
  live : ∀ w ∈ queue, calls[w]? = some .waiting ∨ .cancelled w ∈ log
  sorted : queue.Pairwise fun x y => x ≠ y ∧ ¬ Precedes log (.enqueued y) (.enqueued x)

namespace Ordered

variable {log : List Event} {calls : List Phase} {queue : List Nat} {c w : Nat} {p p' : Phase}

theorem live_of_ne (h : Ordered log calls queue) (hw : w ∈ queue) (hne : c ≠ w) :
    (calls.set c p)[w]? = some .waiting ∨ .cancelled w ∈ log := by
  rw [List.getElem?_set_ne hne]
  exact h.live w hw

/-- Only an early call is enqueued. -/
theorem fresh_set (h : Ordered log calls queue) (p' : Phase) (hc : calls[c]? = some p)
    (hearly : p'.early → p.early) (c' : Nat) (q : Phase) (hq : (calls.set c p')[c']? = some q)
    (hq' : q.early) : .enqueued c' ∉ log := by
  rcases getElem?_set_eq_some hq with ⟨rfl, rfl⟩ | ⟨-, hq⟩
  · exact h.fresh c' p hc (hearly hq')
  · exact h.fresh c' q hq hq'

/-- A call that was not waiting moves on. -/
theorem setCall (h : Ordered log calls queue) (hc : calls[c]? = some p) (hp : p ≠ .waiting)
    (hearly : p'.early → p.early) : Ordered log (calls.set c p') queue :=
  { h with
    known := by simpa using h.known
    fresh := h.fresh_set p' hc hearly
    live := by
      intro w hw
      by_cases hcw : c = w
      · subst hcw
        refine (h.live c hw).imp_left fun hwait => absurd ?_ hp
        exact Option.some.inj (hc.symm.trans hwait)
      · exact h.live_of_ne hw hcw }

theorem began_concat {e : Event} (h : Ordered log calls queue)
    (he : ∀ c, e = .began c → .enqueued c ∉ log) (c : Nat) :
    ¬ Precedes (log ++ [e]) (.enqueued c) (.began c) := by
  rw [Precedes.concat]
  rintro (hp | ⟨hm, hb⟩)
  · exact h.began c hp
  · exact he c hb.symm hm

theorem sorted_concat {e : Event} (h : Ordered log calls queue)
    (he : ∀ w ∈ queue, e ≠ .enqueued w) :
    queue.Pairwise fun x y => x ≠ y ∧ ¬ Precedes (log ++ [e]) (.enqueued y) (.enqueued x) := by
  refine h.sorted.imp_of_mem fun hx _ hxy => ⟨hxy.1, ?_⟩
  rw [Precedes.concat]
  rintro (hp | ⟨-, hx'⟩)
  · exact hxy.2 hp
  · exact he _ hx hx'.symm

/-- A call gives up, or its permit goes back. -/
theorem cancel (h : Ordered log calls queue) (hc : calls[c]? = some p) :
    Ordered (log ++ [.cancelled c]) (calls.set c .finished) queue where
  fifo := fifo_concat h.fifo fun _ he => by cases he
  known := by simpa using h.known
  fresh := by simpa using h.fresh_set .finished hc (by simp [Phase.early])
  began := h.began_concat fun _ he => by cases he
  enqueued := by simpa using h.enqueued
  served := by
    intro w hw
    have := h.served w (by simpa using hw)
    simp only [List.mem_append]
    tauto
  live := by
    intro w hw
    by_cases hcw : c = w
    · subst hcw
      simp
    · exact (h.live_of_ne hw hcw).imp_right (List.mem_append_left _)
  sorted := h.sorted_concat fun _ _ he => by cases he

theorem begin (h : Ordered log calls queue) (call : Call) :
    Ordered (log ++ [.began calls.length]) (calls ++ [.begun call]) queue where
  fifo := fifo_concat h.fifo fun _ he => by cases he
  known := by
    intro w hw
    have := h.known w (by simpa using hw)
    rw [List.length_append]
    omega
  fresh := by
    intro c p hc hp
    have hfresh : .enqueued c ∉ log := by
      rcases getElem?_concat_eq_some hc with hc | ⟨rfl, -⟩
      · exact h.fresh c p hc hp
      · exact fun hm => absurd (h.known _ hm) (Nat.lt_irrefl _)
    simpa using hfresh
  began := h.began_concat fun c he hm => by
    cases he
    exact absurd (h.known _ hm) (Nat.lt_irrefl _)
  enqueued := by simpa using h.enqueued
  served := by simpa using h.served
  live := by
    intro w hw
    refine (h.live w hw).imp (fun hwait => ?_) (List.mem_append_left _)
    rw [List.getElem?_append_left (List.getElem?_eq_some_iff.mp hwait).1, hwait]
  sorted := h.sorted_concat fun _ _ he => by cases he

/-- A call is served at once while nobody is still to be served. -/
theorem grant (h : Ordered log calls []) (hc : calls[c]? = some p) :
    Ordered (log ++ [.obtained c]) (calls.set c .holding) [] where
  fifo := fifo_concat h.fifo fun _ _ w hw => by
    have := h.served w hw.mem_left
    simpa using this
  known := by simpa using h.known
  fresh := by simpa using h.fresh_set .holding hc (by simp [Phase.early])
  began := h.began_concat fun _ he => by cases he
  enqueued := by simp
  served := by
    intro w hw
    have := h.served w (by simpa using hw)
    simp only [List.mem_append]
    tauto
  live := by simp
  sorted := .nil

theorem enqueue (h : Ordered log calls queue) (hc : calls[c]? = some p) (hp : p.early) :
    Ordered (log ++ [.enqueued c]) (calls.set c .waiting) (queue ++ [c]) := by
  have hfresh := h.fresh c p hc hp
  have hqueue : c ∉ queue := fun hm => hfresh (h.enqueued c hm)
  exact
  { fifo := fifo_concat h.fifo fun _ he => by cases he
    known := by
      intro w hw
      rcases List.mem_append.mp hw with hw | hw
      · simpa using h.known w hw
      · cases List.mem_singleton.mp hw
        simpa using (List.getElem?_eq_some_iff.mp hc).1
    fresh := by
      intro c' q hq hq'
      rcases getElem?_set_eq_some hq with ⟨-, rfl⟩ | ⟨hne, hq⟩
      · cases hq'
      · simpa [hne] using h.fresh c' q hq hq'
    began := h.began_concat fun _ he => by cases he
    enqueued := by
      intro w hw
      rcases List.mem_append.mp hw with hw | hw
      · exact List.mem_append_left _ (h.enqueued w hw)
      · cases List.mem_singleton.mp hw
        simp
    served := by
      intro w hw
      simp only [List.mem_append, List.mem_singleton] at hw ⊢
      rcases hw with hw | hw
      · have := h.served w hw
        tauto
      · cases hw
        tauto
    live := by
      intro w hw
      rcases List.mem_append.mp hw with hw | hw
      · have hne : c ≠ w := fun he => hqueue (he ▸ hw)
        exact (h.live_of_ne hw hne).imp_right (List.mem_append_left _)
      · cases List.mem_singleton.mp hw
        exact .inl (List.getElem?_set_self (List.getElem?_eq_some_iff.mp hc).1)
    sorted := by
      have hold := h.sorted_concat (e := .enqueued c) fun w hw he => by
        cases he
        exact hqueue hw
      refine List.pairwise_append.mpr ⟨hold, List.pairwise_singleton .., fun x hx y hy => ?_⟩
      cases List.mem_singleton.mp hy
      have hne : x ≠ c := fun he => hqueue (he ▸ hx)
      refine ⟨hne, ?_⟩
      rw [Precedes.concat]
      rintro (hp | ⟨hm, -⟩)
      · exact hfresh hp.mem_left
      · exact hfresh hm }

/-- The head of the queue is served. -/
theorem send (h : Ordered log calls (w :: queue)) (hc : calls[w]? = some .waiting) :
    Ordered (log ++ [.obtained w]) (calls.set w .delivered) queue := by
  obtain ⟨hhead, htail⟩ := List.pairwise_cons.mp h.sorted
  have hfifo : ∀ x, Precedes log (.enqueued x) (.began w) →
      .obtained x ∈ log ∨ .cancelled x ∈ log := by
    intro x hx
    rcases h.served x hx.mem_left with hdone | hdone | hqueue
    · exact .inl hdone
    · exact .inr hdone
    · exfalso
      rcases List.mem_cons.mp hqueue with rfl | hqueue
      · exact h.began x hx
      -- `x` was enqueued before `w` began, so before `w` was, but it stands behind `w`.
      · refine (hhead x hqueue).2 (hx.of_not (h.enqueued w (by simp)) (by simp) (h.began w))
  exact
  { fifo := fifo_concat h.fifo fun c he x hx => by
      cases he
      exact hfifo x hx
    known := by simpa using h.known
    fresh := by simpa using h.fresh_set .delivered hc (by simp [Phase.early])
    began := h.began_concat fun _ he => by cases he
    enqueued := by
      intro x hx
      exact List.mem_append_left _ (h.enqueued x (List.mem_cons_of_mem _ hx))
    served := by
      intro x hx
      have := h.served x (by simpa using hx)
      simp only [List.mem_append, List.mem_cons] at this ⊢
      rcases this with hx | hx | rfl | hx <;> simp_all
    live := by
      intro x hx
      have := h.live_of_ne (p := .delivered) (List.mem_cons_of_mem _ hx) (hhead x hx).1
      exact this.imp_right (List.mem_append_left _)
    sorted := (List.pairwise_cons.mp (h.sorted_concat fun _ _ he => by cases he)).2 }

/-- The head of the queue has given up. -/
theorem skip (h : Ordered log calls (w :: queue)) (hc : calls[w]? ≠ some .waiting) :
    Ordered log calls queue :=
  { h with
    enqueued := fun x hx => h.enqueued x (List.mem_cons_of_mem _ hx)
    served := by
      intro x hx
      have hcancel := (h.live w (by simp)).resolve_left hc
      rcases h.served x hx with hx | hx | hx
      · exact .inl hx
      · exact .inr (.inl hx)
      · rcases List.mem_cons.mp hx with rfl | hx
        · exact .inr (.inl hcancel)
        · exact .inr (.inr hx)
    live := fun x hx => h.live x (List.mem_cons_of_mem _ hx)
    sorted := (List.pairwise_cons.mp h.sorted).2 }

end Ordered

/-- The waiter a thread has popped. -/
def Frame.waiter : Frame → Option Nat
  | .popped w => some w
  | _ => none

namespace View

variable {v v' : View} {a : Action} {t : Nat} {stack : List Frame}

/-- The synchronous code in progress. -/
def frames (v : View) : List Frame := v.threads.flatten

/-- The calls that are still to be served, in the order in which they will be. -/
def outstanding (v : View) : List Nat := v.frames.filterMap Frame.waiter ++ v.state.waiters

/-- Nobody takes a section of their own while synchronous code is in progress and a call is still
to be served. -/
def Serial (v : View) : Action → Prop
  | .begin _ | .receive _ | .run _ => True
  | .proceed _ | .cancel _ | .release _ | .drain _ _ => v.frames = [] ∨ v.outstanding = []

instance (v : View) : DecidablePred v.Serial
  | .begin _ | .receive _ | .run _ => isTrue trivial
  | .proceed _ | .cancel _ | .release _ | .drain _ _ =>
    inferInstanceAs (Decidable (v.frames = [] ∨ v.outstanding = []))

/-! ### One thread at a time -/

/-- Only thread `t` has code to run, and below its top frame passes wait. -/
structure Alone (v : View) (t : Nat) : Prop where
  others : ∀ (t' : Nat) (stack : List Frame), v.threads[t']? = some stack → t' ≠ t → stack = []
  below : ∀ f ∈ v.frames.tail, f = .waking

theorem Alone.frames_eq (h : v.Alone t) (ht : v.threads[t]? = some stack) : v.frames = stack :=
  flatten_eq_of_alone ht h.others

variable {f : Frame} {rest : List Frame}

theorem Alone.eq_of_cons {t' : Nat} (h : v.Alone t) (ht : v.threads[t']? = some (f :: rest)) :
    t' = t := by
  by_contra hne
  cases h.others t' _ ht hne

theorem Alone.setThread (h : v.Alone t) (ht : v.threads[t]? = some stack) {stack' : List Frame}
    (hs : ∀ f ∈ stack'.tail, f = .waking) : (v.setThread t stack').Alone t := by
  have hlt := (List.getElem?_eq_some_iff.mp ht).1
  have hothers : ∀ (t' : Nat) (s : List Frame), (v.setThread t stack').threads[t']? = some s →
      t' ≠ t → s = [] := by
    intro t' s hs hne
    exact h.others t' s (by rwa [View.setThread, List.getElem?_set_ne hne.symm] at hs) hne
  have hframes : (v.setThread t stack').frames = stack' :=
    flatten_eq_of_alone (List.getElem?_set_self hlt) hothers
  exact ⟨hothers, by rwa [hframes]⟩

theorem alone_of_nil (h : v.frames = []) (t : Nat) : v.Alone t :=
  ⟨fun _ _ hs _ => List.flatten_eq_nil_iff.mp h _ (List.mem_of_getElem? hs), by simp [h]⟩

theorem frames_spawn (v : View) (f : Frame) : (v.spawn f).frames = v.frames ++ [f] := by
  simp [frames, spawn]

theorem alone_spawn (h : v.frames = []) (f : Frame) : (v.spawn f).Alone v.threads.length := by
  refine ⟨fun t' s hs hne => ?_, by simp [frames_spawn, h]⟩
  rcases getElem?_concat_eq_some hs with hs | ⟨heq, -⟩
  · exact List.flatten_eq_nil_iff.mp h s (List.mem_of_getElem? hs)
  · exact absurd heq hne

/-- The frames of a thread among all of them. -/
theorem frames_split (ht : v.threads[t]? = some stack) : ∃ before after,
    v.frames = before ++ stack ++ after ∧
      ∀ stack', (v.setThread t stack').frames = before ++ stack' ++ after := by
  obtain ⟨hlt, hstack⟩ := List.getElem?_eq_some_iff.mp ht
  have hset : ∀ stack', (v.setThread t stack').frames =
      (v.threads.take t).flatten ++ stack' ++ (v.threads.drop (t + 1)).flatten := by
    intro stack'
    simp [frames, View.setThread, List.set_eq_take_append_cons_drop, hlt]
  refine ⟨_, _, ?_, hset⟩
  rw [← hset, View.setThread, ← hstack, List.set_getElem_self]

theorem passes_eq_zero (h : v.frames = []) : v.passes = 0 := by
  refine List.sum_eq_zero_iff_forall_eq_nat.mpr fun n hn => ?_
  obtain ⟨stack, hstack, rfl⟩ := List.mem_map.mp hn
  rw [List.flatten_eq_nil_iff.mp h stack hstack]
  rfl

/-- Waiting passes have popped nothing. -/
theorem waiter_of_waking (h : ∀ f ∈ rest, f = .waking) : rest.filterMap Frame.waiter = [] := by
  refine List.filterMap_eq_nil_iff.mpr fun f hf => ?_
  rw [h f hf]
  rfl

/-- One thread is at work, or one call at most is still to be served. -/
def Calm (v : View) : Prop := (∃ t, v.Alone t) ∨ v.outstanding.length ≤ 1

/-- What serial runs keep. -/
structure Orderly (v : View) : Prop where
  calm : v.Calm
  awake : v.Awake
  ordered : Ordered v.log v.calls v.outstanding

theorem Calm.congr (h : v.Calm) (ht : v'.threads = v.threads)
    (hw : v'.state.waiters = v.state.waiters) : v'.Calm := by
  have hframes : v'.frames = v.frames := by rw [frames, frames, ht]
  refine h.imp (fun ⟨t, ha⟩ => ⟨t, ht ▸ ha.others, hframes ▸ ha.below⟩) ?_
  rw [outstanding, outstanding, hframes, hw]
  exact id

/-- The thread whose top frame is `f` goes on with the frames `top` in its place. Where it holds a
call, or the queue does, no other frame does. -/
theorem Calm.advance (h : v.Calm) (ht : v.threads[t]? = some (f :: rest)) : ∃ before after,
    v.outstanding = before ++ f.waiter.toList ++ after ++ v.state.waiters ∧
    (f.waiter.toList ++ v.state.waiters ≠ [] → before = [] ∧ after = []) ∧
    ∀ s top, (∀ g ∈ top.tail, g = .waking) →
      (top.filterMap Frame.waiter ++ s.waiters).length ≤
        (f.waiter.toList ++ v.state.waiters).length →
      ((v.setState s).setThread t (top ++ rest)).outstanding =
        before ++ top.filterMap Frame.waiter ++ after ++ s.waiters ∧
      ((v.setState s).setThread t (top ++ rest)).Calm := by
  obtain ⟨before, after, hframes, hset⟩ := frames_split ht
  have hold : v.outstanding = before.filterMap Frame.waiter ++ f.waiter.toList ++
      (rest ++ after).filterMap Frame.waiter ++ v.state.waiters := by
    rw [outstanding, hframes]
    cases hw : f.waiter <;> simp [hw]
  have hbelow : ∀ {t'}, v.Alone t' → ∀ g ∈ rest, g = .waking := by
    intro t' ha g hg
    cases ha.eq_of_cons ht
    exact ha.below g (by rwa [ha.frames_eq ht])
  refine ⟨_, _, hold, fun hsome => ?_, fun s top htop hle => ?_⟩
  · rcases h with ⟨t', ha⟩ | hone
    · cases ha.eq_of_cons ht
      obtain ⟨rfl, rfl⟩ : before = [] ∧ after = [] := by
        have := congrArg List.length ((ha.frames_eq ht).symm.trans hframes)
        simp only [List.length_append] at this
        exact ⟨List.eq_nil_of_length_eq_zero (by omega), List.eq_nil_of_length_eq_zero (by omega)⟩
      exact ⟨rfl, by simpa using waiter_of_waking (hbelow ha)⟩
    · have hpos := List.length_pos_iff.mpr hsome
      rw [hold] at hone
      simp only [List.length_append] at hone hpos
      exact ⟨List.eq_nil_of_length_eq_zero (by omega), List.eq_nil_of_length_eq_zero (by omega)⟩
  · have hout : ((v.setState s).setThread t (top ++ rest)).outstanding =
        before.filterMap Frame.waiter ++ top.filterMap Frame.waiter ++
          (rest ++ after).filterMap Frame.waiter ++ s.waiters := by
      change (v.setThread t (top ++ rest)).frames.filterMap Frame.waiter ++ s.waiters = _
      simp [hset]
    refine ⟨hout, ?_⟩
    rcases h with ⟨t', ha⟩ | hone
    · cases ha.eq_of_cons ht
      have ha' : (v.setState s).Alone t := ⟨ha.others, ha.below⟩
      refine .inl ⟨t, ha'.setThread ht fun g hg => ?_⟩
      cases top with
      | nil => exact hbelow ha g (List.mem_of_mem_tail hg)
      | cons _ top => exact (List.mem_append.mp hg).elim (htop g) (hbelow ha g)
    · refine .inr ?_
      rw [hold] at hone
      rw [hout]
      simp only [List.length_append] at hone hle ⊢
      omega

/-- The thread goes on and the calls stay as they are: at most one moves from the queue to it. -/
theorem Orderly.goOn (h : v.Orderly) (ht : v.threads[t]? = some (f :: rest)) (s : ViewState)
    (top : List Frame) (hawake : ((v.setState s).setThread t (top ++ rest)).Awake)
    (htop : ∀ g ∈ top.tail, g = .waking)
    (hout : top.filterMap Frame.waiter ++ s.waiters = f.waiter.toList ++ v.state.waiters) :
    ((v.setState s).setThread t (top ++ rest)).Orderly := by
  obtain ⟨before, after, hold, hfirst, hgo⟩ := h.calm.advance ht
  obtain ⟨hnew, hcalm⟩ := hgo s top htop (by rw [hout])
  refine ⟨hcalm, hawake, ?_⟩
  have hkept : ((v.setState s).setThread t (top ++ rest)).outstanding = v.outstanding := by
    rw [hnew, hold]
    by_cases hsome : f.waiter.toList ++ v.state.waiters = []
    · rw [hsome] at hout
      rw [(List.append_eq_nil_iff.mp hout).1, (List.append_eq_nil_iff.mp hout).2,
        (List.append_eq_nil_iff.mp hsome).1, (List.append_eq_nil_iff.mp hsome).2]
    · obtain ⟨rfl, rfl⟩ := hfirst hsome
      simpa using hout
  exact hkept ▸ h.ordered

/-- Another thread begins, where nobody else is at work or nobody is to be served. -/
theorem calm_spawn (ha : v.frames = [] ∨ v.outstanding = []) {f : Frame} (hf : f.waiter = none) :
    (v.spawn f).Calm ∧ (v.spawn f).outstanding = v.outstanding := by
  have hout : (v.spawn f).outstanding = v.outstanding := by
    change (v.spawn f).frames.filterMap Frame.waiter ++ v.state.waiters = _
    rw [frames_spawn, List.filterMap_append, List.filterMap_cons_none hf]
    simp [outstanding]
  refine ⟨ha.imp (fun hframes => ⟨_, alone_spawn hframes f⟩) fun hnone => ?_, hout⟩
  simp [hout, hnone]

theorem Section.orderly (h : v.Section a v') (ha : v.Serial a) (hv : v.Orderly) : v'.Orderly := by
  have hawake := h.awake hv.awake
  have hordered := hv.ordered
  cases h with
  | begin call => exact ⟨hv.calm.congr rfl rfl, hawake, hordered.begin call⟩
  | @check c p p' hc hp hp' =>
    have hne : p ≠ .waiting := by
      rintro rfl
      cases hp
    exact ⟨hv.calm.congr rfl rfl, hawake, hordered.setCall hc hne fun _ => hp⟩
  | receive hc =>
    exact ⟨hv.calm.congr rfl rfl, hawake, hordered.setCall hc (by simp) (by simp [Phase.early])⟩
  | giveUp hc => exact ⟨hv.calm.congr rfl rfl, hawake, hordered.cancel hc⟩
  | @grant c p hc hp hf =>
    have hnone : v.outstanding = [] := by
      rcases ha with hframes | hnone
      · have hwaiters : v.state.waiters = [] := by
          by_contra hw
          exact absurd (hv.awake hw hf) (by simp [passes_eq_zero hframes])
        rw [outstanding, hframes, hwaiters]
        rfl
      · exact hnone
    have hnone' : (v.grant c).outstanding = [] := hnone
    exact ⟨hv.calm.congr rfl rfl, hawake, hnone' ▸ (hnone ▸ hordered).grant hc⟩
  | @enqueue c p hc hp hf =>
    have hout : (v.enqueue c).outstanding = v.outstanding ++ [c] :=
      (List.append_assoc ..).symm
    have hcalm' : (v.enqueue c).Calm := by
      refine ha.imp (fun hframes => ⟨0, alone_of_nil hframes 0⟩) fun hnone => ?_
      simp [hout, hnone]
    exact ⟨hcalm', hawake, hout ▸ hordered.enqueue hc hp⟩
  | @giveBack c hc =>
    obtain ⟨hspawn, hout⟩ := calm_spawn (v := v.setCall c .finished) ha (f := .dropping) rfl
    exact ⟨hspawn.congr rfl rfl, hawake, hout ▸ hordered.cancel hc⟩
  | @release c hc =>
    obtain ⟨hspawn, hout⟩ := calm_spawn (v := v.setCall c .finished) ha (f := .dropping) rfl
    exact ⟨hspawn, hawake, hout ▸ hordered.setCall hc (by simp) (by simp [Phase.early])⟩
  | drain events capacity =>
    obtain ⟨hspawn, hout⟩ :=
      calm_spawn (v := v.setState (v.state.drain events capacity)) ha (f := .waking) rfl
    exact ⟨hspawn, hawake, hout ▸ hordered⟩
  | drop ht => exact hv.goOn ht _ [.waking] hawake (by simp) rfl
  | sleep ht hf => exact hv.goOn ht _ [] hawake (by simp) rfl
  | reserve ht hf hw => exact hv.goOn ht _ [.reserved] hawake (by simp) rfl
  | none ht hw => exact hv.goOn ht _ [.dropping] hawake (by simp) rfl
  | @pop t w ws rest ht hw => exact hv.goOn ht _ [.popped w] hawake (by simp) hw.symm
  | @send t w rest ht hc =>
    obtain ⟨before, after, hold, hfirst, hgo⟩ := hv.calm.advance ht
    obtain ⟨rfl, rfl⟩ := hfirst (by simp [Frame.waiter])
    obtain ⟨hnew, hcalm⟩ := hgo v.state [.waking] (by simp) (Nat.le_succ _)
    exact ⟨hcalm.congr rfl rfl, hawake, hnew ▸ (hold ▸ hordered).send hc⟩
  | @undelivered t w rest ht hc =>
    obtain ⟨before, after, hold, hfirst, hgo⟩ := hv.calm.advance ht
    obtain ⟨rfl, rfl⟩ := hfirst (by simp [Frame.waiter])
    obtain ⟨hnew, hcalm⟩ := hgo v.state [.dropping, .waking] (by simp) (Nat.le_succ _)
    exact ⟨hcalm, hawake, hnew ▸ (hold ▸ hordered).skip hc⟩

/-- **First come, first served, one thread at a time.** While nobody is still to be served any
number of threads may be at work. -/
theorem served_in_order {slotsTotal : UInt32} {workerClass : DeterminismClass}
    {listed : List (Nat × SlotState)} {allowClassMismatch : Bool} {v : View}
    (h : Runs step Serial (start slotsTotal workerClass listed allowClassMismatch) v) :
    Fifo v.log := by
  have horderly : v.Orderly := by
    refine h.invariant ?_ fun t a u ht hc hs => (step_section hs).orderly hc ht
    refine ⟨.inl ⟨0, alone_of_nil rfl 0⟩, fun hw => absurd rfl hw, ?_⟩
    exact
    { fifo := fun before c hp => by simp [start] at hp
      known := by simp [start]
      fresh := by simp [start]
      began := fun c hp => by cases hp
      enqueued := by simp [start, outstanding, frames]
      served := by simp [start]
      live := by simp [start, outstanding, frames]
      sorted := .nil }
  exact horderly.ordered.fifo

theorem served_in_order_handOver :
    ∃ v, exec step Serial handOver oneSlot = some v ∧ .obtained 1 ∈ v.log ∧ Fifo v.log := by
  have hrun : (exec step Serial handOver oneSlot).any (fun v => .obtained 1 ∈ v.log) := by
    decide +kernel
  obtain ⟨v, hv, hlog⟩ := (Option.any_eq_true _ _).mp hrun
  exact ⟨v, hv, by simpa using hlog, served_in_order (runs_exec hv)⟩

/-- The first permit is dropped while call 1 waits, and call 2 comes before the pass that
would serve it. -/
def steal : List Action :=
  [.begin (.acquire none), .begin (.acquire none), .proceed 0, .proceed 1, .release 0, .run 0,
    .begin .tryAcquire, .proceed 2]

/-- **A later call takes the freed slot.** -/
theorem overtaken : ∃ v, Runs step Any oneSlot v ∧ v.state.waiters = [1] ∧ ¬ Fifo v.log := by
  have hrun : (exec step Any steal oneSlot).any (fun v => v.state.waiters = [1] ∧
      v.log = [.began 0, .began 1, .obtained 0, .enqueued 1, .began 2, .obtained 2]) := by
    decide +kernel
  obtain ⟨v, hv, hlog⟩ := (Option.any_eq_true _ _).mp hrun
  obtain ⟨hwaiters, hlog⟩ := of_decide_eq_true hlog
  refine ⟨v, runs_exec hv, hwaiters, fun hfifo => ?_⟩
  have := hfifo [.began 0, .began 1, .obtained 0, .enqueued 1, .began 2] 2
    (by rw [hlog]; exact List.prefix_rfl) 1 (by decide)
  revert this
  decide

end View
end Orchestrator.Sched
