import Orchestrator.Lib.Machine
import Orchestrator.Server.State

/-! # Server — Parking

Pausing a runner from outside. Clients send control messages into a channel, which the runner
polls in `handle_control` and waits on where it is parked, and read the status from another
channel, which holds the latest one published. The runner's position in `run_phases`,
`run_loop` and `handle_control` is explicit; of everything else that it does only whether it
succeeds matters here.

* `pause_means_parked`: once a PauseExperiment call has returned Paused, no batch is
  dispatched before a Resume message that was sent after that call's Pause is received.
-/

namespace Orchestrator.Server.Parking

open Lib Services

/-- Which loop calls `handle_control`. -/
inductive Site where
  | replay | loop
deriving DecidableEq, Repr

/-- Where the runner waits for a Resume: before the replay, or in `handle_control`. -/
inductive Bay where
  | first
  | control (site : Site)
deriving DecidableEq, Repr

/-- Where the runner stands. -/
inductive Mode where
  /-- At the beginning of `run_phases`. -/
  | start
  /-- It awaits a message. -/
  | parked (bay : Bay)
  /-- A Resume was received; the status is published next. -/
  | resuming (bay : Bay)
  /-- It takes the next intent of the replay queue. -/
  | next
  /-- At the top of the loop of `handle_control`. -/
  | polling (site : Site)
  /-- `drain_inflight`, for a Pause or for a Stop. -/
  | draining (site : Site) (stop : Bool)
  /-- The checkpoint of a pause. -/
  | pausing (site : Site)
  /-- The publication of a pause. -/
  | announcing (site : Site)
  /-- `handle_control` has found the channel empty. -/
  | cleared (site : Site)
  /-- A batch is executed and committed. -/
  | awaiting (site : Site)
  /-- The status after a commit is published next. -/
  | committed (site : Site)
  /-- The checkpoint after a commit, and whether a goal ends the run. -/
  | deciding (site : Site)
  /-- The drain before the end, if there is one, the final checkpoint and publication. -/
  | ending
  | ended
deriving DecidableEq, Repr

/-- The control channel, the published status and the runner. `sent` are all messages in the
order they were sent and `received` is how many of them the runner has taken; `returned` are
the Pause messages whose calls have returned Paused. -/
structure State where
  sent : List Control
  received : Nat
  returned : List Nat
  watch : ExperimentState
  status : ExperimentState
  replays : Nat
  mode : Mode
deriving DecidableEq, Repr

/-- What the runner does next, where its position leaves that open. -/
inductive Turn where
  | go
  /-- All senders are gone. -/
  | hangUp
  | dispatch
  /-- A budget, the end of the frontier or a goal ends the run. -/
  | finish (status : ExperimentState)
  /-- The pipeline has ended. -/
  | quit
  /-- A call fails for good. -/
  | fail
  /-- A simulated kill: nothing is published any more. -/
  | crash
deriving DecidableEq, Repr

inductive Action where
  /-- A client sends a message. -/
  | send (message : Control)
  /-- A PauseExperiment call whose Pause is message `k` reads Paused and returns. -/
  | answer (k : Nat)
  | run (turn : Turn)
deriving DecidableEq, Repr

namespace State

/-- A runner that was just started, fresh or from a checkpoint; `start` has published its
status. -/
def initial (status : ExperimentState) (replays : Nat) : State where
  sent := []
  received := 0
  returned := []
  watch := status
  status := status
  replays := replays
  mode := .start

/-- The message the runner would take next. -/
def message? (s : State) : Option Control := s.sent[s.received]?

def move (s : State) (mode : Mode) (status : ExperimentState) : State :=
  { s with mode := mode, status := status }

/-- Takes the next message out of the channel. -/
def take (s : State) (mode : Mode) (status : ExperimentState) : State :=
  { s with received := s.received + 1, mode := mode, status := status }

def publish (s : State) (mode : Mode) : State :=
  { s with watch := s.status, mode := mode }

/-- One message received while parked. -/
def park (s : State) (bay : Bay) : Control → State
  | .resume => s.take (.resuming bay) .running
  | .stop => s.take .ending .stopped
  | .pause => s.take (.parked bay) s.status

/-- One message received by `handle_control`. -/
def handle (s : State) (site : Site) : Control → State
  | .pause => s.take (.draining site false) s.status
  | .stop => s.take (.draining site true) s.status
  | .resume => s.take (.polling site) s.status

/-- Where the runner goes on after a Resume. -/
def leave (s : State) : Bay → State
  | .first => s.publish .next
  | .control site => s.publish (.polling site)

/-- The calls of the position can fail, for good or by a simulated kill. -/
def fallible (s : State) : Bool :=
  match s.mode with
  | .draining .. | .pausing _ | .cleared _ | .awaiting _ | .deciding _ => true
  | _ => false

/-- One step of the runner. -/
def turn (s : State) : Turn → Option State
  | .go =>
    match s.mode with
    | .start =>
      some (if s.status = .paused then s.publish (.parked .first) else s.move .next s.status)
    | .parked bay => s.message?.map (s.park bay)
    | .resuming bay => some (s.leave bay)
    | .next =>
      some (if s.replays = 0 then s.move (.polling .loop) s.status
        else { s.move (.polling .replay) s.status with replays := s.replays - 1 })
    | .polling site =>
      match s.message? with
      | some message => some (s.handle site message)
      | none => some (s.move (.cleared site) s.status)
    | .draining site false => some (s.move (.pausing site) .paused)
    | .draining _ true => some (s.move .ending .stopped)
    | .pausing site => some (s.move (.announcing site) s.status)
    | .announcing site => some (s.publish (.parked (.control site)))
    -- Only the loop waits without having dispatched: other batches are in flight.
    | .cleared .loop => some (s.move (.awaiting .loop) s.status)
    | .cleared .replay => none
    | .awaiting site => some (s.move (.committed site) s.status)
    | .committed site => some (s.publish (.deciding site))
    | .deciding .replay => some (s.move .next s.status)
    | .deciding .loop => some (s.move (.polling .loop) s.status)
    | .ending => some (s.publish .ended)
    | .ended => none
  | .hangUp =>
    match s.mode, s.message? with
    | .parked _, none => some (s.move .ending .stopped)
    | _, _ => none
  | .dispatch =>
    match s.mode with
    | .cleared .replay => some (s.move (.awaiting .replay) s.status)
    | .cleared .loop => some s
    | _ => none
  | .finish status =>
    match s.mode, status with
    | .cleared .loop, .budgetExhausted => some (s.move .ending .budgetExhausted)
    | .deciding _, .goalReached => some (s.move .ending .goalReached)
    | _, _ => none
  | .quit => if s.mode = .awaiting .loop then some (s.move .ending s.status) else none
  | .fail =>
    if s.fallible then some (s.move .ending .failed)
    -- The final checkpoint fails.
    else if s.mode = .ending then some ((s.move .ending .failed).publish .ended)
    else none
  | .crash => if s.fallible then some (s.move .ended s.status) else none

/-- One step of a client or of the runner. -/
def step (s : State) : Action → Option State
  | .send message => some { s with sent := s.sent ++ [message] }
  | .answer k =>
    if s.sent[k]? = some .pause ∧ s.watch = .paused then some { s with returned := k :: s.returned }
    else none
  | .run turn => s.turn turn

end State

/-! ### What a position means for the calls that have returned -/

namespace Mode

/-- The status published last can be Paused. -/
@[simp] def quiet : Mode → Bool
  | .start | .parked _ | .resuming _ | .ending | .ended => true
  | _ => false

/-- The runner works, and its status is not Paused. -/
@[simp] def works : Mode → Bool
  | .resuming _ | .next | .polling _ | .cleared _ | .awaiting _ | .committed _ | .deciding _ => true
  | _ => false

/-- Before the next dispatch the runner takes every message that is in the channel. -/
@[simp] def polls : Mode → Bool
  | .cleared _ | .awaiting _ | .committed _ | .deciding _ => false
  | _ => true

/-- Before the next dispatch the runner takes a Resume that is still in the channel. -/
@[simp] def holds : Mode → Bool
  | .parked _ | .draining .. | .pausing _ | .announcing _ | .ending | .ended => true
  | _ => false

end Mode

namespace State

variable {s t : State} {mode : Mode} {status : ExperimentState} {k : Nat} {message : Control}

/-- The runner has received a Resume that was sent after message `k`. -/
def Resumed (s : State) (k : Nat) : Prop :=
  ∃ j, k < j ∧ j < s.received ∧ s.sent[j]? = some .resume

/-- Message `k` keeps the runner from dispatching: it is still in the channel and will be
taken before, or it was taken and a Resume must come first. -/
def Holds (s : State) (k : Nat) : Prop :=
  if k < s.received then s.mode.holds = true else s.mode.polls = true

/-- What holds in every state of a run. -/
structure Sound (s : State) : Prop where
  quiet : s.watch = .paused → s.mode.quiet = true
  works : s.mode.works = true → s.status ≠ .paused
  fresh : s.mode = .start → s.received = 0 ∧ s.watch = s.status
  resuming : ∀ bay, s.mode = .resuming bay →
    ∃ j, s.received = j + 1 ∧ s.sent[j]? = some .resume
  asked : ∀ k ∈ s.returned, s.sent[k]? = some .pause
  returned : ∀ k ∈ s.returned, s.Resumed k ∨ s.Holds k

theorem sound_initial (status : ExperimentState) (replays : Nat) :
    (initial status replays).Sound where
  quiet _ := rfl
  works h := by cases h
  fresh _ := ⟨rfl, rfl⟩
  resuming _ h := by cases h
  asked _ h := by cases h
  returned _ h := by cases h

theorem Resumed.of_le (h : s.Resumed k) (hr : s.received ≤ t.received)
    (hs : ∀ (j : Nat) (m : Control), s.sent[j]? = some m → t.sent[j]? = some m) :
    t.Resumed k := by
  obtain ⟨j, hkj, hj, hm⟩ := h
  exact ⟨j, hkj, by omega, hs j _ hm⟩

theorem holds_taken (hk : k < s.received) : s.Holds k ↔ s.mode.holds = true := by
  rw [Holds, if_pos hk]

theorem holds_waiting (hk : s.received ≤ k) : s.Holds k ↔ s.mode.polls = true := by
  rw [Holds, if_neg (Nat.not_lt.mpr hk)]

theorem Holds.of_follows (h : s.Holds k) (hr : t.received = s.received)
    (hh : s.mode.holds = true → t.mode.holds = true)
    (hp : s.mode.polls = true → t.mode.polls = true) : t.Holds k := by
  rcases Nat.lt_or_ge k s.received with hk | hk
  · exact (holds_taken (hr ▸ hk)).mpr (hh ((holds_taken hk).mp h))
  · exact (holds_waiting (hr ▸ hk)).mpr (hp ((holds_waiting hk).mp h))

/-- A position the runner may go to without receiving a message: what the old one promises,
the new one promises too. -/
structure Follows (m m' : Mode) : Prop where
  polls : m.polls = true → m'.polls = true
  holds : m.holds = true → m'.holds = true
  start : m' ≠ .start
  resuming : ∀ bay, m' ≠ .resuming bay

namespace Sound

theorem move (hs : s.Sound) (hf : Follows s.mode mode)
    (hq : s.watch = .paused → s.mode.quiet = true → mode.quiet = true)
    (hw : mode.works = true → status ≠ .paused) : (s.move mode status).Sound where
  quiet h := hq h (hs.quiet h)
  works := hw
  fresh h := absurd h hf.start
  resuming bay h := absurd h (hf.resuming bay)
  asked := hs.asked
  returned k hk := (hs.returned k hk).imp id fun h => h.of_follows rfl hf.holds hf.polls

theorem publish (hs : s.Sound) (hf : Follows s.mode mode)
    (hq : s.status = .paused → mode.quiet = true)
    (hw : mode.works = true → s.status ≠ .paused) : (s.publish mode).Sound where
  quiet := hq
  works := hw
  fresh h := absurd h hf.start
  resuming bay h := absurd h (hf.resuming bay)
  asked := hs.asked
  returned k hk := (hs.returned k hk).imp id fun h => h.of_follows rfl hf.holds hf.polls

/-- A message is received. The calls whose Pause was taken before are released by a Resume
only, and a Pause that is taken now must hold the runner. -/
theorem take (hs : s.Sound) (hm : s.message? = some message)
    (hquiet : s.mode.quiet = true → mode.quiet = true)
    (hw : mode.works = true → status ≠ .paused)
    (hstart : mode ≠ .start) (hres : ∀ bay, mode = .resuming bay → message = .resume)
    (hpolls : mode.polls = true)
    (hholds : s.mode.holds = true → message = .resume ∨ mode.holds = true)
    (hpause : message = .pause → mode.holds = true) : (s.take mode status).Sound where
  quiet h := hquiet (hs.quiet h)
  works := hw
  fresh h := absurd h hstart
  resuming bay h := ⟨s.received, rfl, hres bay h ▸ hm⟩
  asked := hs.asked
  returned k hk := by
    rcases hs.returned k hk with h | h
    · exact .inl (h.of_le (Nat.le_succ _) fun _ _ hj => hj)
    · rcases Nat.lt_trichotomy k s.received with hlt | heq | hgt
      · rcases hholds ((holds_taken hlt).mp h) with rfl | hnew
        · exact .inl ⟨s.received, hlt, Nat.lt_succ_self _, hm⟩
        · exact .inr ((holds_taken (Nat.lt_succ_of_lt hlt)).mpr hnew)
      · have hmessage : message = .pause := by
          have hk' := hs.asked k hk
          rw [heq, ← message?, hm] at hk'
          exact Option.some.inj hk'
        exact .inr ((holds_taken (Nat.lt_succ_of_le heq.le)).mpr (hpause hmessage))
      · exact .inr ((holds_waiting (Nat.succ_le_of_lt hgt)).mpr hpolls)

/-- The channel is found empty: no call is left that waits for its message to be taken. -/
theorem clear {site : Site} (hs : s.Sound) (hmode : s.mode = .polling site)
    (hm : s.message? = none) : (s.move (.cleared site) s.status).Sound where
  quiet h := by
    have := hs.quiet h
    rw [hmode] at this
    cases this
  works _ := hs.works (by rw [hmode]; rfl)
  fresh h := by cases h
  resuming _ h := by cases h
  asked := hs.asked
  returned k hk := by
    refine (hs.returned k hk).imp id fun h => ?_
    have hlen : k < s.sent.length := (List.getElem?_eq_some_iff.mp (hs.asked k hk)).1
    have hempty : s.sent.length ≤ s.received := List.getElem?_eq_none_iff.mp hm
    have hholds := (holds_taken (Nat.lt_of_lt_of_le hlen hempty)).mp h
    rw [hmode] at hholds
    cases hholds

theorem send (hs : s.Sound) (message : Control) :
    State.Sound { s with sent := s.sent ++ [message] } := by
  have hsent : ∀ (j : Nat) (m : Control), s.sent[j]? = some m →
      (s.sent ++ [message])[j]? = some m :=
    fun j m h => by
      rw [List.getElem?_append_left (List.getElem?_eq_some_iff.mp h).1]
      exact h
  exact {
    quiet := hs.quiet
    works := hs.works
    fresh := hs.fresh
    resuming := fun bay h => (hs.resuming bay h).imp fun j hj => ⟨hj.1, hsent j _ hj.2⟩
    asked := fun k hk => hsent k _ (hs.asked k hk)
    returned := fun k hk => (hs.returned k hk).imp (fun h => h.of_le (Nat.le_refl _) hsent) id }

/-- Where Paused can be read, the Pause of the call is still to be taken, or holds the runner,
or was released by the Resume that was just received. -/
theorem holds_of_paused (hs : s.Sound) (hk : s.sent[k]? = some .pause) (hw : s.watch = .paused) :
    s.Resumed k ∨ s.Holds k := by
  have hquiet := hs.quiet hw
  unfold Holds
  match hmode : s.mode with
  | .start => simp [(hs.fresh hmode).1]
  | .parked _ => simp
  | .ending => simp
  | .ended => simp
  | .resuming bay =>
    obtain ⟨j, hj, hm⟩ := hs.resuming bay hmode
    rcases Nat.lt_trichotomy k j with hlt | rfl | hgt
    · exact .inl ⟨j, hlt, by omega, hm⟩
    · rw [hk] at hm
      cases hm
    · exact .inr (by rw [if_neg (by omega)]; rfl)
  | .next | .polling _ | .draining .. | .pausing _ | .announcing _ | .cleared _ | .awaiting _
  | .committed _ | .deciding _ =>
    rw [hmode] at hquiet
    cases hquiet

theorem answer (hs : s.Sound) (hk : s.sent[k]? = some .pause) (hw : s.watch = .paused) :
    State.Sound { s with returned := k :: s.returned } where
  quiet := hs.quiet
  works := hs.works
  fresh := hs.fresh
  resuming := hs.resuming
  asked := by
    intro i hi
    rcases List.mem_cons.mp hi with rfl | hi
    · exact hk
    · exact hs.asked i hi
  returned := by
    intro i hi
    rcases List.mem_cons.mp hi with rfl | hi
    · exact hs.holds_of_paused hk hw
    · exact hs.returned i hi

/-- What the runner received while it was parked. -/
theorem park (hs : s.Sound) (bay : Bay) (hm : s.message? = some message) :
    (s.park bay message).Sound := by
  cases message with
  | resume => refine hs.take hm ?_ ?_ ?_ ?_ rfl ?_ ?_ <;> simp
  | stop => refine hs.take hm ?_ ?_ ?_ ?_ rfl ?_ ?_ <;> simp
  | pause => refine hs.take hm ?_ ?_ ?_ ?_ rfl ?_ ?_ <;> simp

/-- What `handle_control` received. -/
theorem handle {site : Site} (hs : s.Sound) (hmode : s.mode = .polling site)
    (hm : s.message? = some message) : (s.handle site message).Sound := by
  have hstatus : s.status ≠ .paused := hs.works (by rw [hmode]; rfl)
  cases message with
  | resume => refine hs.take hm ?_ ?_ ?_ ?_ rfl ?_ ?_ <;> simp [hmode, hstatus]
  | stop => refine hs.take hm ?_ ?_ ?_ ?_ rfl ?_ ?_ <;> simp [hmode]
  | pause => refine hs.take hm ?_ ?_ ?_ ?_ rfl ?_ ?_ <;> simp [hmode]

theorem leave (hs : s.Sound) {bay : Bay} (hmode : s.mode = .resuming bay) :
    (s.leave bay).Sound := by
  have hstatus : s.status ≠ .paused := hs.works (by simp [hmode])
  cases bay with
  | first => exact hs.publish (by constructor <;> simp [hmode]) (by simp [hstatus]) fun _ => hstatus
  | control site =>
    exact hs.publish (by constructor <;> simp [hmode]) (by simp [hstatus]) fun _ => hstatus

/-- The runner goes on with the next intent of the replay, or with the loop. -/
theorem pop (hs : s.Sound) (hmode : s.mode = .next) :
    (if s.replays = 0 then s.move (.polling .loop) s.status
      else { s.move (.polling .replay) s.status with replays := s.replays - 1 }).Sound := by
  have hstatus : s.status ≠ .paused := hs.works (by simp [hmode])
  have hmove : ∀ site, (s.move (.polling site) s.status).Sound := fun site =>
    hs.move (by constructor <;> simp [hmode]) (by simp [hmode]) fun _ => hstatus
  split
  · exact hmove .loop
  · exact ⟨(hmove .replay).1, (hmove .replay).2, (hmove .replay).3, (hmove .replay).4,
      (hmove .replay).5, (hmove .replay).6⟩

theorem go (hs : s.Sound) (h : s.turn .go = some t) : t.Sound := by
  have hstatus := hs.works
  cases hmode : s.mode with
  | start =>
    simp only [turn, hmode, Option.some.injEq] at h
    subst h
    split
    · exact hs.publish (by constructor <;> simp [hmode]) (by simp) (by simp)
    · rename_i hne
      refine hs.move (by constructor <;> simp [hmode]) ?_ fun _ => hne
      exact fun hw _ => absurd ((hs.fresh hmode).2 ▸ hw) hne
  | parked bay =>
    simp only [turn, hmode] at h
    obtain ⟨message, hm, rfl⟩ := Option.map_eq_some_iff.mp h
    exact hs.park bay hm
  | resuming bay =>
    simp only [turn, hmode, Option.some.injEq] at h
    exact h ▸ hs.leave hmode
  | next =>
    simp only [turn, hmode, Option.some.injEq] at h
    exact h ▸ hs.pop hmode
  | polling site =>
    simp only [turn, hmode] at h
    split at h <;> cases h
    · rename_i hm
      exact hs.handle hmode hm
    · rename_i hm
      exact hs.clear hmode hm
  | draining site stop =>
    cases stop
    all_goals
      simp only [turn, hmode, Option.some.injEq] at h
      exact h ▸ hs.move (by constructor <;> simp [hmode]) (by simp [hmode]) (by simp)
  | pausing site =>
    simp only [turn, hmode, Option.some.injEq] at h
    exact h ▸ hs.move (by constructor <;> simp [hmode]) (by simp [hmode]) (by simp)
  | announcing site =>
    simp only [turn, hmode, Option.some.injEq] at h
    exact h ▸ hs.publish (by constructor <;> simp [hmode]) (by simp) (by simp)
  | cleared site =>
    have hne : s.status ≠ .paused := hs.works (by simp [hmode])
    cases site with
    | replay =>
      simp only [turn, hmode] at h
      cases h
    | loop =>
      simp only [turn, hmode, Option.some.injEq] at h
      exact h ▸ hs.move (by constructor <;> simp [hmode]) (by simp [hmode]) fun _ => hne
  | awaiting site =>
    have hne : s.status ≠ .paused := hs.works (by simp [hmode])
    simp only [turn, hmode, Option.some.injEq] at h
    exact h ▸ hs.move (by constructor <;> simp [hmode]) (by simp [hmode]) fun _ => hne
  | committed site =>
    have hne : s.status ≠ .paused := hs.works (by simp [hmode])
    simp only [turn, hmode, Option.some.injEq] at h
    exact h ▸ hs.publish (by constructor <;> simp [hmode]) (fun h => absurd h hne) fun _ => hne
  | deciding site =>
    have hne : s.status ≠ .paused := hs.works (by simp [hmode])
    cases site
    all_goals
      simp only [turn, hmode, Option.some.injEq] at h
      exact h ▸ hs.move (by constructor <;> simp [hmode]) (by simp [hmode]) fun _ => hne
  | ending =>
    simp only [turn, hmode, Option.some.injEq] at h
    exact h ▸ hs.publish (by constructor <;> simp) (by simp) (by simp)
  | ended =>
    simp only [turn, hmode] at h
    cases h

/-- The runner may always go to its end. -/
theorem finish (hs : s.Sound) (status : ExperimentState) : (s.move .ending status).Sound :=
  hs.move (by constructor <;> simp) (by simp) (by simp)

/-- Batches are dispatched only where every message was taken, which is where the runner
stays. -/
theorem dispatch (hs : s.Sound) (h : s.turn .dispatch = some t) : t.Sound := by
  simp only [turn] at h
  split at h
  · rename_i hmode
    have hne : s.status ≠ .paused := hs.works (by simp [hmode])
    cases h
    exact hs.move (by constructor <;> simp [hmode]) (by simp [hmode]) fun _ => hne
  · cases h
    exact hs
  · cases h

theorem turn {turn : Turn} (hs : s.Sound) (h : s.turn turn = some t) : t.Sound := by
  cases turn with
  | go => exact hs.go h
  | dispatch => exact hs.dispatch h
  | hangUp =>
    simp only [State.turn] at h
    split at h <;> cases h
    exact hs.finish _
  | finish status =>
    simp only [State.turn] at h
    split at h <;> cases h
    · exact hs.finish _
    · exact hs.finish _
  | quit =>
    simp only [State.turn] at h
    split at h <;> cases h
    exact hs.finish _
  | fail =>
    simp only [State.turn] at h
    split at h
    · cases h
      exact hs.finish _
    · split at h <;> cases h
      exact (hs.finish _).publish (by constructor <;> simp) (by simp) (by simp)
  | crash =>
    simp only [State.turn] at h
    split at h <;> cases h
    exact hs.move (by constructor <;> simp) (by simp) (by simp)

theorem step {action : Action} (hs : s.Sound) (h : s.step action = some t) : t.Sound := by
  cases action with
  | send message =>
    cases h
    exact hs.send message
  | answer k =>
    simp only [State.step] at h
    split at h <;> cases h
    rename_i hread
    exact hs.answer hread.1 hread.2
  | run turn => exact hs.turn h

end Sound

theorem sound_of_runs {replays : Nat} (h : Runs step Any (initial status replays) s) : s.Sound :=
  h.invariant (sound_initial _ _) fun _ _ _ hs _ hstep => hs.step hstep

/-- The runner dispatches only after `handle_control` has found the channel empty. -/
theorem cleared_of_dispatch (h : s.turn .dispatch = some t) : ∃ site, s.mode = .cleared site := by
  simp only [turn] at h
  split at h
  · exact ⟨_, ‹_›⟩
  · exact ⟨_, ‹_›⟩
  · cases h

/-- **Pause means parked.** In every run, from any published status and with any number of
replays, of clients and of messages: when a batch is dispatched after a PauseExperiment call
has returned Paused, the runner has received a Resume that was sent after the Pause of that
call. -/
theorem pause_means_parked {replays : Nat} (h : Runs step Any (initial status replays) s)
    (hdispatch : s.step (.run .dispatch) = some t) (hk : k ∈ s.returned) :
    ∃ j, k < j ∧ j < s.received ∧ s.sent[j]? = some .resume := by
  obtain ⟨site, hmode⟩ := cleared_of_dispatch hdispatch
  rcases (sound_of_runs h).returned k hk with hres | hholds
  · exact hres
  · -- A call that still holds the runner would have kept it from getting here.
    rcases Nat.lt_or_ge k s.received with hlt | hge
    · have := (holds_taken hlt).mp hholds
      simp [hmode] at this
    · have := (holds_waiting hge).mp hholds
      simp [hmode] at this

/-- A runner that replays one batch is paused. The call reads Paused only after a Resume was
sent and received, but before the new status is published. -/
def pausedReplay : List Action :=
  [.run .go, .send .pause, .run .go, .run .go, .run .go, .run .go, .run .go, .send .resume,
    .run .go, .answer 0, .run .go, .run .go]

/-- Where that leads: the batch is dispatched next. -/
def resumedReplay : State where
  sent := [.pause, .resume]
  received := 2
  returned := [0]
  watch := .running
  status := .running
  replays := 0
  mode := .cleared .replay

theorem pause_means_parked_resumedReplay :
    ∃ j, 0 < j ∧ j < resumedReplay.received ∧ resumedReplay.sent[j]? = some .resume := by
  have h : exec step Any pausedReplay (initial .running 1) = some resumedReplay := by decide
  exact pause_means_parked (runs_exec h) rfl (List.mem_singleton_self 0)

end State

end Orchestrator.Server.Parking
