import Orchestrator.Lib.Collections
import Orchestrator.Lib.Machine

/-! # Server — Registry

The service's registry of experiments under concurrent StartExperiment calls. A call looks the
id up and reserves it under the registry lock, brings the runner up without the lock, spawns it,
and registers it under the lock again. At each await it may be overtaken by other calls or
dropped, and a dropped call leaves the state its last step set.

* `one_live_runner`: no id ever has two live runners.
* `Registry.start_released`: where no call is dropped while it holds a reservation, a reserved id
  has a call executing for it.
* `Registry.reservation_leaks`: a dropped call leaves its id refused as already starting.
-/

namespace Orchestrator.Server

open Lib

/-- How a StartExperiment call ends. -/
inductive StartAnswer where
  /-- "experiment … is already running" -/
  | alreadyRunning
  /-- The state of the experiment as it is. -/
  | current
  /-- "experiment … is already starting" -/
  | alreadyStarting
  | startFailed
  | started
deriving DecidableEq, Repr

/-- Where a StartExperiment call stands. -/
inductive StartPhase where
  /-- It awaits the registry lock. -/
  | entering
  /-- It holds the registry lock and awaits the set of starting ids. -/
  | reserving
  /-- Its id is reserved and its runner is brought up. -/
  | starting
  /-- The bring-up failed and it awaits the set of starting ids. -/
  | failing
  /-- It has spawned its runner and awaits the registry lock. -/
  | registering (runner : Nat)
  /-- It holds the registry lock, its runner is registered and it awaits the starting ids. -/
  | clearing
  | answered (answer : StartAnswer)
  | dropped
deriving DecidableEq, Repr

def StartPhase.executing : StartPhase → Bool
  | .answered _ | .dropped => false
  | _ => true

/-- The call holds a reservation. -/
def StartPhase.reserved : StartPhase → Bool
  | .starting | .failing | .registering _ | .clearing => true
  | _ => false

theorem StartPhase.executing_of_reserved {p : StartPhase} (h : p.reserved = true) :
    p.executing = true := by
  cases p with
  | starting | failing | registering | clearing => rfl
  | entering | reserving | answered | dropped => cases h

/-- The call holds the registry lock across an await. -/
def StartPhase.holding : StartPhase → Bool
  | .reserving | .clearing => true
  | _ => false

section

variable (Id : Type)

structure StartCall where
  id : Id
  resumeIfExists : Bool
  phase : StartPhase
deriving DecidableEq, Repr

structure LiveRunner where
  id : Id
  finished : Bool
deriving DecidableEq, Repr

/-- `entries` maps an id to its latest registered runner; `lock` is the call that holds the
registry lock across an await. -/
structure Registry where
  entries : List (Id × Nat)
  starting : List Id
  lock : Option Nat
  runners : List (LiveRunner Id)
  calls : List (StartCall Id)
deriving DecidableEq, Repr

inductive RegistryAction where
  | arrive (id : Id) (resumeIfExists : Bool)
  /-- The call gets the registry lock and looks its id up. -/
  | enter (c : Nat)
  | reserve (c : Nat)
  /-- The bring-up ends, and a success spawns the runner at once. -/
  | bringUp (c : Nat) (ok : Bool)
  | clearFailed (c : Nat)
  | register (c : Nat)
  | clear (c : Nat)
  /-- The future of the call is dropped at the await it stands at. -/
  | drop (c : Nat)
  /-- The task of a runner ends. -/
  | finish (r : Nat)
deriving DecidableEq, Repr

end

variable {Id : Type} [DecidableEq Id]

namespace Registry

def empty : Registry Id := ⟨[], [], none, [], []⟩

/-- The runner that is registered under the id, with its number. -/
def entry (s : Registry Id) (id : Id) : Option (LiveRunner Id) :=
  (s.entries.lookup id).bind fun r => s.runners[r]?

def setCall (s : Registry Id) (c : Nat) (call : StartCall Id) : Registry Id :=
  { s with calls := s.calls.set c call }

/-- What the call finds under the lock before it may reserve its id. -/
def lookUp (s : Registry Id) (call : StartCall Id) : Option StartAnswer :=
  match s.entry call.id with
  | none => none
  | some runner =>
    if !runner.finished && !call.resumeIfExists then some .alreadyRunning
    else if !runner.finished then some .current
    -- A finished id is answered with its terminal state unless the caller opts back in.
    else if !call.resumeIfExists then some .current
    else none

def step (s : Registry Id) : RegistryAction Id → Option (Registry Id)
  | .arrive id resume => some { s with calls := s.calls ++ [⟨id, resume, .entering⟩] }
  | .enter c => match s.calls[c]?, s.lock with
    | some ⟨id, resume, .entering⟩, none => match s.lookUp ⟨id, resume, .entering⟩ with
      | some answer => some (s.setCall c ⟨id, resume, .answered answer⟩)
      | none => some { s.setCall c ⟨id, resume, .reserving⟩ with lock := some c }
    | _, _ => none
  | .reserve c => match s.calls[c]? with
    | some ⟨id, resume, .reserving⟩ =>
      if id ∈ s.starting then
        some { s.setCall c ⟨id, resume, .answered .alreadyStarting⟩ with lock := none }
      else
        some { s.setCall c ⟨id, resume, .starting⟩ with
          lock := none, starting := id :: s.starting }
    | _ => none
  | .bringUp c ok => match s.calls[c]? with
    | some ⟨id, resume, .starting⟩ =>
      if ok then
        some { s.setCall c ⟨id, resume, .registering s.runners.length⟩ with
          runners := s.runners ++ [⟨id, false⟩] }
      else some (s.setCall c ⟨id, resume, .failing⟩)
    | _ => none
  | .clearFailed c => match s.calls[c]? with
    | some ⟨id, resume, .failing⟩ =>
      some { s.setCall c ⟨id, resume, .answered .startFailed⟩ with
        starting := s.starting.filter (· ≠ id) }
    | _ => none
  | .register c => match s.calls[c]?, s.lock with
    | some ⟨id, resume, .registering r⟩, none =>
      some { s.setCall c ⟨id, resume, .clearing⟩ with
        lock := some c, entries := (id, r) :: s.entries.filter (·.1 ≠ id) }
    | _, _ => none
  | .clear c => match s.calls[c]? with
    | some ⟨id, resume, .clearing⟩ =>
      some { s.setCall c ⟨id, resume, .answered .started⟩ with
        lock := none, starting := s.starting.filter (· ≠ id) }
    | _ => none
  | .drop c => match s.calls[c]? with
    | some call =>
      if call.phase.executing then
        some { s.setCall c { call with phase := .dropped } with
          lock := if s.lock = some c then none else s.lock }
      else none
    | none => none
  | .finish r => match s.runners[r]? with
    | some runner => some { s with runners := s.runners.set r { runner with finished := true } }
    | none => none

/-! ### One live runner -/

/-- The runner is live and belongs to the id. -/
def LiveAt (runners : List (LiveRunner Id)) (id : Id) (r : Nat) : Prop :=
  runners[r]? = some ⟨id, false⟩

/-- What a call may rely on about the live runners of its id. -/
def Knows (entries : List (Id × Nat)) (runners : List (LiveRunner Id)) (call : StartCall Id) :
    Prop :=
  match call.phase with
  | .reserving => ∀ r, LiveAt runners call.id r → entries.lookup call.id ≠ some r
  | .starting | .failing => ∀ r, ¬ LiveAt runners call.id r
  | .registering r => r < runners.length ∧ ∀ r', LiveAt runners call.id r' → r' = r
  | .clearing => ∀ r, LiveAt runners call.id r → entries.lookup call.id = some r
  | .entering | .answered _ | .dropped => True

/-- Who holds what, and where the live runners are. -/
structure Sound (s : Registry Id) : Prop where
  lock : ∀ (c : Nat) (call : StartCall Id), s.calls[c]? = some call →
    call.phase.holding = true → s.lock = some c
  reserved : ∀ (c : Nat) (call : StartCall Id), s.calls[c]? = some call →
    call.phase.reserved = true → call.id ∈ s.starting
  unique : ∀ (c : Nat) (call : StartCall Id) (c' : Nat) (call' : StartCall Id),
    s.calls[c]? = some call → s.calls[c']? = some call' → call.phase.reserved = true →
    call'.phase.reserved = true → call.id = call'.id → c = c'
  knows : ∀ (c : Nat) (call : StartCall Id), s.calls[c]? = some call →
    Knows s.entries s.runners call
  bound : ∀ id r, s.entries.lookup id = some r → r < s.runners.length
  found : ∀ id r, LiveAt s.runners id r → s.entries.lookup id = some r ∨ id ∈ s.starting
  one : ∀ id r r', LiveAt s.runners id r → LiveAt s.runners id r' → r = r'

theorem sound_empty : Sound (empty : Registry Id) := by
  constructor <;> simp [empty, LiveAt]

variable {s s' : Registry Id} {c : Nat} {call call' : StartCall Id} {id : Id}

/-- A call moves on: what the other calls hold and rely on has to be kept, and what it holds
and relies on itself to be given. -/
theorem Sound.move (h : Sound s) (hc : s.calls[c]? = some call)
    (hcalls : s'.calls = s.calls.set c call') (hid : call'.id = call.id)
    (hlock : ∀ c' ≠ c, s.lock = some c' → s'.lock = some c')
    (hholds : call'.phase.holding = true → s'.lock = some c)
    (hstarting : ∀ id ∈ s.starting, id ∈ s'.starting ∨ id = call.id ∧ call.phase.reserved = true)
    (hreserved : call'.phase.reserved = true →
      call.id ∈ s'.starting ∧ (call.phase.reserved = true ∨ call.id ∉ s.starting))
    (hothers : ∀ c' ≠ c, ∀ other : StartCall Id, s.calls[c']? = some other →
      Knows s.entries s.runners other → Knows s'.entries s'.runners other)
    (hknows : Knows s'.entries s'.runners call')
    (hbound : ∀ id r, s'.entries.lookup id = some r → r < s'.runners.length)
    (hfound : ∀ id r, LiveAt s'.runners id r → s'.entries.lookup id = some r ∨ id ∈ s'.starting)
    (hone : ∀ id r r', LiveAt s'.runners id r → LiveAt s'.runners id r' → r = r') : Sound s' := by
  -- Another call's reservation is not the one that was given up.
  have hkeep : ∀ c' ≠ c, ∀ other : StartCall Id, s.calls[c']? = some other →
      other.phase.reserved = true →
      other.id ∈ s'.starting := by
    intro c' hne other hother hres
    rcases hstarting other.id (h.reserved c' other hother hres) with hmem | ⟨heq, hres'⟩
    · exact hmem
    · exact absurd (h.unique c' other c call hother hc hres hres' heq) hne
  -- And no other call holds a reservation of the same id.
  have hapart : call'.phase.reserved = true → ∀ c' ≠ c, ∀ other : StartCall Id,
      s.calls[c']? = some other → other.phase.reserved = true → other.id ≠ call.id := by
    intro hres c' hne other hother hres' heq
    rcases (hreserved hres).2 with hold | hnew
    · exact hne (h.unique c' other c call hother hc hres' hold heq)
    · exact hnew (heq ▸ h.reserved c' other hother hres')
  refine ⟨?_, ?_, ?_, ?_, hbound, hfound, hone⟩
  · intro c' other hother hhold
    rw [hcalls] at hother
    rcases getElem?_set_eq_some hother with ⟨rfl, rfl⟩ | ⟨hne, hother⟩
    · exact hholds hhold
    · exact hlock c' hne (h.lock c' other hother hhold)
  · intro c' other hother hres
    rw [hcalls] at hother
    rcases getElem?_set_eq_some hother with ⟨rfl, rfl⟩ | ⟨hne, hother⟩
    · exact hid ▸ (hreserved hres).1
    · exact hkeep c' hne other hother hres
  · intro c₁ call₁ c₂ call₂ h₁ h₂ hres₁ hres₂ heq
    rw [hcalls] at h₁ h₂
    rcases getElem?_set_eq_some h₁ with ⟨rfl, rfl⟩ | ⟨hne₁, hold₁⟩ <;>
      rcases getElem?_set_eq_some h₂ with ⟨rfl, rfl⟩ | ⟨hne₂, hold₂⟩
    · rfl
    · exact absurd (heq.symm.trans hid) (hapart hres₁ c₂ hne₂ call₂ hold₂ hres₂)
    · exact absurd (heq.trans hid) (hapart hres₂ c₁ hne₁ call₁ hold₁ hres₁)
    · exact h.unique c₁ call₁ c₂ call₂ hold₁ hold₂ hres₁ hres₂ heq
  · intro c' other hother
    rw [hcalls] at hother
    rcases getElem?_set_eq_some hother with ⟨rfl, rfl⟩ | ⟨hne, hother⟩
    · exact hknows
    · exact hothers c' hne other hother (h.knows c' other hother)

/-- A call moves on and leaves the runners and the entries as they are. -/
theorem Sound.walk (h : Sound s) (hc : s.calls[c]? = some call)
    (hcalls : s'.calls = s.calls.set c call') (hid : call'.id = call.id)
    (hentries : s'.entries = s.entries) (hrunners : s'.runners = s.runners)
    (hlock : ∀ c' ≠ c, s.lock = some c' → s'.lock = some c')
    (hholds : call'.phase.holding = true → s'.lock = some c)
    (hstarting : ∀ id ∈ s.starting, id ∈ s'.starting ∨ id = call.id ∧ call.phase.reserved = true)
    (hreserved : call'.phase.reserved = true →
      call.id ∈ s'.starting ∧ (call.phase.reserved = true ∨ call.id ∉ s.starting))
    (hknows : Knows s.entries s.runners call')
    (hfound : call.id ∉ s'.starting → ∀ r, LiveAt s.runners call.id r →
      s.entries.lookup call.id = some r) : Sound s' := by
  refine h.move hc hcalls hid hlock hholds hstarting hreserved ?_ ?_ ?_ ?_ ?_
  · rw [hentries, hrunners]
    exact fun _ _ _ _ hk => hk
  · rwa [hentries, hrunners]
  · rw [hentries, hrunners]
    exact h.bound
  · rw [hentries, hrunners]
    intro id r hr
    rcases h.found id r hr with hlook | hmem
    · exact .inl hlook
    · rcases hstarting id hmem with hmem' | ⟨rfl, -⟩
      · exact .inr hmem'
      · by_cases hmem' : call.id ∈ s'.starting
        · exact .inr hmem'
        · exact .inl (hfound hmem' r hr)
  · rw [hrunners]
    exact h.one

theorem Sound.enter (h : Sound s) (hs : s.step (.enter c) = some s') : Sound s' := by
  simp only [step] at hs
  split at hs
  case h_2 => cases hs
  case h_1 id resume hcall hfree =>
    have hnone : ∀ c' ≠ c, s.lock = some c' → (some c : Option Nat) = some c' := by
      simp [hfree]
    split at hs
    case h_1 answer hanswer =>
      cases hs
      refine h.walk hcall rfl rfl rfl rfl (fun _ _ hl => hl) nofun (fun _ hmem => .inl hmem) nofun
        trivial ?_
      exact fun hmem r hr => (h.found id r hr).resolve_right hmem
    case h_2 hlook =>
      cases hs
      refine h.walk hcall rfl rfl rfl rfl hnone (fun _ => rfl) (fun _ hmem => .inl hmem) nofun
        ?_ (fun hmem r hr => (h.found id r hr).resolve_right hmem)
      -- A live runner under the id's entry would have been answered.
      intro r hr hentry
      have hfound : s.entry id = some ⟨id, false⟩ := by
        simp only [entry, hentry, Option.bind_some]
        exact hr
      simp only [lookUp, hfound] at hlook
      cases resume <;> simp at hlook

theorem Sound.reserve (h : Sound s) (hs : s.step (.reserve c) = some s') : Sound s' := by
  simp only [step] at hs
  split at hs
  case h_2 => cases hs
  case h_1 id resume hcall =>
    have hlocked : s.lock = some c := h.lock c _ hcall rfl
    have hnone : ∀ c' ≠ c, s.lock = some c' → (none : Option Nat) = some c' := by
      rintro c' hne hl
      exact absurd (Option.some.inj (hl.symm.trans hlocked)) hne
    split at hs
    case isTrue hmem =>
      cases hs
      exact h.walk hcall rfl rfl rfl rfl hnone nofun (fun _ hmem => .inl hmem) nofun trivial
        fun hout => absurd hmem hout
    case isFalse hout =>
      cases hs
      refine h.walk hcall rfl rfl rfl rfl hnone nofun
        (fun _ hmem => .inl (List.mem_cons_of_mem _ hmem))
        (fun _ => ⟨List.mem_cons_self, .inr hout⟩) ?_ fun hout => absurd List.mem_cons_self hout
      -- A live runner would be registered, and the call saw none under the lock.
      intro r hr
      exact h.knows c _ hcall r hr ((h.found id r hr).resolve_right hout)

theorem Sound.drop (h : Sound s) (hs : s.step (.drop c) = some s') : Sound s' := by
  simp only [step] at hs
  split at hs
  case h_2 => cases hs
  case h_1 call hcall =>
    split at hs
    case isFalse => cases hs
    case isTrue =>
      cases hs
      refine h.walk hcall rfl rfl rfl rfl ?_ nofun (fun _ hmem => .inl hmem) nofun trivial
        fun hout r hr => (h.found _ r hr).resolve_right hout
      intro c' hne hl
      rw [if_neg (by rw [hl]; simpa using hne)]
      exact hl

/-- What a call whose reservation ends knows of its live runners. -/
theorem Sound.release (h : Sound s) (hc : s.calls[c]? = some call)
    (hcalls : s'.calls = s.calls.set c call') (hid : call'.id = call.id)
    (hres : call.phase.reserved = true) (hended : call'.phase.executing = false)
    (hknown : ∀ r, LiveAt s.runners call.id r → s.entries.lookup call.id = some r)
    (hlock : ∀ c' ≠ c, s.lock = some c' → s'.lock = some c') (hentries : s'.entries = s.entries)
    (hrunners : s'.runners = s.runners)
    (hstarting : s'.starting = s.starting.filter (· ≠ call.id)) : Sound s' := by
  have hfree : call'.phase.holding = false ∧ call'.phase.reserved = false ∧
      Knows s.entries s.runners call' := by
    rcases call' with ⟨id', resume', phase'⟩
    cases phase' with
    | answered | dropped => exact ⟨rfl, rfl, trivial⟩
    | entering | reserving | starting | failing | registering | clearing => cases hended
  refine h.walk hc hcalls hid hentries hrunners hlock ?_ ?_ ?_ hfree.2.2 fun _ => hknown
  · rw [hfree.1]
    exact nofun
  · intro id hmem
    by_cases heq : id = call.id
    · exact .inr ⟨heq, hres⟩
    · rw [hstarting]
      exact .inl (List.mem_filter.mpr ⟨hmem, by simpa using heq⟩)
  · rw [hfree.2.1]
    exact nofun

theorem Sound.clearFailed (h : Sound s) (hs : s.step (.clearFailed c) = some s') : Sound s' := by
  simp only [step] at hs
  split at hs
  case h_2 => cases hs
  case h_1 id resume hcall =>
    cases hs
    exact h.release hcall rfl rfl rfl rfl (fun r hr => absurd hr (h.knows c _ hcall r))
      (fun _ _ hl => hl) rfl rfl rfl

theorem Sound.clear (h : Sound s) (hs : s.step (.clear c) = some s') : Sound s' := by
  simp only [step] at hs
  split at hs
  case h_2 => cases hs
  case h_1 id resume hcall =>
    cases hs
    have hlocked : s.lock = some c := h.lock c _ hcall rfl
    refine h.release hcall rfl rfl rfl rfl (h.knows c _ hcall) ?_ rfl rfl rfl
    exact fun c' hne hl => absurd (Option.some.inj (hl.symm.trans hlocked)) hne

/-- The runner that a bring-up spawns is the only live one of its id. -/
theorem Sound.bringUp {ok : Bool} (h : Sound s) (hs : s.step (.bringUp c ok) = some s') :
    Sound s' := by
  simp only [step] at hs
  split at hs
  case h_2 => cases hs
  case h_1 id resume hcall =>
    have hnone : ∀ r, ¬ LiveAt s.runners id r := h.knows c _ hcall
    have hmem : id ∈ s.starting := h.reserved c _ hcall rfl
    split at hs
    case isFalse =>
      cases hs
      exact h.walk hcall rfl rfl rfl rfl (fun _ _ hl => hl) nofun (fun _ hmem => .inl hmem)
        (fun _ => ⟨hmem, .inl rfl⟩) hnone fun hout => absurd hmem hout
    case isTrue =>
      cases hs
      have hlive : ∀ id' r, LiveAt (s.runners ++ [⟨id, false⟩]) id' r →
          LiveAt s.runners id' r ∨ id' = id ∧ r = s.runners.length := by
        intro id' r hr
        rcases getElem?_concat_eq_some hr with hold | ⟨hlen, heq⟩
        · exact .inl hold
        · cases heq
          exact .inr ⟨rfl, hlen⟩
      refine h.move hcall rfl rfl (fun _ _ hl => hl) nofun (fun _ hmem => .inl hmem)
        (fun _ => ⟨hmem, .inl rfl⟩) ?_ ?_ ?_ ?_ ?_
      · intro c' hne other hother hk
        by_cases heq : other.id = id
        · -- Of the other calls for this id none has a reservation, and the new runner is not
          -- the one registered.
          have hres : other.phase.reserved = false := by
            rw [Bool.eq_false_iff]
            exact fun hres => hne (h.unique c' other c _ hother hcall hres rfl heq)
          rcases other with ⟨id', resume', phase'⟩
          cases phase' with
          | entering | answered | dropped => trivial
          | starting | failing | registering | clearing => cases hres
          | reserving =>
            intro r hr hlook
            rcases hlive _ r hr with hold | ⟨-, rfl⟩
            · exact hk r hold hlook
            · exact absurd (h.bound _ _ hlook) (Nat.lt_irrefl _)
        · have hsame : ∀ r, LiveAt (s.runners ++ [⟨id, false⟩]) other.id r →
              LiveAt s.runners other.id r :=
            fun r hr => (hlive _ r hr).resolve_right fun hnew => heq hnew.1
          rcases other with ⟨id', resume', phase'⟩
          cases phase' with
          | entering | answered | dropped => trivial
          | reserving | clearing | starting | failing => exact fun r hr => hk r (hsame r hr)
          | registering r' =>
            refine ⟨?_, fun r hr => hk.2 r (hsame r hr)⟩
            rw [List.length_append]
            exact Nat.lt_add_right _ hk.1
      · exact ⟨by simp, fun r hr => ((hlive id r hr).resolve_left (hnone r)).2⟩
      · intro id' r hlook
        rw [List.length_append]
        exact Nat.lt_add_right _ (h.bound id' r hlook)
      · intro id' r hr
        rcases hlive id' r hr with hold | ⟨rfl, -⟩
        · exact h.found id' r hold
        · exact .inr hmem
      · intro id' r r' hr hr'
        rcases hlive id' r hr with hold | ⟨rfl, rfl⟩ <;>
          rcases hlive _ r' hr' with hold' | ⟨heq, rfl⟩
        · exact h.one id' r r' hold hold'
        · exact absurd (heq ▸ hold) (hnone r)
        · exact absurd hold' (hnone r')
        · rfl

theorem lookup_filter_ne {entries : List (Id × Nat)} {id' : Id} (h : id' ≠ id) :
    (entries.filter (·.1 ≠ id)).lookup id' = entries.lookup id' := by
  induction entries with
  | nil => rfl
  | cons e entries ih =>
    by_cases he : e.1 = id
    · rw [List.filter_cons_of_neg (by simpa using he), ih, List.lookup_cons,
        beq_false_of_ne (by rw [he]; exact h)]
    · rw [List.filter_cons_of_pos (by simpa using he), List.lookup_cons, List.lookup_cons, ih]

/-- Registering puts the spawned runner in the place of its id's last one. -/
theorem Sound.register (h : Sound s) (hs : s.step (.register c) = some s') : Sound s' := by
  simp only [step] at hs
  split at hs
  case h_2 => cases hs
  case h_1 id resume r hcall hfree =>
    cases hs
    have hmem : id ∈ s.starting := h.reserved c _ hcall rfl
    obtain ⟨hlt, hrunner⟩ := h.knows c _ hcall
    have hself : ((id, r) :: s.entries.filter (·.1 ≠ id)).lookup id = some r := by simp
    have hother : ∀ id' ≠ id, ((id, r) :: s.entries.filter (·.1 ≠ id)).lookup id' =
        s.entries.lookup id' := by
      intro id' hne
      rw [List.lookup_cons, beq_false_of_ne hne]
      exact lookup_filter_ne hne
    refine h.move hcall rfl rfl (by simp [hfree]) (fun _ => rfl) (fun _ hmem => .inl hmem)
      (fun _ => ⟨hmem, .inl rfl⟩) ?_ ?_ ?_ ?_ h.one
    · intro c' hne call hcall' hk
      by_cases heq : call.id = id
      · -- Another call for the id has no reservation, and none can be reserving while the lock
        -- is free.
        have hres : call.phase.reserved = false := by
          rw [Bool.eq_false_iff]
          exact fun hres => hne (h.unique c' call c _ hcall' hcall hres rfl heq)
        have hhold : call.phase.holding = false := by
          rw [Bool.eq_false_iff]
          intro hhold
          have := h.lock c' call hcall' hhold
          rw [hfree] at this
          cases this
        rcases call with ⟨id', resume', phase'⟩
        cases phase' with
        | entering | answered | dropped => trivial
        | starting | failing | registering | clearing => cases hres
        | reserving => cases hhold
      · rcases call with ⟨id', resume', phase'⟩
        cases phase' with
        | entering | answered | dropped => trivial
        | starting | failing | registering => exact hk
        | reserving =>
          intro r' hr'
          dsimp only
          rw [hother id' heq]
          exact hk r' hr'
        | clearing =>
          intro r' hr'
          dsimp only
          rw [hother id' heq]
          exact hk r' hr'
    · intro r' hr'
      rw [hrunner r' hr']
      exact hself
    · intro id' r' hlook
      dsimp only at hlook
      by_cases heq : id' = id
      · subst heq
        rw [hself] at hlook
        cases hlook
        exact hlt
      · rw [hother id' heq] at hlook
        exact h.bound id' r' hlook
    · intro id' r' hr'
      dsimp only
      by_cases heq : id' = id
      · subst heq
        exact .inr hmem
      · rw [hother id' heq]
        exact h.found id' r' hr'

/-- A runner that ends is only one live runner less. -/
theorem Sound.finish {r : Nat} (h : Sound s) (hs : s.step (.finish r) = some s') : Sound s' := by
  simp only [step] at hs
  split at hs
  case h_2 => cases hs
  case h_1 runner hrunner =>
    cases hs
    have hlive : ∀ id r', LiveAt (s.runners.set r ⟨runner.id, true⟩) id r' →
        LiveAt s.runners id r' := by
      intro id r' hr'
      rcases getElem?_set_eq_some hr' with ⟨-, heq⟩ | ⟨-, hold⟩
      · cases heq
      · exact hold
    refine ⟨h.lock, h.reserved, h.unique, ?_, ?_, fun id r' hr' => h.found id r' (hlive id r' hr'),
      fun id r₁ r₂ h₁ h₂ => h.one id r₁ r₂ (hlive id r₁ h₁) (hlive id r₂ h₂)⟩
    · intro c call hcall
      have hk := h.knows c call hcall
      rcases call with ⟨id', resume', phase'⟩
      cases phase' with
      | entering | answered | dropped => trivial
      | reserving | clearing | starting | failing => exact fun r' hr' => hk r' (hlive _ r' hr')
      | registering r' =>
        refine ⟨?_, fun r' hr' => hk.2 r' (hlive _ r' hr')⟩
        rw [List.length_set]
        exact hk.1
    · intro id r' hlook
      rw [List.length_set]
      exact h.bound id r' hlook

theorem Sound.arrive {resume : Bool} (h : Sound s) (hs : s.step (.arrive id resume) = some s') :
    Sound s' := by
  cases hs
  have hcalls : ∀ {c : Nat} {call : StartCall Id},
      (s.calls ++ [⟨id, resume, .entering⟩])[c]? = some call →
      s.calls[c]? = some call ∨ call.phase = .entering := by
    intro c call hcall
    rcases getElem?_concat_eq_some hcall with hold | ⟨-, rfl⟩
    · exact .inl hold
    · exact .inr rfl
  refine ⟨?_, ?_, ?_, ?_, h.bound, h.found, h.one⟩
  · intro c call hcall hhold
    rcases hcalls hcall with hold | hnew
    · exact h.lock c call hold hhold
    · rw [hnew] at hhold
      cases hhold
  · intro c call hcall hres
    rcases hcalls hcall with hold | hnew
    · exact h.reserved c call hold hres
    · rw [hnew] at hres
      cases hres
  · intro c call c' call' hcall hcall' hres hres' heq
    rcases hcalls hcall with hold | hnew
    · rcases hcalls hcall' with hold' | hnew'
      · exact h.unique c call c' call' hold hold' hres hres' heq
      · rw [hnew'] at hres'
        cases hres'
    · rw [hnew] at hres
      cases hres
  · intro c call hcall
    rcases hcalls hcall with hold | hnew
    · exact h.knows c call hold
    · rcases call with ⟨id', resume', phase'⟩
      cases hnew
      trivial

theorem Sound.step {a : RegistryAction Id} (h : Sound s) (hs : s.step a = some s') : Sound s' := by
  cases a with
  | arrive id resume => exact h.arrive hs
  | enter c => exact h.enter hs
  | reserve c => exact h.reserve hs
  | bringUp c ok => exact h.bringUp hs
  | clearFailed c => exact h.clearFailed hs
  | register c => exact h.register hs
  | clear c => exact h.clear hs
  | drop c => exact h.drop hs
  | finish r => exact h.finish hs

theorem one_live_runner {C : Registry Id → RegistryAction Id → Prop} (h : Runs step C empty s)
    {r r' : Nat} (hr : LiveAt s.runners id r) (hr' : LiveAt s.runners id r') : r = r' :=
  (h.invariant sound_empty fun _ _ _ hI _ hs => hI.step hs).one id r r' hr hr'

/-! ### Reservations -/

/-- No call is dropped while it holds a reservation. -/
def Steadfast (s : Registry Id) : RegistryAction Id → Prop
  | .drop c => ∀ call ∈ s.calls[c]?, call.phase.reserved = false
  | _ => True

instance (s : Registry Id) (a : RegistryAction Id) : Decidable (Steadfast s a) := by
  cases a <;> unfold Steadfast <;> infer_instance

/-- Every reserved id has a call that holds the reservation. -/
def Held (s : Registry Id) : Prop :=
  ∀ id ∈ s.starting, ∃ (c : Nat) (call : StartCall Id), s.calls[c]? = some call ∧
    call.id = id ∧ call.phase.reserved = true

omit [DecidableEq Id] in
/-- A call moves on: its reservation stays with it or ends. -/
theorem Held.move {s s' : Registry Id} {c : Nat} {call call' : StartCall Id} (h : Held s)
    (hc : s.calls[c]? = some call) (hcalls : s'.calls = s.calls.set c call')
    (hid : call'.id = call.id)
    (hstarting : ∀ id ∈ s'.starting, id ∈ s.starting ∧
        (id = call.id → call.phase.reserved = true → call'.phase.reserved = true) ∨
      id = call.id ∧ call'.phase.reserved = true) : Held s' := by
  have hset : s'.calls[c]? = some call' := by
    rw [hcalls, List.getElem?_set_self (List.getElem?_eq_some_iff.mp hc).1]
  intro id hmem
  rcases hstarting id hmem with ⟨hold, hkeep⟩ | ⟨heq, hres⟩
  · obtain ⟨c', other, hother, hid', hres⟩ := h id hold
    by_cases hne : c' = c
    · subst hne
      obtain rfl : other = call := Option.some.inj (hother.symm.trans hc)
      exact ⟨c', call', hset, hid.trans hid', hkeep hid'.symm hres⟩
    · refine ⟨c', other, ?_, hid', hres⟩
      rw [hcalls, List.getElem?_set_ne (Ne.symm hne)]
      exact hother
  · exact ⟨c, call', hset, hid.trans heq.symm, hres⟩

theorem Held.step {a : RegistryAction Id} (h : Held s) (hc : Steadfast s a)
    (hs : s.step a = some s') : Held s' := by
  cases a with
  | arrive id resume =>
    cases hs
    intro id' hmem
    obtain ⟨c, call, hcall, hid, hres⟩ := h id' hmem
    refine ⟨c, call, ?_, hid, hres⟩
    rw [List.getElem?_append_left (List.getElem?_eq_some_iff.mp hcall).1]
    exact hcall
  | enter c =>
    simp only [Registry.step] at hs
    split at hs
    case h_2 => cases hs
    case h_1 id resume hcall hfree =>
      split at hs <;> cases hs <;> exact h.move hcall rfl rfl fun _ hmem => .inl ⟨hmem, nofun⟩
  | reserve c =>
    simp only [Registry.step] at hs
    split at hs
    case h_2 => cases hs
    case h_1 id resume hcall =>
      split at hs <;> cases hs
      · exact h.move hcall rfl rfl fun _ hmem => .inl ⟨hmem, nofun⟩
      · refine h.move hcall rfl rfl fun id' hmem => ?_
        rcases List.mem_cons.mp hmem with rfl | hmem
        · exact .inr ⟨rfl, rfl⟩
        · exact .inl ⟨hmem, nofun⟩
  | bringUp c ok =>
    simp only [Registry.step] at hs
    split at hs
    case h_2 => cases hs
    case h_1 id resume hcall =>
      split at hs <;> cases hs <;>
        exact h.move hcall rfl rfl fun _ hmem => .inl ⟨hmem, fun _ _ => rfl⟩
  | register c =>
    simp only [Registry.step] at hs
    split at hs
    case h_2 => cases hs
    case h_1 id resume r hcall hfree =>
      cases hs
      exact h.move hcall rfl rfl fun _ hmem => .inl ⟨hmem, fun _ _ => rfl⟩
  | clearFailed c | clear c =>
    simp only [Registry.step] at hs
    split at hs
    case h_2 => cases hs
    case h_1 id resume hcall =>
      cases hs
      refine h.move hcall rfl rfl fun id' hmem => .inl ?_
      obtain ⟨hmem, hne⟩ := List.mem_filter.mp hmem
      exact ⟨hmem, fun heq => absurd heq (by simpa using hne)⟩
  | drop c =>
    simp only [Registry.step] at hs
    split at hs
    case h_2 => cases hs
    case h_1 call hcall =>
      split at hs
      case isFalse => cases hs
      case isTrue =>
        cases hs
        refine h.move hcall rfl rfl fun _ hmem => .inl ⟨hmem, fun _ hres => ?_⟩
        rw [hc call hcall] at hres
        cases hres
  | finish r =>
    simp only [Registry.step] at hs
    split at hs <;> cases hs
    exact h

/-- **The registry**: no run whatever gives an id two live runners, and in every run in which
no call is dropped while it holds a reservation, an id for which no call is executing is not
among the starting ones. -/
theorem start_released :
    (∀ s : Registry Id, Runs step Any empty s → ∀ id r r',
      LiveAt s.runners id r → LiveAt s.runners id r' → r = r') ∧
    (∀ s : Registry Id, Runs step Steadfast empty s → ∀ id,
      (∀ call ∈ s.calls, call.id = id → call.phase.executing = false) → id ∉ s.starting) := by
  refine ⟨fun s h id r r' => one_live_runner h, fun s h id hnone hmem => ?_⟩
  have hheld : Held s :=
    h.invariant (fun id hmem => absurd hmem (List.not_mem_nil)) fun _ _ _ hI hc hs => hI.step hc hs
  obtain ⟨c, call, hcall, hid, hres⟩ := hheld id hmem
  have hended := hnone call (List.mem_of_getElem? hcall) hid
  rw [StartPhase.executing_of_reserved hres] at hended
  cases hended

/-- A start that fails, then one that succeeds. -/
def retriedStart : List (RegistryAction Nat) :=
  [.arrive 7 false, .enter 0, .reserve 0, .bringUp 0 false, .arrive 7 false, .enter 1,
    .clearFailed 0, .reserve 1, .bringUp 1 true, .register 1, .clear 1]

theorem start_released_retriedStart : ∃ s : Registry Nat,
    exec step Steadfast retriedStart empty = some s ∧ 7 ∉ s.starting := by
  have hrun : (exec step Steadfast retriedStart (empty : Registry Nat)).any
      (fun s => s.calls.all fun call => !call.phase.executing) = true := by decide
  obtain ⟨s, hs, hended⟩ := (Option.any_eq_true _ _).mp hrun
  refine ⟨s, hs, start_released.2 s (runs_exec hs) 7 fun call hcall _ => ?_⟩
  simpa using List.all_eq_true.mp hended call hcall

/-- The first start is dropped during its bring-up; a later one comes when no call is left. -/
def droppedStart : List (RegistryAction Nat) :=
  [.arrive 7 true, .enter 0, .reserve 0, .drop 0, .arrive 7 true, .enter 1, .reserve 1]

/-- **A dropped start blocks its id**: its reservation stays with no call executing, and a later
start is refused as already starting. -/
theorem reservation_leaks : ∃ s : Registry Nat, Runs step Any empty s ∧
    s.calls = [⟨7, true, .dropped⟩, ⟨7, true, .answered .alreadyStarting⟩] ∧ 7 ∈ s.starting := by
  have hrun : (exec step Any droppedStart (empty : Registry Nat)).any (fun s =>
      decide (s.calls = [⟨7, true, .dropped⟩, ⟨7, true, .answered .alreadyStarting⟩] ∧
        7 ∈ s.starting)) = true := by decide
  obtain ⟨s, hs, hleak⟩ := (Option.any_eq_true _ _).mp hrun
  exact ⟨s, runs_exec hs, of_decide_eq_true hleak⟩

end Registry

end Orchestrator.Server
