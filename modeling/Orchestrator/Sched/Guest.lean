import Orchestrator.Sched.Execute

/-! # Sched — Guest

What the machines behind the leases do. A guest is deterministic: a machine restored from a
snapshot with an entropy seed, and then injected, run and captured, always gives the same
result, and a child forked with a seed is the machine that is restored with it. The worker may
fail any call, and what a failed call has done to its machine is not known.

* `Guest.outcome`: the result of a job, by itself.
* `Guest.Backs`: the answers along a trace are those of the machines.
* `served_of_interleaving`: tasks that have no lease in common do not see each other.
* `Driver.reports_jobTask`, `Driver.reports_childTask`, `Driver.reports_runJobWithRetry`: what a
  job returns on the restore path, on the fork path and from the retries.
-/

namespace Orchestrator.Sched

open Core Services Lib
open Sched.Driver (Op Ans Trace)

/-- How machines in state `σ` behave. -/
structure Guest (σ : Type) where
  /-- The machine a snapshot is restored to, with its own entropy or with a seed. -/
  restore : SnapshotRef → Option Nat → σ
  /-- The frame counter of a snapshot. -/
  frameCounter : SnapshotRef → Nat
  /-- A child of a machine, with its entropy seed. -/
  fork : σ → Nat → σ
  inject : σ → List ScheduledEvent → σ
  run : σ → RunUntil → Option Nat → RunStop × σ
  capture : σ → Bool → Capture
  fork_restore : ∀ snapshot seed, fork (restore snapshot none) seed = restore snapshot (some seed)

namespace Guest

variable {σ : Type} (g : Guest σ)

/-! ### A job by itself -/

/-- A job's burst, played on a machine. -/
def play (d : Driver) (spec : JobSpec) (machine : σ) (frame : Nat) :
    Except ClientError JobResult := do
  let pad ← padBurst d spec.burst
  let (events, frameBudget) ← burstEvents pad frame
  let (run, machine) := g.run (g.inject machine events) (.frameBudget frameBudget) d.hardIcountCap
  let verdict ← verdictFromStopReason run.reason
  let capture := if verdict = .guestCrash then none else some (g.capture machine true)
  pure { jobIdx := spec.jobIdx, verdict, burst := spec.burst, capture
         sdkEvents := run.sdkEvent.toList }

/-- The result of a job: its burst, played from its parent's snapshot with the entropy seed of
the experiment, the batch and the job. -/
def outcome (d : Driver) (spec : JobSpec) : Except ClientError JobResult :=
  let seed := d.deriveJobEntropySeed d.experimentSeed spec.batchSeq spec.jobIdx
  g.play d spec (g.restore spec.parentSnapshot (some seed)) (g.frameCounter spec.parentSnapshot)

/-- The machine a job is run on. -/
def started (d : Driver) (spec : JobSpec) : σ :=
  g.restore spec.parentSnapshot
    (some (d.deriveJobEntropySeed d.experimentSeed spec.batchSeq spec.jobIdx))

/-! ### The machines along a trace -/

/-- The machines behind the leases, where they are known. -/
abbrev Machines (σ : Type) := Lease → Option σ

/-- The machines after a call. -/
def after (m : Machines σ) : Exchange Op Ans → Machines σ
  | ⟨.restoreSnapshot snapshot seed, .ok (lease, _)⟩ =>
    Function.update m lease (some (g.restore snapshot seed))
  | ⟨.fork parent seeds, .ok children⟩ => fun lease =>
    match (children.zip seeds).lookup lease with
    | some seed => (m parent).map (g.fork · seed)
    | none => m lease
  | ⟨.injectInputs lease events, .ok ()⟩ =>
    Function.update m lease ((m lease).map (g.inject · events))
  | ⟨.run lease until? hardIcountCap, .ok _⟩ =>
    Function.update m lease ((m lease).map fun machine => (g.run machine until? hardIcountCap).2)
  | ⟨.createVm _, .ok lease⟩ => Function.update m lease none
  -- A machine is not known any more once a call on it has failed.
  | ⟨.injectInputs lease _, .error _⟩ | ⟨.run lease _ _, .error _⟩
  | ⟨.takeSnapshot lease _, .error _⟩ | ⟨.destroyVm lease _, _⟩ => Function.update m lease none
  | _ => m

/-- The answer to a call is that of the machine it is about. -/
def Serves (m : Machines σ) : Exchange Op Ans → Prop
  | ⟨.restoreSnapshot snapshot _, .ok (_, frame)⟩ => frame = g.frameCounter snapshot
  | ⟨.run lease until? hardIcountCap, .ok stop⟩ =>
    ∀ machine ∈ m lease, stop = (g.run machine until? hardIcountCap).1
  | ⟨.takeSnapshot lease sealInputLog, .ok capture⟩ =>
    ∀ machine ∈ m lease, capture = g.capture machine sealInputLog
  | _ => True

/-- The machines after the calls of a trace. -/
def machines (m : Machines σ) (t : Trace) : Machines σ := t.foldl g.after m

/-- The answers along a trace are those of the machines. -/
def Served (m : Machines σ) : Trace → Prop
  | [] => True
  | e :: t => g.Serves m e ∧ Served (g.after m e) t

end Guest

/-- The leases the calls of a trace hand out. -/
def handed (t : Trace) : List Lease := t.flatMap fun e => (Driver.allocated e).map Vm.lease

/-- The worker behind a trace: its answers are those of the guest, and a lease is handed out
once. -/
structure Guest.Backs {σ : Type} (g : Guest σ) (t : Trace) : Prop where
  served : g.Served (fun _ => none) t
  once : (handed t).Nodup

/-! ### Locality -/

section

variable {σ : Type} {g : Guest σ} {m m' : Guest.Machines σ} {e : Exchange Op Ans} {t u : Trace}
  {lease : Lease}

namespace Guest

theorem served_append : g.Served m (t ++ u) ↔ g.Served m t ∧ g.Served (g.machines m t) u := by
  induction t generalizing m with
  | nil => simp [Served, machines]
  | cons e t ih =>
    simp only [List.cons_append, Served, ih, and_assoc]
    rfl

theorem after_of_notMem (h : lease ∉ leases e) : g.after m e lease = m lease := by
  obtain ⟨op, answer⟩ := e
  cases op with
  | restoreSnapshot => cases answer <;> simp_all [after, leases, Function.update]
  | createVm => cases answer <;> simp_all [after, leases, Function.update]
  | injectInputs => cases answer <;> simp_all [after, leases, Function.update]
  | run => cases answer <;> simp_all [after, leases, Function.update]
  | takeSnapshot => cases answer <;> simp_all [after, leases, Function.update]
  | destroyVm => simp_all [after, leases, Function.update]
  | fork parent seeds =>
    cases answer with
    | error => rfl
    | ok children =>
      have hnone : (children.zip seeds).lookup lease = none := by
        refine List.lookup_eq_none_iff.mpr fun entry hentry => ?_
        have hmem : entry.1 ∈ children := (List.of_mem_zip hentry).1
        simp only [bne_iff_ne, ne_eq]
        rintro rfl
        exact h (List.mem_cons_of_mem _ hmem)
      simp only [after, hnone]
  | _ => rfl

/-- What a call does to a machine depends on the machines it is about. -/
theorem after_congr (h : ∀ l ∈ leases e, m l = m' l) (hlease : m lease = m' lease) :
    g.after m e lease = g.after m' e lease := by
  by_cases hmem : lease ∈ leases e
  · obtain ⟨op, answer⟩ := e
    cases op with
    | fork parent seeds =>
      cases answer with
      | error => exact hlease
      | ok children =>
        have hparent : m parent = m' parent := h parent (by simp [leases])
        simp only [after, hparent, hlease]
    | _ => cases answer <;> simp_all [after, leases, Function.update]
  · rw [after_of_notMem hmem, after_of_notMem hmem, hlease]

theorem serves_congr (h : ∀ l ∈ leases e, m l = m' l) (hs : g.Serves m e) : g.Serves m' e := by
  obtain ⟨op, answer⟩ := e
  cases op <;> cases answer <;> simp_all [Serves, leases]

theorem Served.congr (h : ∀ e ∈ t, ∀ l ∈ leases e, m l = m' l) (hs : g.Served m t) :
    g.Served m' t := by
  induction t generalizing m m' with
  | nil => trivial
  | cons e t ih =>
    obtain ⟨he, ht⟩ := List.forall_mem_cons.mp h
    exact ⟨serves_congr he hs.1,
      ih (fun x hx l hl => after_congr he (ht x hx l hl)) hs.2⟩

end Guest

/-- The leases that a trace is about. -/
def touched (t : Trace) : List Lease := t.flatMap leases

theorem mem_touched : lease ∈ touched t ↔ ∃ e ∈ t, lease ∈ leases e := List.mem_flatMap

/-- No two of the traces have a lease in common. -/
def Apart (us : List Trace) : Prop :=
  ∀ (i j : Nat) (u v : Trace), us[i]? = some u → us[j]? = some v → i ≠ j →
    (touched u).Disjoint (touched v)

variable {us : List Trace}

theorem Apart.set {i : Nat} {rest : Trace} (h : Apart us) (hi : us[i]? = some (e :: rest)) :
    Apart (us.set i rest) := by
  have hsub : touched rest ⊆ touched (e :: rest) := List.subset_append_right _ _
  intro j k u v hj hk hne
  rcases getElem?_set_eq_some hj with ⟨rfl, rfl⟩ | ⟨-, hj'⟩
  · rcases getElem?_set_eq_some hk with ⟨rfl, -⟩ | ⟨-, hk'⟩
    · exact absurd rfl hne
    · exact List.disjoint_of_subset_left hsub (h j k _ v hi hk' hne)
  · rcases getElem?_set_eq_some hk with ⟨rfl, rfl⟩ | ⟨-, hk'⟩
    · exact List.disjoint_of_subset_right hsub (h j k u _ hj' hi hne)
    · exact h j k u v hj' hk' hne

/-- Tasks that have no lease in common do not see each other's machines. -/
theorem served_of_interleaving (h : Interleaving us t) (hapart : Apart us) (hs : g.Served m t) :
    ∀ u ∈ us, g.Served m u := by
  induction h generalizing m with
  | nil hnil =>
    intro u hu
    rw [hnil u hu]
    trivial
  | @cons us i e rest t hi _ ih =>
    intro u hu
    have hrest := ih (hapart.set hi) hs.2
    obtain ⟨j, hj⟩ := List.mem_iff_getElem?.mp hu
    by_cases hij : j = i
    · subst hij
      cases hi.symm.trans hj
      have hlt := (List.getElem?_eq_some_iff.mp hi).1
      exact ⟨hs.1, hrest rest (List.mem_of_getElem? (List.getElem?_set_self hlt))⟩
    · have hlater := hrest u (List.mem_of_getElem? ((List.getElem?_set_ne (Ne.symm hij)).trans hj))
      -- The call of the other task is about none of this task's machines.
      refine hlater.congr fun x hx l hl => Guest.after_of_notMem fun hle => ?_
      exact hapart j i u _ hj hi hij (mem_touched.mpr ⟨x, hx, hl⟩)
        (mem_touched.mpr ⟨e, List.mem_cons_self, hle⟩)

/-! ### The leases of a task -/

/-- The calls of a trace are about leases that it was handed. -/
def Owned (t : Trace) : Prop := touched t ⊆ handed t

theorem handed_append : handed (t ++ u) = handed t ++ handed u := List.flatMap_append

theorem Guest.Backs.left (h : g.Backs u) (ht : t <+: u) : g.Backs t := by
  obtain ⟨v, rfl⟩ := ht
  refine ⟨(Guest.served_append.mp h.served).1, ?_⟩
  have honce := h.once
  rw [handed_append] at honce
  exact honce.sublist (List.sublist_append_left _ _)

theorem handed_flatten (us : List Trace) : handed us.flatten = (us.map handed).flatten := by
  induction us with
  | nil => rfl
  | cons u us ih => rw [List.flatten_cons, handed_append, ih, List.map_cons, List.flatten_cons]

theorem apart_of_owned (h : Interleaving us t) (howned : ∀ u ∈ us, Owned u)
    (honce : (handed t).Nodup) : Apart us := by
  have hperm : (handed t).Perm (us.map handed).flatten := by
    rw [← handed_flatten]
    exact h.perm.flatMap_right _
  obtain ⟨-, hdisjoint⟩ := List.nodup_flatten.mp (hperm.nodup_iff.mp honce)
  have hpairwise := List.pairwise_iff_getElem.mp (List.pairwise_map.mp hdisjoint)
  intro i j u v hu hv hne
  have hsub : touched u ⊆ handed u ∧ touched v ⊆ handed v :=
    ⟨howned u (List.mem_of_getElem? hu), howned v (List.mem_of_getElem? hv)⟩
  obtain ⟨hi, rfl⟩ := List.getElem?_eq_some_iff.mp hu
  obtain ⟨hj, rfl⟩ := List.getElem?_eq_some_iff.mp hv
  refine List.disjoint_of_subset_left hsub.1 (List.disjoint_of_subset_right hsub.2 ?_)
  rcases Nat.lt_or_gt_of_ne hne with hlt | hlt
  · exact hpairwise i j hi hj hlt
  · exact fun l hl hl' => hpairwise j i hj hi hlt hl' hl

end

/-! ### A task on its machines -/

/-- What the guest has been asked along a trace: whether the answers were its own, the machines,
and the leases handed out. -/
structure Guest.World (σ : Type) where
  honest : Prop
  machines : Guest.Machines σ
  handed : List Lease

section

variable {σ : Type} {g : Guest σ} {w : Guest.World σ} {t : Trace}

def Guest.World.after (g : Guest σ) (w : Guest.World σ) (e : Exchange Op Ans) : Guest.World σ :=
  ⟨w.honest ∧ g.Serves w.machines e, g.after w.machines e,
    w.handed ++ (Driver.allocated e).map Vm.lease⟩

theorem Guest.World.foldl_after : t.foldl (Guest.World.after g) w =
    ⟨w.honest ∧ g.Served w.machines t, g.machines w.machines t, w.handed ++ Sched.handed t⟩ := by
  induction t generalizing w with
  | nil => simp [Guest.Served, Guest.machines, Sched.handed]
  | cons e t ih =>
    rw [List.foldl_cons, ih]
    simp [Guest.World.after, Guest.Served, Guest.machines, Sched.handed, and_assoc]

end

/-- What a result says of its job: its index and its burst, and with an honest worker all of
it. -/
structure Reports (what : Except ClientError JobResult) (honest : Prop) (spec : JobSpec)
    (job : JobResult) : Prop where
  jobIdx : job.jobIdx = spec.jobIdx
  burst : job.burst = spec.burst
  outcome : honest → what = .ok job

theorem Reports.mono {what : Except ClientError JobResult} {honest honest' : Prop} {spec : JobSpec}
    {job : JobResult} (h : Reports what honest spec job) (himp : honest' → honest) :
    Reports what honest' spec job :=
  ⟨h.jobIdx, h.burst, fun hh => h.outcome (himp hh)⟩

namespace Driver

def watch {σ : Type} (g : Guest σ) : Account (Guest.World σ) where
  after := Guest.World.after g
  elapsed w b := by simp [Guest.World.after, Guest.Serves, Guest.after, allocated]
  sleep w := by simp [Guest.World.after, Guest.Serves, Guest.after, allocated]

section

variable {σ α : Type} {g : Guest σ} {d : Driver} {s : Cell} {w : Guest.World σ} {lease : Lease}
  {spec : JobSpec} {frame fuel : Nat}

variable {x : M α} {Q : α → Cell → Guest.World σ → Prop} {E : Stop → Cell → Guest.World σ → Prop}
  {what : Except ClientError JobResult} {job : JobResult} {machine : σ} {policy : RetryPolicy}

/-- Whatever the worker answers. -/
theorem leads_any (hQ : ∀ a s' w', Q a s' w') (hE : ∀ e s' w', E e s' w') :
    x.Leads (watch g).after Q E (fun _ => True) s w :=
  Proc.leads_invariant (I := fun _ => True) (fun _ _ _ => trivial) (fun a s' w' _ => hQ a s' w')
    (fun e s' w' _ => hE e s' w') (fun _ _ => trivial) trivial

/-- What is known of a result once it is there stays known. -/
theorem leads_reported (h : Reports what w.honest spec job)
    (hQ : ∀ a s' w', Reports what w'.honest spec job → Q a s' w') (hE : ∀ e s' w', E e s' w') :
    x.Leads (watch g).after Q E (fun _ => True) s w :=
  Proc.leads_invariant (I := fun w' => Reports what w'.honest spec job)
    (fun _ _ hw' => hw'.mono And.left) hQ (fun e s' w' _ => hE e s' w') (fun _ _ => trivial) h

/-- A job on a machine returns what the guest makes of its burst. -/
theorem leads_playedInner (hm : w.machines lease = some machine)
    (hwhat : w.honest → g.play d spec machine frame = what) :
    (driveLeasedJobInner d spec lease frame).Leads (watch g).after
      (fun job _ w' => Reports what w'.honest spec job) (fun _ _ _ => True) (fun _ => True)
      s w := by
  refine Proc.leads_bind.mpr (leads_orReturn (fun pad hpad => ?_) fun _ _ => trivial)
  refine Proc.leads_bind.mpr (leads_orReturn (fun plan hplan => ?_) fun _ _ => trivial)
  obtain ⟨events, budget⟩ := plan
  refine Proc.leads_bind.mpr (leads_await (fun injected => ?_) fun _ => trivial)
  refine Proc.leads_bind.mpr (leads_orReturn (fun _ hinjected => ?_) fun _ _ => trivial)
  subst hinjected
  refine Proc.leads_bind.mpr (leads_await (fun ran => ?_) fun _ => trivial)
  refine Proc.leads_bind.mpr (leads_orReturn (fun run hran => ?_) fun _ _ => trivial)
  subst hran
  -- The machine once it has run, and how it stopped.
  generalize hw₁ : (watch g).after w ⟨.injectInputs lease events, .ok _⟩ = w₁
  generalize hw₂ : (watch g).after w₁ ⟨.run lease _ _, .ok run⟩ = w₂
  have hinjected : w₁.machines lease = some (g.inject machine events) := by
    simp [← hw₁, watch, Guest.World.after, Guest.after, hm]
  have hstop : w₂.honest → w.honest ∧
      run = (g.run (g.inject machine events) (.frameBudget budget) d.hardIcountCap).1 := by
    rw [← hw₂]
    intro hh
    have hh₁ := hh.1
    rw [← hw₁] at hh₁
    exact ⟨hh₁.1, hh.2 _ hinjected⟩
  have hran : w₂.machines lease =
      some (g.run (g.inject machine events) (.frameBudget budget) d.hardIcountCap).2 := by
    simp [← hw₂, watch, Guest.World.after, Guest.after, hinjected]
  refine Proc.leads_bind.mpr (leads_orReturn (fun verdict hverdict => ?_) fun _ _ => trivial)
  dsimp only
  split
  · next hcrash =>
    refine Proc.leads_bind.mpr (leads_reported ⟨rfl, rfl, fun hh => ?_⟩ (fun _ _ _ h => h)
      fun _ _ _ => trivial)
    obtain ⟨hh, hstop⟩ := hstop hh
    rw [← hwhat hh]
    simp [Guest.play, hpad, hplan, ← hstop, hverdict, hcrash, bind, Except.bind, pure, Except.pure]
  · next hcrash =>
    refine Proc.leads_bind.mpr (leads_await (fun taken => ?_) fun _ => trivial)
    refine Proc.leads_bind.mpr (leads_orReturn (fun snapshot htaken => ?_) fun _ _ => trivial)
    subst htaken
    refine Proc.leads_bind.mpr (leads_reported ⟨rfl, rfl, fun hh => ?_⟩ (fun _ _ _ h => h)
      fun _ _ _ => trivial)
    obtain ⟨hh, hcapture⟩ := hh
    obtain ⟨hh, hstop⟩ := hstop hh
    rw [← hwhat hh]
    simp [Guest.play, hpad, hplan, ← hstop, hverdict, hcrash, bind, Except.bind, pure, Except.pure,
      hcapture _ hran]

theorem caught_any {Q : Except ClientError α → Cell → Guest.World σ → Prop}
    (h : ∀ e s' w', Q (.error e) s' w') (e : Stop) (s' : Cell) (w' : Guest.World σ) :
    caught Q (fun _ _ _ => True) e s' w' := by
  cases e with
  | error e => exact h e s' w'
  | cancelled => trivial

theorem leads_played {Q : Except ClientError JobResult → Cell → Guest.World σ → Prop}
    (hm : w.machines lease = some machine) (hwhat : w.honest → g.play d spec machine frame = what)
    (hok : ∀ job s' w', Reports what w'.honest spec job → Q (.ok job) s' w')
    (herr : ∀ e s' w', Q (.error e) s' w') :
    (result (driveLeasedJob d spec lease frame)).Leads (watch g).after Q (fun _ _ _ => True)
      (fun _ => True) s w := by
  refine leads_result (Proc.leads_bind.mpr (leads_result ?_))
  refine Proc.leads_mono (leads_playedInner hm hwhat) hok fun e s' w' _ => ?_
  cases e with
  | error e =>
    exact Proc.leads_bind.mpr (leads_any (fun _ s' w' => herr e s' w') (caught_any herr))
  | cancelled => trivial

/-- A job's work: its result is its outcome. -/
theorem leads_worked : (work d fuel spec).Leads (watch g).after
    (fun job _ w' => Reports (g.outcome d spec) w'.honest spec job) (fun _ _ _ => True)
    (fun _ => True) s w := by
  refine Proc.leads_bind.mpr (leads_allocate (I := fun _ _ => True) (fun _ w _ => ?_)
    (fun _ _ _ _ => trivial) (fun _ _ => trivial) trivial)
  refine leads_await (fun r => ⟨rfl, ?_⟩) fun _ => trivial
  cases r with
  | error e =>
    dsimp only
    split <;> trivial
  | ok vm =>
    obtain ⟨lease, frame⟩ := vm
    generalize hw : (watch g).after w _ = w'
    have hm : w'.machines lease = some (g.started d spec) := by
      rw [← hw]
      exact Function.update_self ..
    have hwhat : w'.honest → g.play d spec (g.started d spec) frame = g.outcome d spec := by
      rw [← hw]
      rintro ⟨-, rfl⟩
      rfl
    refine Proc.leads_modify_bind.mpr (Proc.leads_bind.mpr (leads_played hm hwhat
      (fun job s' w' hjob => ?_) fun _ _ _ => trivial))
    exact Proc.leads_modify_bind.mpr hjob

/-- A job on the restore path. -/
theorem leads_ran {deadline : Option Nat}
    {Q : Except ClientError JobResult → Cell → Guest.World σ → Prop}
    (hok : ∀ job s' w', Reports (g.outcome d spec) w'.honest spec job → Q (.ok job) s' w')
    (herr : ∀ e s' w', Q (.error e) s' w') :
    (result (runJobDeadline d fuel spec deadline)).Leads (watch g).after Q (fun _ _ _ => True)
      (fun _ => True) s w := by
  have hcaught := caught_any herr
  refine leads_result (Proc.leads_bind.mpr (leads_await (fun acquired => ?_) fun _ => trivial))
  refine Proc.leads_bind.mpr (leads_orReturn (fun _ _ => ?_) fun e _ => herr e _ _)
  refine Proc.leads_modify_bind.mpr (Proc.leads_bind.mpr (Proc.leads_attempt.mpr (Proc.leads_mono
    leads_worked (fun job s' w' hjob => ?_) fun e s' w' _ => ?_)))
  · refine Proc.leads_get_bind.mpr (Proc.leads_modify_bind.mpr ?_)
    refine Proc.leads_bind.mpr (leads_reported hjob (fun _ s' w' hjob => ?_) hcaught)
    exact Proc.leads_bind.mpr (leads_reported hjob (fun _ s' w' hjob => hok job s' w' hjob) hcaught)
  · refine Proc.leads_get_bind.mpr (Proc.leads_modify_bind.mpr ?_)
    refine Proc.leads_bind.mpr (leads_any (fun _ s' w' => ?_) hcaught)
    refine Proc.leads_bind.mpr (leads_any (fun _ s' w' => ?_) hcaught)
    cases e with
    | error e => exact herr _ _ _
    | cancelled => exact herr _ _ _

theorem leads_retried {left : Nat} :
    (jobAttempts d policy fuel spec left).Leads (watch g).after
      (fun job _ w' => Reports (g.outcome d spec) w'.honest spec job) (fun _ _ _ => True)
      (fun _ => True) s w := by
  refine leads_jobAttempts (I := fun _ _ => True) (fun s w _ => ?_) (fun _ _ _ _ => trivial) trivial
  exact leads_ran (fun _ _ _ hjob => hjob) fun _ _ _ => ⟨trivial, trivial⟩

/-! The same of whole traces. -/

variable {t : Trace} {r : Nat × Except ClientError JobResult}

theorem reports_of_served (h : ∀ m, Reports what (True ∧ g.Served m t) spec job) :
    Reports what (∃ m, g.Served m t) spec job :=
  ⟨(h fun _ => none).jobIdx, (h fun _ => none).burst, fun ⟨m, hm⟩ => (h m).outcome ⟨trivial, hm⟩⟩

/-- What a task returns for its job. -/
def Returned (what : Except ClientError JobResult) (honest : Prop) (spec : JobSpec)
    (r : Nat × Except ClientError JobResult) : Prop :=
  r.1 = spec.jobIdx ∧ ∀ job, r.2 = .ok job → Reports what honest spec job

theorem reports_jobTask (h : Returns (jobTask d fuel spec) t (.ok r)) :
    Returned (g.outcome d spec) (∃ m, g.Served m t) spec r := by
  have hleads (w : Guest.World σ) : (jobTask d fuel spec).Leads (watch g).after
      (fun r _ w' => Returned (g.outcome d spec) w'.honest spec r) (fun _ _ _ => True)
      (fun _ => True) Cell.idle w := by
    refine Proc.leads_bind.mpr (leads_ran (fun job s' w' hjob => ⟨rfl, ?_⟩)
      fun _ _ _ => ⟨rfl, nofun⟩)
    rintro _ ⟨⟩
    exact hjob
  obtain ⟨cell, h⟩ := h
  have hserved (m) := (hleads ⟨True, m, []⟩).returns h
  simp only [watch, Guest.World.foldl_after] at hserved
  exact ⟨(hserved fun _ => none).1,
    fun job hjob => reports_of_served fun m => (hserved m).2 job hjob⟩

theorem reports_runJobWithRetry
    (h : Returns (result (runJobWithRetry d policy fuel spec)) t (.ok (.ok job))) :
    Reports (g.outcome d spec) (∃ m, g.Served m t) spec job := by
  have hleads (w : Guest.World σ) : (result (runJobWithRetry d policy fuel spec)).Leads
      (watch g).after (fun r _ w' => ∀ job, r = .ok job →
        Reports (g.outcome d spec) w'.honest spec job)
      (fun _ _ _ => True) (fun _ => True) Cell.idle w := by
    refine leads_result (Proc.leads_mono leads_retried (fun job s' w' hjob => ?_)
      fun e s' w' _ => caught_any (fun _ _ _ => nofun) e s' w')
    rintro _ ⟨⟩
    exact hjob
  obtain ⟨cell, h⟩ := h
  refine reports_of_served fun m => ?_
  have hserved := (hleads ⟨True, m, []⟩).returns h job rfl
  rwa [watch, Guest.World.foldl_after] at hserved

/-- The task of a forked child: its job, on its machine. -/
theorem reports_childTask {m : Guest.Machines σ} (hm : m lease = some machine)
    (h : Returns (childTask d spec lease frame) t (.ok r)) :
    Returned (g.play d spec machine frame) (g.Served m t) spec r := by
  have hleads : (childTask d spec lease frame).Leads (watch g).after
      (fun r _ w' => Returned (g.play d spec machine frame) w'.honest spec r) (fun _ _ _ => True)
      (fun _ => True) Cell.idle ⟨True, m, []⟩ := by
    refine Proc.leads_bind.mpr (leads_played hm (fun _ => rfl) (fun job s' w' hjob => ?_)
      fun e s' w' => ?_)
    · refine Proc.leads_bind.mpr (leads_reported hjob (fun _ s' w' hjob => ⟨rfl, ?_⟩)
        fun _ _ _ => trivial)
      rintro _ ⟨⟩
      exact hjob
    · exact Proc.leads_bind.mpr (leads_any (fun _ _ _ => ⟨rfl, nofun⟩) fun _ _ _ => trivial)
  obtain ⟨cell, h⟩ := h
  have hserved := hleads.returns h
  simp only [watch, Guest.World.foldl_after, true_and] at hserved
  exact hserved

/-- A task of the restore path uses the leases that it was handed. -/
theorem owned_jobTask (h : Returns (jobTask d fuel spec) t (.ok r)) : Owned t := by
  have hholds := holds_jobTask h
  intro l hl
  obtain ⟨e, he, hle⟩ := mem_touched.mp hl
  have hown := (Ledger.mem_of_foreign hholds.foreign).2 e he l hle
  rw [Ledger.leases, (@Ledger.foldl_sums t .empty).2.2.2] at hown
  simpa [Ledger.empty, handed, List.map_flatMap] using hown

end

end Driver

end Orchestrator.Sched
