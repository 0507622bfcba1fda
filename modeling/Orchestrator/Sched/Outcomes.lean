import Orchestrator.Sched.Guest

/-! # Sched — Outcomes

What a batch comes to, whichever way its jobs are run: forked from one restored parent, restored
one by one, or retried.

* `Driver.firstPass_runBatch`: the first pass, on the fork path and on the restore path.
* `Driver.leads_settle`: the retries.
* `Driver.execute_batch_outcomes`: the batch, whatever the worker answers and whoever goes on.
-/

namespace Orchestrator.Sched

open Core Services Lib

namespace Driver

section

variable {σ : Type} {g : Guest σ} {d : Driver} {t : Trace} {spec : JobSpec} {frame : Nat}
  {b : BatchSpec} {parent : Lease} {children : List Lease}
  {results : List (Nat × Except ClientError JobResult)}

theorem BatchSpec.getElem?_jobs (b : BatchSpec) (i : Nat) :
    b.jobs[i]? = b.bursts[i]?.map fun burst =>
      ⟨b.batchSeq, i, b.parentSnapshot, b.requiredClass, burst⟩ := by
  simp [BatchSpec.jobs, Function.comp_def]

theorem BatchSpec.map_jobIdx (b : BatchSpec) :
    b.jobs.map JobSpec.jobIdx = List.range b.bursts.length := by
  rw [BatchSpec.jobs, List.map_map, List.range_eq_range', ← List.zipIdx_map_snd 0 b.bursts]
  rfl

/-! ### The first pass -/

/-- How the fork path begins: it gives every job the same error, or restores a parent and forks
a child for each job, which is the machine that the job's seed restores. -/
def Tried (g : Guest σ) (d : Driver) (b : BatchSpec) (w : Guest.World σ) : Fork → Prop
  | .returned none => True
  | .returned (some results) => ∃ e, results = b.refused e
  | .forked _ frame children =>
    children.length = b.bursts.length ∧ children.Sublist w.handed ∧
      (w.honest → frame = g.frameCounter b.parentSnapshot ∧ (children.Nodup →
        ∀ p ∈ b.jobs.zip children, w.machines p.2 = some (g.started d p.1)))

/-- A forked child is the machine that its job's seed restores. -/
theorem machines_forked {m : Guest.Machines σ}
    (hm : m parent = some (g.restore b.parentSnapshot none))
    (hlength : children.length = b.bursts.length) (hnodup : children.Nodup) {p : JobSpec × Lease}
    (h : p ∈ b.jobs.zip children) : g.after m ⟨.fork parent (seeds d b), .ok children⟩ p.2 =
      some (g.started d p.1) := by
  obtain ⟨i, hi⟩ := List.mem_iff_getElem?.mp h
  obtain ⟨hspec, hchild⟩ := List.getElem?_zip_eq_some.mp hi
  rw [BatchSpec.getElem?_jobs] at hspec
  obtain ⟨burst, hburst, hspec⟩ := Option.map_eq_some_iff.mp hspec
  have hlt : i < b.bursts.length := (List.getElem?_eq_some_iff.mp hburst).1
  have hseed : (seeds d b)[i]? = some (d.deriveJobEntropySeed d.experimentSeed b.batchSeq i) := by
    simp [seeds, hlt]
  have hlookup : (children.zip (seeds d b)).lookup p.2 =
      some (d.deriveJobEntropySeed d.experimentSeed b.batchSeq i) := by
    refine lookup_of_mem ?_ (List.mem_of_getElem? (List.getElem?_zip_eq_some.mpr ⟨hchild, hseed⟩))
    rw [List.map_fst_zip (by simp [seeds, hlength])]
    exact hnodup
  simp [Guest.after, hlookup, hm, g.fork_restore, Guest.started, ← hspec]

theorem leads_tried {s : Cell} {w : Guest.World σ} : (tryFork d b).Leads (watch g).after
    (fun f _ w' => Tried g d b w' f) (fun _ _ _ => True) (fun _ => True) s w := by
  -- Whatever is torn down, and however, the results stay what they are.
  have hgiveUp {n s w results} (h : ∀ r, results = some r → ∃ e, r = b.refused e) :
      (do dropPermits n; pure (.returned results) : M Fork).Leads (watch g).after
        (fun f _ w' => Tried g d b w' f) (fun _ _ _ => True) (fun _ => True) s w := by
    refine Proc.leads_bind.mpr (leads_any (fun _ s' w' => ?_) fun _ _ _ => trivial)
    cases results with
    | none => trivial
    | some r => exact h r rfl
  refine Proc.leads_bind.mpr (leads_any (fun all s' w' => ?_) fun _ _ _ => trivial)
  split
  · refine Proc.leads_bind.mpr (leads_any (fun checked s' w' => ?_) fun _ _ _ => trivial)
    cases checked with
    | error e => exact hgiveUp (by simp)
    | ok _ =>
      refine Proc.leads_bind.mpr (leads_await (fun restored => ?_) fun _ => trivial)
      cases restored with
      | error e => exact hgiveUp (by simp)
      | ok vm =>
        obtain ⟨parent, frame⟩ := vm
        have htearDown {s w results} (h : ∀ r, results = some r → ∃ e, r = b.refused e) :
            (do let _ ← result (destroyWithRetry parent); dropPermits (b.bursts.length + 1);
                pure (.returned results) : M Fork).Leads (watch g).after
              (fun f _ w' => Tried g d b w' f) (fun _ _ _ => True) (fun _ => True) s w :=
          Proc.leads_bind.mpr (leads_any (fun _ _ _ => hgiveUp h) fun _ _ _ => trivial)
        show (forkChildren d b parent frame).Leads _ _ _ _ _ _
        unfold forkChildren
        dsimp only
        split
        · exact htearDown (by simp)
        · next requested hrequest =>
          obtain rfl : seeds d b = requested := by
            unfold forkRequest at hrequest
            split at hrequest
            · cases hrequest
            · split at hrequest <;> cases hrequest
              rfl
          refine Proc.leads_bind.mpr (leads_await (fun answer => ?_) fun _ => trivial)
          cases answer with
          | error e => exact htearDown fun r hr => ⟨e, by split at hr <;> cases hr; rfl⟩
          | ok children =>
            dsimp only
            split
            · next hlength =>
              refine ⟨hlength, ?_, fun hh => ⟨hh.1.2, fun hnodup p hp => ?_⟩⟩
              · simp [watch, Guest.World.after, allocated, Function.comp_def]
              · exact machines_forked (Function.update_self ..) hlength hnodup hp
            · exact Proc.leads_bind.mpr (leads_any (fun _ _ _ => htearDown (by simp))
                fun _ _ _ => trivial)
  · trivial

theorem tried_tryFork {f : Fork} (h : Returns (tryFork d b) t (.ok f)) :
    Tried g d b ⟨g.Served (fun _ => none) t, g.machines (fun _ => none) t, handed t⟩ f := by
  obtain ⟨cell, h⟩ := h
  have htried := Proc.Leads.returns (leads_tried (g := g) (w := ⟨True, fun _ => none, []⟩)) h
  simpa only [watch, Guest.World.foldl_after, true_and, List.nil_append] using htried

/-- A result of the first pass, for its job. -/
abbrev FirstPass (g : Guest σ) (d : Driver) (t : Trace) (spec : JobSpec)
    (r : Nat × Except ClientError JobResult) : Prop :=
  Returned (g.outcome d spec) (g.Backs t) spec r

theorem firstPass_refused (e : ClientError) :
    List.Forall₂ (FirstPass g d t) b.jobs (b.refused e) := by
  have hjobs : List.Forall₂ (fun (spec : JobSpec) jobIdx => jobIdx = spec.jobIdx) b.jobs
      (List.range b.bursts.length) := by
    rw [← BatchSpec.map_jobIdx, List.forall₂_map_right_iff]
    exact List.forall₂_same.mpr fun _ _ => rfl
  refine List.forall₂_map_right_iff.mpr (hjobs.imp fun spec jobIdx hidx => ⟨hidx, nofun⟩)

/-- Tasks that are each about a lease of their own are apart. -/
theorem apart_children {pairs : List (JobSpec × Lease)}
    {runs : List (Trace × (Nat × Except ClientError JobResult))}
    (hruns : List.Forall₂ (fun p run => ∀ e ∈ run.1, ∀ l ∈ leases e, l = p.2) pairs runs)
    (hnodup : (pairs.map Prod.snd).Nodup) : Apart (runs.map Prod.fst) := by
  have hlease : ∀ (i : Nat) u, (runs.map Prod.fst)[i]? = some u →
      ∃ lease, (pairs.map Prod.snd)[i]? = some lease ∧ ∀ l ∈ touched u, l = lease := by
    intro i u hu
    rw [List.getElem?_map] at hu
    obtain ⟨run, hrun, rfl⟩ := Option.map_eq_some_iff.mp hu
    obtain ⟨p, hp, habout⟩ := forall₂_getElem? hruns hrun
    refine ⟨p.2, by rw [List.getElem?_map, hp]; rfl, fun l hl => ?_⟩
    obtain ⟨e, he, hle⟩ := mem_touched.mp hl
    exact habout e he l hle
  intro i j u v hu hv hne l hlu hlv
  obtain ⟨lease, hi, htouched⟩ := hlease i u hu
  obtain ⟨lease', hj, htouched'⟩ := hlease j v hv
  obtain rfl := htouched l hlu
  obtain rfl := htouched' l hlv
  exact hne ((List.getElem?_inj (List.getElem?_eq_some_iff.mp hi).1 hnodup).mp (hi.trans hj.symm))

/-- The fork path. -/
theorem firstPass_joined {t₁ t₂ t₃ : Trace}
    (hfork : Returns (tryFork d b) t₁ (.ok (.forked parent frame children)))
    (hjoin : Joined ((b.jobs.zip children).map fun (spec, lease) => childTask d spec lease frame) t₂
      results) : List.Forall₂ (FirstPass g d (t₁ ++ t₂ ++ t₃)) b.jobs results := by
  obtain ⟨hlength, hhanded, hforked⟩ := tried_tryFork (g := g) hfork
  obtain ⟨runs, hruns, hweave, rfl⟩ := hjoin
  rw [List.forall₂_map_left_iff] at hruns
  have hfst : (b.jobs.zip children).map Prod.fst = b.jobs :=
    List.map_fst_zip (by rw [BatchSpec.length_jobs, hlength])
  have hsnd : (b.jobs.zip children).map Prod.snd = children :=
    List.map_snd_zip (by rw [BatchSpec.length_jobs, hlength])
  rw [List.forall₂_map_right_iff, ← hfst, List.forall₂_map_left_iff]
  refine (forall₂_mem hruns).imp fun p run hp => ?_
  obtain ⟨hmem, hrun, hreturns⟩ := hp
  -- Its index and its burst a result has from any machine.
  have hany := reports_childTask (g := g) (m := fun _ => some (g.started d p.1)) rfl hreturns
  refine ⟨hany.1, fun job hok => ⟨(hany.2 job hok).jobIdx, (hany.2 job hok).burst, ?_⟩⟩
  rintro ⟨hs, honce⟩
  obtain ⟨hs, -⟩ := Guest.served_append.mp hs
  obtain ⟨hs₁, hs₂⟩ := Guest.served_append.mp hs
  obtain ⟨hframe, hmachines⟩ := hforked hs₁
  have hnodup : children.Nodup := by
    refine List.Nodup.sublist ?_ honce
    rw [handed_append, handed_append]
    exact hhanded.trans ((List.sublist_append_left _ _).trans (List.sublist_append_left _ _))
  have hapart : Apart (runs.map Prod.fst) :=
    apart_children (hruns.imp fun p run hreturns => (retires_childTask hreturns).about)
      (hsnd.symm ▸ hnodup)
  have hserved := served_of_interleaving hweave hapart hs₂ run.1 (List.mem_map_of_mem hrun)
  have hplayed := (reports_childTask (g := g) (hmachines hnodup p hmem) hreturns).2 job hok
  have hspec : p.1.parentSnapshot = b.parentSnapshot := by
    obtain ⟨⟨burst, jobIdx⟩, -, hp⟩ := List.mem_map.mp (List.of_mem_zip hmem).1
    rw [← hp]
  rw [hframe, ← hspec] at hplayed
  exact hplayed.outcome hserved

/-- The restore path. -/
theorem firstPass_restored {fuel : Nat} {t₁ t₂ : Trace}
    (hjoin : Joined (b.jobs.map (jobTask d fuel)) t₂ results) :
    List.Forall₂ (FirstPass g d (t₁ ++ t₂)) b.jobs results := by
  obtain ⟨runs, hruns, hweave, rfl⟩ := hjoin
  rw [List.forall₂_map_left_iff] at hruns
  rw [List.forall₂_map_right_iff]
  refine (forall₂_mem hruns).imp fun spec run hspec => ?_
  obtain ⟨-, hrun, hreturns⟩ := hspec
  obtain ⟨hidx, hjob⟩ := reports_jobTask (g := g) hreturns
  refine ⟨hidx, fun job hok => (hjob job hok).mono fun ⟨hs, honce⟩ => ?_⟩
  have howned : ∀ u ∈ runs.map Prod.fst, Owned u := by
    intro u hu
    obtain ⟨run', hrun', rfl⟩ := List.mem_map.mp hu
    obtain ⟨spec', -, hreturns'⟩ := exists_of_forall₂ hruns.flip hrun'
    exact owned_jobTask hreturns'
  rw [handed_append] at honce
  have hapart := apart_of_owned hweave howned (honce.sublist (List.sublist_append_right _ _))
  have hs₂ := (Guest.served_append.mp hs).2
  exact ⟨_, served_of_interleaving hweave hapart hs₂ run.1 (List.mem_map_of_mem hrun)⟩

/-- The first pass over a batch: a result for each job, in order. -/
theorem firstPass_runBatch {fuel : Nat} (h : RunBatch d fuel b t results) :
    List.Forall₂ (FirstPass g d t) b.jobs results := by
  cases h with
  | forked _ h =>
    cases h with
    | returned h =>
      obtain ⟨e, rfl⟩ := tried_tryFork (g := g) h
      exact firstPass_refused e
    | joined hfork hjoin _ => exact firstPass_joined hfork hjoin
  | restored _ hjoin => exact firstPass_restored hjoin

/-! ### The retries -/

section

variable {policy : RetryPolicy} {mode : SchedMode} {fuel : Nat} {s : Unit} {w : Trace}

/-- An outcome of a job. -/
structure Settles (g : Guest σ) (d : Driver) (mode : SchedMode) (honest : Prop) (spec : JobSpec)
    (outcome : JobOutcome) : Prop where
  jobIdx : jobIdxOf outcome = spec.jobIdx
  deterministic : mode = .deterministic → ∃ job, outcome = .completed job
  reports : ∀ job, outcome = .completed job → Reports (g.outcome d spec) honest spec job

theorem settles_completed {honest : Prop} {job : JobResult}
    (h : Reports (g.outcome d spec) honest spec job) :
    Settles g d mode honest spec (.completed job) where
  jobIdx := h.jobIdx
  deterministic _ := ⟨job, rfl⟩
  reports := by
    rintro _ ⟨⟩
    exact h

theorem leads_retryJob {jobIdx : Nat} {e : ClientError} (hspec : b.jobs[jobIdx]? = some spec)
    (hidx : jobIdx = spec.jobIdx) : (retryJob d policy mode fuel b jobIdx e).Leads Proc.log
      (fun outcome _ w' => w <+: w' ∧ Settles g d mode (g.Backs w') spec outcome)
      (fun e _ _ => mode = .deterministic ∧ ∃ e', e = .error e') (Refused fuel) s w := by
  unfold retryJob
  rw [hspec]
  refine Proc.leads_bind.mpr (Proc.leads_alone (fun t r cell h => ?_)
    (fun _ _ _ h => (leads_runJobWithRetry.fails h).elim) fun t h => ?_)
  · cases r with
    | ok job =>
      have hreports := reports_runJobWithRetry (g := g) ⟨cell, h⟩
      refine ⟨List.prefix_append w t, settles_completed (hreports.mono fun hb => ?_)⟩
      exact ⟨_, (Guest.served_append.mp hb.served).2⟩
    | error e =>
      cases mode with
      | fast => exact ⟨List.prefix_append w t, hidx, nofun, nofun⟩
      | deterministic => exact ⟨rfl, _, rfl⟩
  · have hrefused := refused_of_ledger (Prog.Leads.halts leads_runJobWithRetry h)
    exact hrefused.sublist (List.sublist_append_right _ _)

/-- The outcomes of the jobs, from what the first pass with the calls `w₀` has made of them. -/
theorem leads_settle {w₀ : Trace} {specs : List JobSpec}
    (hspecs : ∀ spec ∈ specs, b.jobs[spec.jobIdx]? = some spec)
    (hresults : List.Forall₂ (FirstPass g d w₀) specs results) (hw : w₀ <+: w) :
    (settle d policy mode fuel b results).Leads Proc.log
      (fun outcomes _ w' => w <+: w' ∧ List.Forall₂ (Settles g d mode (g.Backs w')) specs outcomes)
      (fun e _ _ => mode = .deterministic ∧ ∃ e', e = .error e') (Refused fuel) s w := by
  induction hresults generalizing w with
  | nil => exact ⟨List.prefix_refl w, .nil⟩
  | @cons spec r specs results hr _ ih =>
    obtain ⟨hspec, hspecs⟩ := List.forall_mem_cons.mp hspecs
    obtain ⟨jobIdx, r⟩ := r
    obtain ⟨hidx : jobIdx = spec.jobIdx, hreports⟩ := hr
    cases r with
    | ok job =>
      refine Proc.leads_bind.mpr (Proc.leads_mono (ih hspecs hw) (fun outcomes _ w' h => ?_)
        fun _ _ _ he => he)
      refine ⟨h.1, .cons (settles_completed ((hreports job rfl).mono fun hb => ?_)) h.2⟩
      exact Guest.Backs.left hb (hw.trans h.1)
    | error e =>
      refine Proc.leads_bind.mpr (Proc.leads_mono (leads_retryJob (g := g) (hidx.symm ▸ hspec) hidx)
        (fun outcome _ w₁ h₁ => ?_) fun _ _ _ he => he)
      refine Proc.leads_bind.mpr (Proc.leads_mono (ih hspecs (hw.trans h₁.1))
        (fun outcomes _ w' h => ⟨h₁.1.trans h.1, .cons ?_ h.2⟩) fun _ _ _ he => he)
      exact ⟨h₁.2.jobIdx, h₁.2.deterministic, fun job hjob =>
        (h₁.2.reports job hjob).mono fun hb => hb.left h.1⟩

end

end

/-! ### What a batch comes to -/

section

variable {σ : Type}

/-- The result of a batch with the calls `t`: an outcome for each job, in order, none of them
abandoned in deterministic mode. A completed one has its job's burst and, if the worker is
honest, is what that job comes to by itself. -/
structure Executed (g : Guest σ) (d : Driver) (mode : SchedMode) (parent : NodeId) (b : BatchSpec)
    (t : Trace) (batch : BatchResult) : Prop where
  seq : batch.seq = b.batchSeq
  parent : batch.parent = parent
  indices : batch.jobs.map jobIdxOf = List.range b.bursts.length
  deterministic : mode = .deterministic → ∀ outcome ∈ batch.jobs, ∃ job, outcome = .completed job
  burst : ∀ (i : Nat) job, batch.jobs[i]? = some (.completed job) → b.bursts[i]? = some job.burst
  outcome : g.Backs t → ∀ (i : Nat) job spec, batch.jobs[i]? = some (.completed job) →
    b.jobs[i]? = some spec → g.outcome d spec = .ok job

/-- How `execute_batch` may end: only a worker without room keeps it from returning, and only in
deterministic mode does it return an error. -/
def Finished (g : Guest σ) (d : Driver) (mode : SchedMode) (fuel : Nat) (parent : NodeId)
    (b : BatchSpec) (t : Trace) : Option (Except Stop BatchResult × Unit) → Prop
  | none => Refused fuel t
  | some (.error (.error _), _) => mode = .deterministic
  | some (.error .cancelled, _) => False
  | some (.ok batch, _) => Executed g d mode parent b t batch

theorem BatchSpec.getElem?_jobIdx {b : BatchSpec} {spec : JobSpec} (h : spec ∈ b.jobs) :
    b.jobs[spec.jobIdx]? = some spec := by
  obtain ⟨i, hi⟩ := List.mem_iff_getElem?.mp h
  have hidx : spec.jobIdx = i := by
    rw [BatchSpec.getElem?_jobs] at hi
    obtain ⟨burst, -, rfl⟩ := Option.map_eq_some_iff.mp hi
    rfl
  rwa [hidx]

theorem executed_of_settles {g : Guest σ} {d : Driver} {mode : SchedMode} {parent : NodeId}
    {b : BatchSpec} {t : Trace} {outcomes : List JobOutcome}
    (h : List.Forall₂ (Settles g d mode (g.Backs t)) b.jobs outcomes) :
    Executed g d mode parent b t
      ⟨b.batchSeq, parent, outcomes.insertionSort (jobIdxOf · ≤ jobIdxOf ·)⟩ := by
  have hindices : outcomes.map jobIdxOf = List.range b.bursts.length := by
    rw [← BatchSpec.map_jobIdx, ← List.forall₂_eq_eq_eq, List.forall₂_map_left_iff,
      List.forall₂_map_right_iff]
    exact h.flip.imp fun _ _ hsettles => hsettles.jobIdx
  have hsorted : outcomes.insertionSort (jobIdxOf · ≤ jobIdxOf ·) = outcomes := by
    refine List.Pairwise.insertionSort_eq (List.pairwise_map.mp ?_)
    rw [hindices]
    exact List.pairwise_le_range
  rw [hsorted]
  have hat : ∀ {i : Nat} {outcome}, outcomes[i]? = some outcome →
      ∃ spec, b.jobs[i]? = some spec ∧ Settles g d mode (g.Backs t) spec outcome :=
    fun hi => forall₂_getElem? h hi
  refine ⟨rfl, rfl, hindices, fun hmode outcome hmem => ?_, fun i job hi => ?_,
    fun hbacks i job spec hi hspec => ?_⟩
  · obtain ⟨spec, -, hsettles⟩ := exists_of_forall₂ h.flip hmem
    exact hsettles.deterministic hmode
  · obtain ⟨spec, hspec, hsettles⟩ := hat hi
    rw [(hsettles.reports job rfl).burst]
    rw [BatchSpec.getElem?_jobs] at hspec
    obtain ⟨burst, hburst, rfl⟩ := Option.map_eq_some_iff.mp hspec
    exact hburst
  · obtain ⟨spec', hspec', hsettles⟩ := hat hi
    cases hspec.symm.trans hspec'
    exact (hsettles.reports job rfl).outcome hbacks

/-- A machine is its seed, and that is what is captured. -/
def seedGuest : Guest Nat where
  restore := fun _ seed => seed.getD 0
  frameCounter := fun _ => 5
  fork := fun _ seed => seed
  inject := fun machine _ => machine
  run := fun machine _ _ => (⟨.budgetReached, none⟩, machine)
  capture := fun machine _ => ⟨machine, none, 7, 0, 0, none⟩
  fork_restore := fun _ _ => rfl

variable {g : Guest σ} {d : Driver} {policy : RetryPolicy} {mode : SchedMode} {fuel : Nat}
  {parent : NodeId} {b : BatchSpec} {t : Schedule Op Ans}

theorem leads_executeBatch : (executeBatch d policy mode fuel b parent).Leads Proc.log
    (fun batch _ t => Executed g d mode parent b t batch)
    (fun e _ _ => mode = .deterministic ∧ ∃ e', e = .error e') (Refused fuel) () [] := by
  refine Proc.leads_bind.mpr (Proc.leads_mono (leads_runBatch (E := fun _ _ _ => False))
    (fun results _ t hrun => ?_) fun _ _ _ he => he.elim)
  refine Proc.leads_bind.mpr (Proc.leads_mono (leads_settle (fun _ => BatchSpec.getElem?_jobIdx)
    (firstPass_runBatch (g := g) hrun) (List.prefix_refl t)) (fun outcomes _ t' h => ?_)
    fun _ _ _ he => he)
  exact executed_of_settles h.2

theorem finished_executeBatch {out : Except Stop BatchResult}
    (h : (executeBatch d policy mode fuel b parent).Yields () t out ()) :
    Finished g d mode fuel parent b (calls t) (some (out, ())) := by
  have hlog : t.foldl Proc.log [] = calls t := Proc.foldl_log t
  cases out with
  | ok batch => exact hlog ▸ leads_executeBatch.returns h
  | error e =>
    obtain ⟨hmode, e', rfl⟩ := (leads_executeBatch (g := g)).fails h
    exact hmode

theorem refused_executeBatch
    (h : (executeBatch d policy mode fuel b parent ()).Halts t) : Refused fuel (calls t) := by
  have hrefused := Prog.Leads.halts (leads_executeBatch (g := seedGuest)) h
  rwa [Proc.foldl_log] at hrefused

/-- **Batch execution does not depend on the path taken.** However the calls of a batch are
answered (slots free or not, restores, forks, jobs and teardowns failing at any call, deadlines
passing at any await) and whichever task goes on, it ends as `Finished` says: only a worker that
refuses a restore for lack of room as often as it is asked keeps it from returning. -/
theorem execute_batch_outcomes (g : Guest σ) (d : Driver) (policy : RetryPolicy) (mode : SchedMode)
    (fuel : Nat) (parent : NodeId) (b : BatchSpec) :
    (executeBatch d policy mode fuel b parent ()).Always fun t out =>
      Finished g d mode fuel parent b (calls t) out :=
  Prog.always_iff.mpr ⟨fun _ _ h => finished_executeBatch h, fun _ h => refused_executeBatch h⟩

end

/-! A batch of two on the fork path, one of whose children fails and is retried. -/

def seedDriver : Driver :=
  { sampleDriver with deriveJobEntropySeed := fun _ _ jobIdx => 10 + jobIdx }

def twoBursts : BatchSpec := ⟨4, 0, none, [⟨0, [], 0, 0⟩, ⟨1, [], 0, 1⟩]⟩

/-- The parent is machine 1 and the children are 2 and 3; 3 fails to run, and its job gets 4. -/
def oneFails : (op : Op) → Ans op
  | .acquire _ | .acquireClassCheck _ | .injectInputs _ _ | .destroyVm _ _ => .ok ()
  | .tryAcquire => true
  | .elapsed => false
  | .dropPermit | .sleep => ()
  | .createVm _ => .error (.new .internal "")
  | .restoreSnapshot _ none => .ok (1, 5)
  | .restoreSnapshot _ (some _) => .ok (4, 5)
  | .fork _ _ => .ok [2, 3]
  | .run lease _ _ =>
    if lease = 3 then .error (.new .unavailable "worker restarted") else .ok ⟨.budgetReached, none⟩
  | .takeSnapshot lease _ => .ok ⟨if lease = 2 then 10 else 11, none, 7, 0, 0, none⟩

/-- The children take turns. -/
def oneFailsInTurn (i : Nat) : (op : Turn Op) → Turn.Answer Ans op
  | .call op => oneFails op
  | .next => i % 2 = 0

instance (m : Guest.Machines Nat) (e : Exchange Op Ans) : Decidable (seedGuest.Serves m e) := by
  unfold Guest.Serves
  split <;> infer_instance

instance decidableServed :
    (m : Guest.Machines Nat) → (t : Trace) → Decidable (seedGuest.Served m t)
  | _, [] => .isTrue trivial
  | m, e :: t =>
    have : Decidable (seedGuest.Served (seedGuest.after m e) t) := decidableServed _ t
    inferInstanceAs (Decidable (_ ∧ _))

/-- The results of the two jobs. -/
def bothCompleted : List JobOutcome :=
  [.completed ⟨0, .ok, ⟨0, [], 0, 0⟩, some ⟨10, none, 7, 0, 0, none⟩, []⟩,
    .completed ⟨1, .ok, ⟨1, [], 0, 1⟩, some ⟨11, none, 7, 0, 0, none⟩, []⟩]

theorem execute_batch_outcomes_retried :
    ∃ t batch, (executeBatch seedDriver ⟨1000, 2⟩ .fast 1 twoBursts 9 ()).Traces t (.ok batch, ()) ∧
      seedGuest.Backs (calls t) ∧ batch.jobs = bothCompleted ∧
      Executed seedGuest seedDriver .fast 9 twoBursts (calls t) batch := by
  have hcheck : ((executeBatch seedDriver ⟨1000, 2⟩ .fast 1 twoBursts 9 ()).trace oneFailsInTurn 90
      0).any (fun run => run.2.1.toOption.any fun batch =>
        decide (seedGuest.Served (fun _ => none) (calls run.1)) &&
          decide (handed (calls run.1)).Nodup && decide (batch.jobs = bothCompleted)) = true := by
    decide +kernel
  obtain ⟨⟨t, out, _⟩, htrace, hrun⟩ := (Option.any_eq_true _ _).mp hcheck
  have htraces := Prog.traces_of_trace htrace
  cases out with
  | error => cases hrun
  | ok batch =>
    simp only [Except.toOption, Option.any_some, Bool.and_eq_true, decide_eq_true_eq] at hrun
    obtain ⟨⟨hserved, honce⟩, hjobs⟩ := hrun
    refine ⟨t, batch, htraces, ⟨hserved, honce⟩, hjobs, ?_⟩
    exact (Prog.always_iff.mp (execute_batch_outcomes seedGuest seedDriver ⟨1000, 2⟩ .fast 1 9
      twoBursts)).1 t (.ok batch, ()) htraces

end Driver

end Orchestrator.Sched
