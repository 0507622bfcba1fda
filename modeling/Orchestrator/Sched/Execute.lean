import Orchestrator.Sched.Leases

/-! # Sched — Execute

`execute_batch`: the first pass over the jobs of a batch, forked or not, the retries of those
that failed, and what each mode makes of a job that keeps failing. Tasks that run side by side
are joined into one process, which asks who goes on. A batch has at most as many bursts as an
expansion may ask for, so an index is not cut to 32 bits; how long a retry sleeps is left out.

* `Driver.leads_runBatch`: what `run_batch` does as one process is a run of `RunBatch`, and one
  that never returns has met a worker without room.
* `Driver.leads_runJobWithRetry`: the retries.
-/

namespace Orchestrator.Sched

open Core Services Lib

structure RetryPolicy where
  /-- `job_timeout`, in milliseconds. -/
  jobTimeout : Nat
  retryMax : Nat

/-- The index of the job an outcome is of. -/
def jobIdxOf : JobOutcome → Nat
  | .completed result => result.jobIdx
  | .abandoned jobIdx _ => jobIdx

namespace Driver

/-- Computations with parts that run side by side. -/
abbrev Conc := Proc (Turn Op) (Turn.Answer Ans) Unit Stop

/-- A computation of the driver, from the start. -/
def perform {α : Type} (x : M α) : Conc α := Proc.alone Cell.idle x

/-- `futures_join_all`. -/
def futuresJoinAll {α : Type} (tasks : List (M α)) : Conc (List α) := Proc.join Cell.idle tasks

variable (d : Driver)

/-- `run_job_with_retry`, with `left` attempts after this one. -/
def jobAttempts (policy : RetryPolicy) (fuel : Nat) (spec : JobSpec) (left : Nat) :
    M JobResult := do
  match ← result (runJobDeadline d fuel spec (some policy.jobTimeout)) with
  | .ok job => pure job
  | .error e =>
    if e.isRetryable then
      match left with
      | 0 => Proc.fail (.error e)
      | left + 1 => do
        let () ← await .sleep
        jobAttempts policy fuel spec left
    else Proc.fail (.error e)

def runJobWithRetry (policy : RetryPolicy) (fuel : Nat) (spec : JobSpec) : M JobResult :=
  jobAttempts d policy fuel spec policy.retryMax

/-- `try_run_forked`. -/
def tryRunForked (b : BatchSpec) : Conc (Option (List (Nat × Except ClientError JobResult))) := do
  match ← perform (tryFork d b) with
  | .returned results => pure results
  | .forked parent frame children => do
    let results ← futuresJoinAll
      ((b.jobs.zip children).map fun (spec, lease) => childTask d spec lease frame)
    perform (joinParent parent)
    pure (some results)

/-- The restore path of `run_batch`. -/
def restoreEach (fuel : Nat) (b : BatchSpec) : Conc (List (Nat × Except ClientError JobResult)) :=
  futuresJoinAll (b.jobs.map (jobTask d fuel))

/-- `run_batch`. -/
def runBatch (fuel : Nat) (b : BatchSpec) : Conc (List (Nat × Except ClientError JobResult)) := do
  if 2 ≤ b.bursts.length then
    match ← tryRunForked d b with
    | some results => pure results
    | none => restoreEach d fuel b
  else restoreEach d fuel b

section

variable (policy : RetryPolicy) (mode : SchedMode) (fuel : Nat) (b : BatchSpec)

/-- A job that failed in the first pass. -/
def retryJob (jobIdx : Nat) (firstError : ClientError) : Conc JobOutcome := do
  match b.jobs[jobIdx]? with
  -- `batch.bursts[job_idx as usize]`.
  | none => Proc.halt
  | some spec => do
    match ← perform (result (runJobWithRetry d policy fuel spec)) with
    | .ok job => pure (.completed job)
    | .error e =>
      match mode with
      | .fast => pure (.abandoned jobIdx (firstError.display ++ "; final: " ++ e.display))
      | .deterministic =>
        Proc.fail (.error ⟨.internal, some .jobRetriesExhausted,
          s!"batch {b.batchSeq} job {jobIdx} — " ++ e.display⟩)

/-- The outcomes of the jobs, after their retries. -/
def settle : List (Nat × Except ClientError JobResult) → Conc (List JobOutcome)
  | [] => pure []
  | (_, .ok job) :: rest => do
    let jobs ← settle rest
    pure (.completed job :: jobs)
  | (jobIdx, .error e) :: rest => do
    let outcome ← retryJob d policy mode fuel b jobIdx e
    let jobs ← settle rest
    pure (outcome :: jobs)

/-- `execute_batch`. -/
def executeBatch (parent : NodeId) : Conc BatchResult := do
  let firstPass ← runBatch d fuel b
  let jobs ← settle d policy mode fuel b firstPass
  pure { seq := b.batchSeq, parent, jobs := jobs.insertionSort (jobIdxOf · ≤ jobIdxOf ·) }

end

/-! ### `run_batch` -/

/-- The worker has refused for lack of room so many times. -/
def Refused (n : Nat) (t : Trace) : Prop := n ≤ t.countP refused

variable {n : Nat} {t : Trace}

theorem Refused.sublist {u : Trace} (h : t.Sublist u) (ht : Refused n t) : Refused n u :=
  Nat.le_trans ht h.countP_le

theorem refused_of_ledger (h : n ≤ (t.foldl Ledger.after .empty).refused) : Refused n t := by
  rwa [(@Ledger.foldl_sums t .empty).2.2.1, show Ledger.empty.refused = 0 from rfl,
    Nat.zero_add] at h

section

variable {d : Driver} {fuel : Nat} {b : BatchSpec} {s : Unit} {w : Trace}

variable {E : Stop → Unit → Trace → Prop} {H : Trace → Prop}

/-- A batch of tasks that do not fail. -/
theorem leads_futuresJoinAll {α : Type} {tasks : List (M α)} {Q : List α → Unit → Trace → Prop}
    (hok : ∀ task ∈ tasks, ∀ t e cell, ¬ task.Yields Cell.idle t (.error e) cell)
    (hjoin : ∀ t results, Joined tasks t results → Q results s (w ++ t))
    (hhalt : ∀ task ∈ tasks, ∀ t t', (task Cell.idle).Halts t → t.Sublist t' → H (w ++ t')) :
    (futuresJoinAll tasks).Leads Proc.log Q E H s w := by
  refine Proc.leads_join (fun task htask t r cell hr => ?_) (fun runs t hruns hweave => ?_) hhalt
  · cases r with
    | ok a => exact ⟨a, rfl⟩
    | error e => exact (hok task htask t e cell hr).elim
  · exact hjoin t _ ⟨runs, hruns, hweave, rfl⟩

theorem leads_tryRunForked :
    (tryRunForked d b).Leads Proc.log
      (fun results _ w' => ∃ t, w' = w ++ t ∧ TryRunForked d b t results) E H s w := by
  refine Proc.leads_bind.mpr (Proc.leads_alone (fun t₁ f cell hfork => ?_)
    (fun _ _ _ h => (leads_tryFork.fails h).elim)
    fun _ h => (Prog.Leads.halts leads_tryFork h).elim)
  cases f with
  | returned results => exact ⟨t₁, rfl, .returned ⟨cell, hfork⟩⟩
  | forked parent frame children =>
    refine Proc.leads_bind.mpr (leads_futuresJoinAll (fun task htask t e cell' h => ?_)
      (fun t₂ results hjoin => ?_) fun task htask t t' h _ => ?_)
    · obtain ⟨⟨spec, lease⟩, -, rfl⟩ := List.mem_map.mp htask
      exact leads_childTask.fails h
    · refine Proc.leads_bind.mpr (Proc.leads_alone (fun t₃ _ cell' hparent => ?_)
        (fun _ _ _ h => (leads_joinParent.fails h).elim)
        fun _ h => (Prog.Leads.halts leads_joinParent h).elim)
      refine ⟨t₁ ++ t₂ ++ t₃, show w ++ t₁ ++ t₂ ++ t₃ = _ by simp only [List.append_assoc], ?_⟩
      exact .joined ⟨cell, hfork⟩ hjoin ⟨cell', hparent⟩
    · obtain ⟨⟨spec, lease⟩, -, rfl⟩ := List.mem_map.mp htask
      exact (Prog.Leads.halts leads_childTask h).elim

theorem leads_restoreEach {Q : List (Nat × Except ClientError JobResult) → Unit → Trace → Prop}
    (h : ∀ t results, Joined (b.jobs.map (jobTask d fuel)) t results → Q results s (w ++ t)) :
    (restoreEach d fuel b).Leads Proc.log Q E (Refused fuel) s w := by
  refine leads_futuresJoinAll (fun task htask t e cell hfail => ?_) h
    fun task htask t t' hhalt hsub => ?_
  · obtain ⟨spec, -, rfl⟩ := List.mem_map.mp htask
    exact leads_jobTask.fails hfail
  · obtain ⟨spec, -, rfl⟩ := List.mem_map.mp htask
    have hrefused := refused_of_ledger (Prog.Leads.halts leads_jobTask hhalt)
    exact hrefused.sublist (hsub.trans (List.sublist_append_right _ _))

theorem leads_runBatch : (runBatch d fuel b).Leads Proc.log
    (fun results _ t => RunBatch d fuel b t results) E (Refused fuel) s [] := by
  unfold runBatch
  split
  · next hcount =>
    refine Proc.leads_bind.mpr (Proc.leads_mono leads_tryRunForked ?_ fun _ _ _ he => he)
    rintro results _ _ ⟨t₁, rfl, hforked⟩
    cases results with
    | some results => exact .forked hcount hforked
    | none => exact leads_restoreEach fun t₂ _ hjoin => .restored (.inr ⟨hcount, hforked⟩) hjoin
  · next hcount =>
    exact leads_restoreEach fun t _ hjoin => .restored (.inl ⟨Nat.lt_of_not_le hcount, rfl⟩) hjoin

variable {policy : RetryPolicy} {spec : JobSpec}

/-- What every attempt leads to, the attempts lead to, where a failed one leaves `I` as it was. -/
theorem leads_jobAttempts {W : Type} {A : Account W} {I : Cell → W → Prop} {left : Nat} {s : Cell}
    {w : W} {Q : JobResult → Cell → W → Prop} {E : Stop → Cell → W → Prop} {H : W → Prop}
    (hrun : ∀ s w, I s w → (result (runJobDeadline d fuel spec (some policy.jobTimeout))).Leads
      A.after (fun r s' w' => match r with
        | .ok job => Q job s' w'
        | .error e => E (.error e) s' w' ∧ I s' w') E H s w)
    (hc : ∀ s w, s.timed = true → I s w → E .cancelled s w) (hw : I s w) :
    (jobAttempts d policy fuel spec left).Leads A.after Q E H s w := by
  induction left using Nat.strong_induction_on generalizing s w with
  | _ left ih =>
    unfold jobAttempts
    refine Proc.leads_bind.mpr (Proc.leads_mono (hrun s w hw) ?_ fun _ _ _ => id)
    intro r s' w' hr
    cases r with
    | ok job => exact hr
    | error e =>
      dsimp only
      split
      · cases left with
        | zero => exact hr.1
        | succ left =>
          exact Proc.leads_bind.mpr
            (leads_sleep (ih left (Nat.lt_succ_self left) hr.2) fun ht => hc s' w' ht hr.2)
      · exact hr.1

/-- The retries come to a result, or the worker has no room. -/
theorem leads_runJobWithRetry :
    (result (runJobWithRetry d policy fuel spec)).Leads ledger.after (fun _ _ _ => True)
      (fun _ _ _ => False) (fun l => fuel ≤ l.refused) Cell.idle .empty := by
  refine leads_result (leads_jobAttempts (I := fun s l => s = Cell.idle ∧ Holds 0 none l)
    ?_ ?_ ⟨rfl, holds_empty⟩)
  · rintro _ l ⟨rfl, hl⟩
    exact leads_result (leads_runJobDeadline hl (fun _ _ _ => trivial)
      (fun e l' hl' => ⟨trivial, rfl, hl'⟩) fun l' => by omega)
  · rintro _ l ht ⟨rfl, hl⟩
    cases ht

end

end Driver
end Orchestrator.Sched
