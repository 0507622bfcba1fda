import Orchestrator.Lib.Machine
import Orchestrator.Services.Types

/-! # Sched — Pipeline

The pipeline from `submit` to `next_completed`: a bounded queue of batches, the executor that
takes a permit of the in-flight semaphore for each of them, the tasks that run them in any
order, a channel of capacity one for their results, and in deterministic mode the buffer that
puts the results back in order. A step of the machine is one operation on a channel, on the
semaphore or on the buffer; senders and receivers that have to wait do so in the order they
came. The gauges are left out, and what a batch's jobs do is the outcome it finishes with.

`submit` and `next_completed` may be called from one task, as the runner does, or from two. A
step on which a call of `next_completed` returns gives back what it returns.
-/

namespace Orchestrator.Sched

open Core Services Lib

/-- `ClientResult<BatchResult>`. -/
abbrev Completion := Except ClientError BatchResult

structure Pipeline where
  mode : SchedMode
  /-- `max_inflight_batches`, at least one. -/
  maxInflight : Nat
  /-- In `submit`, with a batch that is not in the queue yet. -/
  submitting : Option Batch
  submitQueue : List Batch
  /-- The executor has this batch and waits for the semaphore. -/
  received : Option Batch
  running : List Batch
  /-- Tasks that are sending their result. -/
  sending : List Completion
  completed : List Completion
  /-- Tasks that have sent their result and still have their permit. -/
  releasing : Nat
  reorder : List (Nat × Completion)
  nextSeq : Nat
  /-- In `next_completed`. -/
  awaiting : Bool

namespace Pipeline

/-- `spawn`. -/
def spawn (mode : SchedMode) (maxInflightBatches firstSeq : Nat) : Pipeline where
  mode := mode
  maxInflight := max maxInflightBatches 1
  submitting := none
  submitQueue := []
  received := none
  running := []
  sending := []
  completed := []
  releasing := 0
  reorder := []
  nextSeq := firstSeq
  awaiting := false

/-- `submit_cap`. -/
def submitCap (p : Pipeline) : Nat := max (p.maxInflight - 1) 1

/-- The permits of the semaphore that are taken. -/
def inflight (p : Pipeline) : Nat := p.running.length + p.sending.length + p.releasing

/-- A call of `next_completed` returns. -/
def handBack (p : Pipeline) (result : Completion) : Pipeline × Option Completion :=
  ({ p with awaiting := false }, some result)

/-- `self.reorder.insert(seq, result)`. -/
def hold (p : Pipeline) (seq : Nat) (result : Completion) : Pipeline :=
  { p with reorder := (seq, result) :: p.reorder.filter (·.1 != seq) }

/-- One turn of the loop of `next_completed`, from the channel. -/
def take (p : Pipeline) : Option (Pipeline × Option Completion) :=
  match p.completed with
  | [] => none
  | result :: rest =>
    let p := { p with completed := rest }
    match p.mode, result with
    | .fast, result => some (p.handBack result)
    | .deterministic, .error e => some (p.handBack (.error e))
    | .deterministic, .ok batch => some (p.hold batch.seq result, none)

/-- One turn of the loop of `next_completed`. -/
def turn (p : Pipeline) : Option (Pipeline × Option Completion) :=
  match p.mode with
  | .fast => p.take
  | .deterministic =>
    match p.reorder.lookup p.nextSeq with
    | some result =>
      some ({ p with
        reorder := p.reorder.filter (·.1 != p.nextSeq), nextSeq := p.nextSeq + 1 }.handBack result)
    | none => p.take

inductive Action where
  /-- `submit` is called. -/
  | submit (batch : Batch)
  /-- The queue has room for the submitted batch. -/
  | enqueue
  /-- The executor receives from the queue. -/
  | receive
  /-- The executor gets a permit and spawns the batch's task. -/
  | start
  /-- A task has its result. -/
  | finish (task : Nat) (outcome : Except ClientError (List JobOutcome))
  /-- The channel has room for the result that has waited longest. -/
  | send
  /-- A task that has sent its result drops its permit. -/
  | release
  /-- `next_completed` is called. -/
  | next
  /-- `next_completed` takes a turn of its loop. -/
  | turn

/-- One step, with what `next_completed` returns if it does. -/
def step (p : Pipeline) : Action → Option (Pipeline × Option Completion)
  | .submit batch =>
    if p.submitting.isSome then none
    else some ({ p with submitting := some batch }, none)
  | .enqueue =>
    match p.submitting with
    | some batch =>
      if p.submitQueue.length < p.submitCap then
        some ({ p with submitting := none, submitQueue := p.submitQueue ++ [batch] }, none)
      else none
    | none => none
  | .receive =>
    match p.received, p.submitQueue with
    | none, batch :: rest => some ({ p with received := some batch, submitQueue := rest }, none)
    | _, _ => none
  | .start =>
    match p.received with
    | some batch =>
      if p.inflight < p.maxInflight then
        some ({ p with received := none, running := p.running ++ [batch] }, none)
      else none
    | none => none
  | .finish task outcome =>
    match p.running[task]? with
    | some batch =>
      some ({ p with
        running := p.running.eraseIdx task
        sending := p.sending ++ [outcome.map fun jobs => ⟨batch.seq, batch.parent, jobs⟩] }, none)
    | none => none
  | .send =>
    match p.sending, p.completed with
    | result :: rest, [] =>
      some ({ p with sending := rest, completed := [result], releasing := p.releasing + 1 }, none)
    | _, _ => none
  | .release =>
    match p.releasing with
    | n + 1 => some ({ p with releasing := n }, none)
    | 0 => none
  | .next => if p.awaiting then none else some ({ p with awaiting := true }, none)
  | .turn => if p.awaiting then p.turn else none

/-! ### What a step does -/

inductive Move (p : Pipeline) : Action → Pipeline → Option Completion → Prop where
  | submit (batch : Batch) (h : p.submitting = none) :
      Move p (.submit batch) { p with submitting := some batch } none
  | enqueue {batch : Batch} (h : p.submitting = some batch)
      (hq : p.submitQueue.length < p.submitCap) :
      Move p .enqueue { p with submitting := none, submitQueue := p.submitQueue ++ [batch] } none
  | receive {batch : Batch} {rest : List Batch} (h : p.received = none)
      (hq : p.submitQueue = batch :: rest) :
      Move p .receive { p with received := some batch, submitQueue := rest } none
  | start {batch : Batch} (h : p.received = some batch) (hi : p.inflight < p.maxInflight) :
      Move p .start { p with received := none, running := p.running ++ [batch] } none
  | finish {task : Nat} {batch : Batch} {outcome : Except ClientError (List JobOutcome)}
      (h : p.running[task]? = some batch) :
      Move p (.finish task outcome)
        { p with
          running := p.running.eraseIdx task
          sending := p.sending ++ [outcome.map fun jobs => ⟨batch.seq, batch.parent, jobs⟩] } none
  | send {result : Completion} {rest : List Completion} (h : p.sending = result :: rest)
      (hc : p.completed = []) :
      Move p .send
        { p with sending := rest, completed := [result], releasing := p.releasing + 1 } none
  | release {n : Nat} (h : p.releasing = n + 1) : Move p .release { p with releasing := n } none
  | next (h : p.awaiting = false) : Move p .next { p with awaiting := true } none
  | pass {result : Completion} {rest : List Completion} (h : p.awaiting)
      (hc : p.completed = result :: rest) (hr : p.mode = .fast ∨ ∃ e, result = .error e) :
      Move p .turn { p with completed := rest, awaiting := false } (some result)
  | hold {batch : BatchResult} {rest : List Completion} (h : p.awaiting)
      (hm : p.mode = .deterministic) (hc : p.completed = .ok batch :: rest) :
      Move p .turn ({ p with completed := rest }.hold batch.seq (.ok batch)) none
  | handBack {result : Completion} (h : p.awaiting) (hm : p.mode = .deterministic)
      (hl : p.reorder.lookup p.nextSeq = some result) :
      Move p .turn
        { p with
          reorder := p.reorder.filter (·.1 != p.nextSeq)
          nextSeq := p.nextSeq + 1
          awaiting := false } (some result)

variable {p q : Pipeline} {o : Option Completion}

theorem take_move (ha : p.awaiting) (h : p.take = some (q, o)) : Move p .turn q o := by
  unfold take at h
  split at h
  · cases h
  · rename_i result rest hc
    dsimp only at h
    split at h <;> cases h
    · exact .pass ha hc (.inl ‹_›)
    · exact .pass ha hc (.inr ⟨_, rfl⟩)
    · exact .hold ha ‹_› hc

/-- Every step is one of the moves. -/
theorem step_move {a : Action} (h : p.step a = some (q, o)) : Move p a q o := by
  cases a with
  | submit batch =>
    simp only [step] at h
    split at h <;> cases h
    rename_i hs
    exact .submit batch (Option.not_isSome_iff_eq_none.mp hs)
  | enqueue =>
    simp only [step] at h
    split at h
    · split at h <;> cases h
      exact .enqueue ‹_› ‹_›
    · cases h
  | receive =>
    simp only [step] at h
    split at h <;> cases h
    exact .receive ‹_› ‹_›
  | start =>
    simp only [step] at h
    split at h
    · split at h <;> cases h
      exact .start ‹_› ‹_›
    · cases h
  | finish task outcome =>
    simp only [step] at h
    split at h <;> cases h
    exact .finish ‹_›
  | send =>
    simp only [step] at h
    split at h <;> cases h
    exact .send ‹_› ‹_›
  | release =>
    simp only [step] at h
    split at h <;> cases h
    exact .release ‹_›
  | next =>
    simp only [step] at h
    split at h <;> cases h
    rename_i ha
    exact .next (Bool.eq_false_iff.mpr ha)
  | turn =>
    simp only [step] at h
    split at h
    · rename_i ha
      unfold Pipeline.turn at h
      split at h
      · exact take_move ha h
      · split at h
        · cases h
          exact .handBack ha ‹_› ‹_›
        · exact take_move ha h
    · cases h

end Pipeline
end Orchestrator.Sched
