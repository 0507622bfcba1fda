import Orchestrator.Server.Environment

/-! # Server — Creating a child's row

`create_child_node` sends one request again until the store answers it or the retries are used
up, and takes `AlreadyExists` for an answer. Elsewhere the environment decides at once what a
call comes to; here the attempts are spelled out. An attempt is answered, refused before it
reached the store, or applied with its answer lost.

* `retryRpc_createNode`: what the attempts come to together, and `env_of_retryRpc`: that is
  what the environment may answer.
* `acknowledged_iff`: an acknowledged row is the requested one just if no other row was there.
-/

namespace Orchestrator.Server

open Core Services Lib

variable {F : Type} [Float64 F]

/-! ### Retries -/

/-- An error that a call is tried again on. -/
abbrev Transient := { e : ClientError // e.isRetryable = true }

/-- What becomes of one attempt at a call. -/
inductive Attempt where
  | answered
  | refused (e : Transient)
  | lost (e : Transient)

/-- The loop of `retry_rpc` at an attempt, with so many retries left. -/
def retryFrom {σ α : Type} (call : Nat → σ → Except ClientError α × σ) :
    Nat → Nat → σ → Except ClientError α × σ
  | left, attempt, s =>
    match call attempt s with
    | (.ok value, s') => (.ok value, s')
    | (.error e, s') =>
      if e.isRetryable = false then (.error e, s')
      else
        match left with
        | 0 => (.error e, s')
        | left + 1 => retryFrom call left (attempt + 1) s'

def retryRpc {σ α : Type} (retryMax : Nat) (call : Nat → σ → Except ClientError α × σ) (s : σ) :
    Except ClientError α × σ :=
  retryFrom call retryMax 0 s

/-- The loop returns what its last attempt returned, made in a state that the failed attempts
before it have led to. -/
theorem retryFrom_eq {σ α : Type} {call : Nat → σ → Except ClientError α × σ} {I : σ → Prop}
    (hfail : ∀ attempt s e s', I s → call attempt s = (.error e, s') → e.isRetryable = true → I s')
    (left attempt : Nat) {s : σ} (h : I s) :
    ∃ last s', I s' ∧ retryFrom call left attempt s = call last s' := by
  induction left generalizing attempt s with
  | zero =>
    refine ⟨attempt, s, h, ?_⟩
    unfold retryFrom
    split
    · rename_i hcall
      exact hcall.symm
    · rename_i hcall
      rw [ite_self]
      exact hcall.symm
  | succ left ih =>
    unfold retryFrom
    split
    · rename_i hcall
      exact ⟨attempt, s, h, hcall.symm⟩
    · rename_i e s' hcall
      split
      · exact ⟨attempt, s, h, hcall.symm⟩
      · rename_i hretry
        exact ih (attempt + 1) (hfail attempt s e s' h hcall (by simpa using hretry))

/-- One attempt at `create_node`. -/
def attemptCreate (attempts : Nat → Attempt) (req : CreateNodeRequest F) (attempt : Nat)
    (s : Store F) : Except ClientError Unit × Store F :=
  match attempts attempt, s.createNode req with
  | .answered, .ok s' => (.ok (), s')
  | .answered, .error e => (.error e, s)
  | .refused e, _ => (.error e, s)
  | .lost e, .ok s' => (.error e, s')
  | .lost e, .error _ => (.error e, s)

/-- `create_child_node` on the store, under a pattern of transient failures. -/
def createChildRow (exp : Experiment F) (bringup : CompiledMap) (retryMax : Nat)
    (attempts : Nat → Attempt) (id parent : NodeId) (it : Item F) (status : NodeStatus)
    (s : Store F) : Except ClientError Unit × Store F :=
  match retryRpc retryMax (attemptCreate attempts (childRequest exp bringup id parent it status))
      s with
  | (.ok (), s') => (.ok (), s')
  | (.error e, s') => if e.kind = .alreadyExists then (.ok (), s') else (.error e, s')

/-! ### What the attempts come to -/

section Attempts

variable {s s' t : Store F} {req : CreateNodeRequest F} {attempts : Nat → Attempt}
  {answer : Except ClientError Unit}

theorem createNode_again (h : s.createNode req = .ok s') : s'.createNode req = .ok s' := by
  have hvalid : Store.validateCreate req = none := by
    unfold Store.createNode at h
    split at h
    · cases h
    · assumption
  rcases Store.createNode_ok h with ⟨row, hrow, hsame, rfl⟩ | ⟨-, depth, -, rfl⟩
  · exact h
  · have hrow : (s.rows.insert req.nodeId (Store.newRow req depth))[req.nodeId]? =
        some (Store.newRow req depth) := Std.ExtTreeMap.getElem?_insert_self
    have hsame : Store.sameIdentity (Store.newRow req depth) req = true := by
      simp [Store.sameIdentity, Store.newRow]
    simp only [Store.createNode, hvalid, hrow, hsame, if_true]

/-- The store as some attempts have left it. -/
def Tried (req : CreateNodeRequest F) (s t : Store F) : Prop := t = s ∨ s.createNode req = .ok t

theorem Tried.createNode_ok (h : Tried req s t) (hok : t.createNode req = .ok s') :
    s.createNode req = .ok s' := by
  rcases h with rfl | h
  · exact hok
  · rw [createNode_again h] at hok
    cases hok
    exact h

theorem Tried.createNode_error {e : ClientError} (h : Tried req s t)
    (herr : t.createNode req = .error e) : t = s := by
  rcases h with rfl | h
  · rfl
  · rw [createNode_again h] at herr
    cases herr

theorem attemptCreate_cases (attempts : Nat → Attempt) (h : Tried req s t) (attempt : Nat) :
    (∃ s', attemptCreate attempts req attempt t = (.ok (), s') ∧ s.createNode req = .ok s') ∨
    (∃ e, attemptCreate attempts req attempt t = (.error e, s) ∧ s.createNode req = .error e) ∨
    ∃ e t', attemptCreate attempts req attempt t = (.error e, t') ∧ e.isRetryable = true ∧
      Tried req s t' := by
  unfold attemptCreate
  cases hcreate : t.createNode req with
  | ok s' =>
    have hs' := h.createNode_ok hcreate
    cases attempts attempt with
    | answered => exact .inl ⟨s', rfl, hs'⟩
    | refused e => exact .inr (.inr ⟨e, t, rfl, e.2, h⟩)
    | lost e => exact .inr (.inr ⟨e, s', rfl, e.2, .inr hs'⟩)
  | error e' =>
    obtain rfl := h.createNode_error hcreate
    cases attempts attempt with
    | answered => exact .inr (.inl ⟨e', rfl, hcreate⟩)
    | refused e => exact .inr (.inr ⟨e, t, rfl, e.2, h⟩)
    | lost e => exact .inr (.inr ⟨e, t, rfl, e.2, h⟩)

/-- The store answers as it would have at once, or the last attempt failed, and the row was
created by some attempt or by none. -/
theorem retryRpc_createNode (retryMax : Nat)
    (hr : retryRpc retryMax (attemptCreate attempts req) s = (answer, s')) :
    (answer = .ok () ∧ s.createNode req = .ok s') ∨
    ∃ e, answer = .error e ∧
      (s' = s ∧ s.createNode req = .error e ∨ e.isRetryable = true ∧ Tried req s s') := by
  have hkeep : ∀ attempt t e t', Tried req s t →
      attemptCreate attempts req attempt t = (.error e, t') → e.isRetryable = true →
      Tried req s t' := by
    intro attempt t e t' ht heq _
    rcases attemptCreate_cases attempts ht attempt with ⟨s₁, heq', -⟩ |
      ⟨e', heq', -⟩ | ⟨e', t₁, heq', -, ht₁⟩ <;> rw [heq] at heq' <;> cases heq'
    · exact .inl rfl
    · exact ht₁
  obtain ⟨last, t, ht, hlast⟩ := retryFrom_eq hkeep retryMax 0 (.inl rfl : Tried req s s)
  rw [retryRpc, hlast] at hr
  rcases attemptCreate_cases attempts ht last with ⟨s₁, heq, hok⟩ |
    ⟨e, heq, herr⟩ | ⟨e, t', heq, he, ht'⟩ <;> rw [heq] at hr <;> cases hr
  · exact .inl ⟨rfl, hok⟩
  · exact .inr ⟨e, rfl, .inl ⟨rfl, herr⟩⟩
  · exact .inr ⟨e, rfl, .inr ⟨he, ht'⟩⟩

/-- **The attempts together are one call** whose outcome the environment chooses. -/
theorem env_of_retryRpc (exp : Experiment F) (w : World F) (retryMax : Nat)
    (attempts : Nat → Attempt) (req : CreateNodeRequest F) :
    ∃ answer w', retryRpc retryMax (attemptCreate attempts req) w.store = (answer, w'.store) ∧
      env exp (.createNode req) w answer w' := by
  generalize hr : retryRpc retryMax (attemptCreate attempts req) w.store = outcome
  obtain ⟨answer, s'⟩ := outcome
  refine ⟨answer, ?_⟩
  rcases retryRpc_createNode retryMax hr with ⟨rfl, hok⟩ | ⟨e, rfl, ⟨rfl, herr⟩ | ⟨he, htried⟩⟩
  · refine ⟨w.setStore s', rfl, .answer, ?_⟩
    simp only [respond, fallible, answered, onStore, hok]
  · refine ⟨w.record (.rpcFailed e), rfl, .answer, ?_⟩
    simp only [respond, fallible, answered, onStore, herr]
    rfl
  · have ht : ∀ applied, transient (.createNode req) e applied = true := fun _ => he
    rcases htried with rfl | hok
    · refine ⟨w.record (.rpcFailed e), rfl, .fault e false, ?_⟩
      simp only [respond, fallible, ht, if_true]
      rfl
    · refine ⟨(w.setStore s').record (.rpcFailed e), rfl, .fault e true, ?_⟩
      simp only [respond, fallible, ht, if_true, afterEffect, onStore, hok]
      rfl

end Attempts

/-! ### Acknowledged rows -/

/-- The row has the requested parent, snapshot, input log, burst and state hash. -/
def Requested (parent : NodeId) (it : Item F) (row : Row F) : Prop :=
  row.parentNodeId = some parent ∧ row.snapshotRef = it.capture.snapshot ∧
    row.inputLogId = it.capture.inputLogId ∧ row.attrs.createdByBurst = some it.job.burst ∧
    row.attrs.stateHash = it.result.stateHash

section Acknowledged

variable (exp : Experiment F) (bringup : CompiledMap) (retryMax : Nat) (attempts : Nat → Attempt)
  (id parent : NodeId) (it : Item F) (status : NodeStatus) (s s' : Store F)

/-- An acknowledgement says that the row was there, or that it has just been created. -/
theorem acknowledged_cases
    (h : createChildRow exp bringup retryMax attempts id parent it status s = (.ok (), s')) :
    (∃ row, s.rows[id]? = some row ∧ s'.rows[id]? = some row) ∨
      s.rows[id]? = none ∧ ∃ depth, s'.rows[id]? =
        some (Store.newRow (childRequest exp bringup id parent it status) depth) := by
  unfold createChildRow at h
  split at h
  · rename_i s₁ hr
    cases h
    rcases retryRpc_createNode retryMax hr with ⟨-, hok⟩ | ⟨e, he, -⟩
    · rcases Store.createNode_ok hok with ⟨row, hrow, -, rfl⟩ | ⟨hnone, depth, -, rfl⟩
      · exact .inl ⟨row, hrow, hrow⟩
      · exact .inr ⟨hnone, depth, Std.ExtTreeMap.getElem?_insert_self⟩
    · cases he
  · rename_i e s₁ hr
    split at h
    · rename_i hkind
      cases h
      rcases retryRpc_createNode retryMax hr with ⟨he, -⟩ | ⟨e', he, ⟨rfl, herr⟩ | ⟨hretry, -⟩⟩
      · cases he
      · cases he
        obtain ⟨row, hrow⟩ := Store.createNode_alreadyExists herr hkind
        exact .inl ⟨row, hrow, hrow⟩
      · cases he
        simp [ClientError.isRetryable, hkind] at hretry
    · cases h

/-- Whenever `create_child_node` returns, the row of the child is the requested one if and
only if there was no other row under its id before. -/
theorem acknowledged_iff
    (h : createChildRow exp bringup retryMax attempts id parent it status s = (.ok (), s')) :
    (∃ row, s'.rows[id]? = some row ∧ Requested parent it row) ↔
      ∀ row, s.rows[id]? = some row → Requested parent it row := by
  rcases acknowledged_cases exp bringup retryMax attempts id parent it status s s' h with
    ⟨row, hrow, hrow'⟩ | ⟨hnone, depth, hrow'⟩
  · rw [hrow, hrow']
    constructor
    · rintro ⟨_, heq, hreq⟩ _ heq'
      cases heq
      cases heq'
      exact hreq
    · exact fun hreq => ⟨row, rfl, hreq row rfl⟩
  · rw [hnone, hrow']
    constructor
    · intro _ row hrow
      cases hrow
    · exact fun _ => ⟨_, rfl, rfl, rfl, rfl, rfl, rfl⟩

end Acknowledged

/-! ### A row that was there -/

/-- A captured child of the sample experiment, of burst `id`, in a state of its own. -/
def sampleItem (id : Nat) : Item Int :=
  { job := ⟨0, .ok, ⟨id, [], 7, 0⟩, none, []⟩
    capture := ⟨id, none, 0, 1, 0, some id⟩
    result := ⟨none, .ofInt 0, .ofInt 0, 10 + id, false, false, 0, false, [], 10 + id⟩ }

/-- Creates a child of the root in the sample experiment. -/
def sampleCreate (attempts : Nat → Attempt) (id : NodeId) (it : Item Int) (s : Store Int) :
    Except ClientError Unit × Store Int :=
  createChildRow sample ⟨0, 0, []⟩ 3 attempts id NodeId.root it .frontier s

/-- A store with a root and its first child, the one of burst 1. -/
def sampleStore : Store Int :=
  let root := Store.newRow (childRequest sample ⟨0, 0, []⟩ 0 0 (sampleItem 0) .expanded) 0
  (sampleCreate (fun _ => .answered) 1 (sampleItem 1)
    ⟨(∅ : Std.ExtTreeMap NodeId (Row Int)).insert 0 root, none, ∅⟩).2

/-- The first answer is lost. -/
def losing (attempt : Nat) : Attempt :=
  if attempt = 0 then .lost ⟨.new .unavailable "", rfl⟩ else .answered

/-- A second child, whose first attempt loses its answer. -/
theorem acknowledged_iff_second :
    (sampleCreate losing 2 (sampleItem 2) sampleStore).1 = .ok () ∧
      ∃ row, (sampleCreate losing 2 (sampleItem 2) sampleStore).2.rows[2]? = some row ∧
        Requested NodeId.root (sampleItem 2) row := by
  have hok : (sampleCreate losing 2 (sampleItem 2) sampleStore).1 = .ok () := by rfl
  have hnone : sampleStore.rows[2]? = none := by rfl
  refine ⟨hok, (acknowledged_iff sample ⟨0, 0, []⟩ 3 losing 2 NodeId.root (sampleItem 2) .frontier
    sampleStore _ (Prod.ext hok rfl)).mpr fun row hrow => ?_⟩
  rw [hnone] at hrow
  cases hrow

/-- The snapshot and the log of the first child, with another burst and another state. -/
def sampleTwin : Item Int := { sampleItem 2 with capture := (sampleItem 1).capture }

/-- Another child is created under the id of the first one: the store refuses it as existing
with different data, and it is acknowledged with the row of burst 1 in its place. A child with
the first one's snapshot and log, but another burst and state, is not even refused. -/
theorem acknowledged_other :
    (sampleCreate (fun _ => .answered) 1 (sampleItem 2) sampleStore).1 = .ok () ∧
    (∃ row, (sampleCreate (fun _ => .answered) 1 (sampleItem 2) sampleStore).2.rows[1]? = some row ∧
      ¬ Requested NodeId.root (sampleItem 2) row) ∧
    (sampleCreate (fun _ => .answered) 1 sampleTwin sampleStore).1 = .ok () ∧
    ∃ row, (sampleCreate (fun _ => .answered) 1 sampleTwin sampleStore).2.rows[1]? = some row ∧
      ¬ Requested NodeId.root sampleTwin row := by
  refine ⟨by rfl, ⟨_, by rfl, fun h => ?_⟩, by rfl, _, by rfl, fun h => ?_⟩
  · exact absurd h.2.1 (by decide +kernel)
  · exact absurd h.2.2.2.2 (by decide +kernel)

end Orchestrator.Server
