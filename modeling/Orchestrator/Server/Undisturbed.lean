import Orchestrator.Server.Pairing

/-! # Server — An undisturbed process

A process that starts in the empty world and is never stopped finds no checkpoint, so it
resumes and replays nothing.

* `Reach.firsthand`
-/

namespace Orchestrator.Server

open Core Services Lib

variable {F : Type} [Float64 F] {exp : Experiment F}

/-- What the protocol reaches with one process that is never stopped. -/
abbrev ReachesAlone (exp : Experiment F) : Point F → Runner F → World F → Prop :=
  Reach exp (env exp) ⟨(World.empty = ·), False⟩

theorem within_alone (exp : Experiment F) : Within exp (env exp) ⟨(World.empty = ·), False⟩ :=
  ⟨fun _ _ _ _ h => h, fun _ h => h⟩

/-- The points where nothing is resumed or replayed. -/
def Point.firsthand : Point F → Bool
  | .found _ _ | .resuming _ | .collecting _ _ _ _ | .loaded _ _ | .adopted _ _ _
  | .restored _ _ _ | .ready _ _ | .requested true _ _ | .offered true _ _ _
  | .proposed true _ _ | .sent _ | .replayTaken _ | .replayScored _ _ | .replaying _ _ _ _
  | .acting _ _ _ _ _ _ | .at (.popped _) | .began (.popped _) | .archived (.popped _) _
  | .truncating (.popped _) _ _ => false
  | _ => true

structure Firsthand (p : Point F) (r : Runner F) (s : Store F) : Prop where
  first : p = .start → s.checkpoint = none
  queue : r.replayQueue = []
  point : p.firsthand = true

section

variable {p p' : Point F} {r r' : Runner F} {s : Store F}

theorem firsthand_onError (p : Point F) : p.onError ≠ .start ∧ p.onError.firsthand = true := by
  cases p with
  | «at» c | completed c _ | began c | archived c _ | truncating c _ _ =>
    cases c <;> exact ⟨nofun, rfl⟩
  | _ => exact ⟨nofun, rfl⟩

theorem Firsthand.onError (h : Firsthand p r s) (s' : Store F) : Firsthand p.onError r s' :=
  ⟨fun hp => absurd hp (firsthand_onError p).1, h.queue, (firsthand_onError p).2⟩

theorem Local.firsthand (hl : Local exp p r p' r') (h : Firsthand p r s) : Firsthand p' r' s := by
  cases hl with
  | touch hsame => exact ⟨h.first, hsame.replayQueue.trans h.queue, h.point⟩
  | fail => exact h.onError s
  | pop hq =>
    rw [h.queue] at hq
    cases hq
  | adoptGeneration | collect | loaded | noPost | books | replayNothingToScore | replayUnowned
  | adoptChild | replayChild | replayChildFailed | acted | replayParent | replayParentFailed =>
    cases h.point
  | @accepted replay =>
    cases replay with
    | true => cases h.point
    | false => exact ⟨nofun, h.queue, rfl⟩
  | settle =>
    rw [addGoal_inflight]
    exact ⟨nofun, h.queue, rfl⟩
  | @truncated c =>
    cases c with
    | popped => cases h.point
    | _ => exact ⟨nofun, h.queue, rfl⟩
  | _ => exact ⟨nofun, h.queue, rfl⟩

theorem Next.firsthand {op : Op F} {a : Ans F op} {w w' : World F} (hn : Next exp p r op a p' r')
    (ha : env exp op w a w') (hplaced : Placed r p) (h : Firsthand p r w.store) :
    Firsthand p' r' w'.store := by
  cases hn with
  | quiet hq =>
    refine ⟨fun hp => ?_, h.queue, h.point⟩
    rw [env_checkpoint ha (Op.keeps_of_quiet hq)]
    exact h.first hp
  | failed => exact h.onError w'.store
  | foundCheckpoint =>
    have hnone := h.first rfl
    rw [(env_getCheckpoint_ok ha).1] at hnone
    cases hnone
  | stale | collected | missed | adopt | restored | caughtUp | submittedReplay | completedReplay
  | scoreReplay | ownReplay | createReplayed | routeReplayed | buildReplay | checkedReplay =>
    cases h.point
  | @offered replay =>
    cases replay with
    | true => cases h.point
    | false => exact ⟨fun hp => (by cases hp), h.queue, rfl⟩
  | @committed c d goal =>
    refine ⟨fun hp => (by cases hp), h.queue, ?_⟩
    cases c with
    | popped => cases hplaced.1
    | replay | loop =>
      simp only [Rest.afterCommit]
      split <;> rfl
    | _ => rfl
  | @began c | @archived c | @archivedAgain c | @put c | @truncated c =>
    cases c with
    | popped => cases h.point
    | _ => exact ⟨fun hp => (by cases hp), h.queue, rfl⟩
  | _ => exact ⟨fun hp => (by cases hp), h.queue, rfl⟩

end

theorem Reach.firsthand {A : Answers (Op F) (Ans F) (World F)} {p : Point F} {r : Runner F}
    {w : World F} (h : Reach exp A ⟨(World.empty = ·), False⟩ p r w)
    (hA : Within exp A ⟨(World.empty = ·), False⟩) : Firsthand p r w.store := by
  induction h with
  | init hw =>
    subst hw
    exact ⟨fun _ => rfl, rfl, rfl⟩
  | restart _ hagain _ => exact hagain.elim
  | loc _ hl ih => exact hl.firsthand ih
  | call h hn ha ih => exact hn.firsthand (hA.answers _ _ _ _ ha) (h.widen hA).sequenced.placed ih

end Orchestrator.Server
