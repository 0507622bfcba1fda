import Orchestrator.Server.Environment

/-! # Server — Phases

What a point of the protocol says by itself about the world: whether the experiment has a
checkpoint, and which one. A bootstrap runs without one, everything past it with one, no
process ever removes it, and a resume works with the one that is there.

* `Reach.opened`, `Reach.current`: the invariants.
-/

namespace Orchestrator.Server

open Core Services Lib

variable {F : Type} [Float64 F] {exp : Experiment F}

/-- Whether a checkpoint exists at a point. -/
def Point.Opened (exists? : Bool) : Point F → Prop
  | .start | .ended => True
  | .fresh | .bootstrapped _ | .rootReady _ _ | .rootStored _ => exists? = false
  | .at c | .began c | .archived c _ => exists? = decide (c ≠ .booted)
  | .completed c _ | .taken c _ | .answered c _ _ | .scored c _ _ | .owned c _ _
  | .storing c _ _ _ _ | .parentDue c _ _ _ | .updated c _ _ _ | .settling c _ _
  | .settled c _ _ => c ≠ .booted ∧ exists? = true
  | _ => exists? = true

variable {p : Point F} {r : Runner F} {w : World F}

variable {b : Bool} {p' : Point F} {r' : Runner F}

theorem Point.Opened.onError (h : p.Opened b) : p.onError.Opened b := by
  cases p with
  | «at» c | completed c _ | began c | archived c _ | truncating c _ _ =>
    cases c <;> simp_all [Point.Opened, Point.onError, Rest.onError]
  | _ => simp_all [Point.Opened, Point.onError]

theorem Local.opened (h : Local exp p r p' r') (hp : p.Opened b) : p'.Opened b := by
  cases h with
  | touch _ => exact hp
  | fail => exact hp.onError
  | @truncated c covered => cases c <;> simp_all [Point.Opened, Rest.afterCheckpoint]
  | _ => simp_all [Point.Opened]

/-- A call that does not put a checkpoint. -/
theorem Next.opened {op : Op F} {a : Ans F op} {w' : World F} (h : Next exp p r op a p' r')
    (ha : env exp op w a w') (hop : op.writesCheckpoint = false)
    (hp : p.Opened w.store.checkpoint.isSome) : p'.Opened w'.store.checkpoint.isSome := by
  rw [env_checkpoint ha hop]
  cases h with
  | failed _ => exact hp.onError
  | noCheckpoint he => simp [Point.Opened, (env_getCheckpoint_notFound he ha).1]
  | foundCheckpoint => simp [Point.Opened, (env_getCheckpoint_ok ha).1]
  | put _ => cases hop
  | @completed c _ _ _ _ hc => cases c <;> simp_all [Point.Opened, Rest.draining]
  | _ => simp_all [Point.Opened]

/-- **Checkpoints last.** Whether a checkpoint exists is known at every point. -/
theorem Reach.opened (h : Reaches exp p r w) : p.Opened w.store.checkpoint.isSome := by
  induction h with
  | init hw => trivial
  | restart _ _ _ => trivial
  | loc _ hl ih => exact hl.opened ih
  | @call p r w op a w' p' r' _ hn ha ih =>
    by_cases hop : op.writesCheckpoint = false
    · exact hn.opened ha hop ih
    · cases hn with
      | quiet hq => cases op <;> simp_all [Op.quiet, Op.writesCheckpoint]
      | put hv =>
        obtain ⟨store, hput, rfl⟩ := env_putCheckpoint_ok ha
        rw [(Store.putCheckpoint_ok hput).2.2]
        rfl
      | failed hi =>
        cases hi with
        | @put c =>
          have hsome := env_checkpoint_isSome ha
          cases c <;> simp_all [Point.Opened, Point.onError, Rest.onError]
        | _ => exact absurd rfl hop
      | _ => exact absurd rfl hop

/-- The checkpoint a resume works with. -/
def Point.reads : Point F → Option (Checkpoint F)
  | .found cp _ | .resuming cp | .collecting cp _ _ _ | .loaded cp _ | .adopted cp _ _
  | .restored cp _ _ | .ready cp _ => some cp
  | _ => none

theorem Point.reads_onError (p : Point F) : p.onError.reads = none := by
  cases p with
  | «at» c | completed c _ | began c | archived c _ | truncating c _ _ => cases c <;> rfl
  | _ => rfl

theorem Point.reads_afterCheckpoint (c : Rest) : (c.afterCheckpoint : Point F).reads = none := by
  cases c <;> rfl

/-- **A resume is about the checkpoint in the store.** -/
theorem Reach.current (h : Reaches exp p r w) {cp : Checkpoint F} (hcp : p.reads = some cp) :
    w.store.checkpoint.map (·.1) = some cp := by
  induction h with
  | init _ => cases hcp
  | restart _ _ _ => cases hcp
  | loc _ hl ih =>
    cases hl with
    | fail => rw [Point.reads_onError] at hcp; cases hcp
    | truncated => rw [Point.reads_afterCheckpoint] at hcp; cases hcp
    | touch | adoptGeneration | collect | loaded | noPost => exact ih hcp
    | _ => cases hcp
  | @call p r w op a w' p' r' _ hn ha ih =>
    have keep : op.writesCheckpoint = false → p.reads = some cp →
        w'.store.checkpoint.map (·.1) = some cp := fun hop hcp => env_checkpoint ha hop ▸ ih hcp
    cases hn with
    | quiet hq => exact keep (Op.keeps_of_quiet hq) hcp
    | failed _ => rw [Point.reads_onError] at hcp; cases hcp
    | foundCheckpoint =>
      cases hcp
      obtain ⟨hckpt, rfl⟩ := env_getCheckpoint_ok ha
      rw [hckpt]
      rfl
    | stale | collected | missed | adopt | restored | caughtUp => exact keep rfl hcp
    | _ => cases hcp

end Orchestrator.Server
