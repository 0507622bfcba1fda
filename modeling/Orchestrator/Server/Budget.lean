import Orchestrator.Server.Window

/-! # Server — Budgets

The budgets are looked at only at the top of the select loop, so what they bound is what a
process has counted together with what it can no longer take back: the batches in flight, the
batch it commits, the intents it will replay. A checkpoint and the write-ahead entries above
it account for no more than the process that left them.

* `Reach.budgeted`: the invariant, over any number of stops and starts.
-/

namespace Orchestrator.Server

open Core Services Lib

variable {F : Type} [Float64 F] {exp : Experiment F}

/-! ### What is counted -/

def Rest.owed : Rest → Nat
  | .popped _ => 1
  | _ => 0

/-- The batch that is replayed or committed and not counted yet. -/
def Point.owed : Point F → Nat
  | .at c | .began c | .archived c _ | .truncating c _ _ => c.owed
  | .requested true _ _ | .offered true _ _ _ | .proposed true _ _ | .sent _ | .taken _ _
  | .answered _ _ _ | .scored _ _ _ | .owned _ _ _ | .storing _ _ _ _ _ | .replayTaken _
  | .replayScored _ _ | .replaying _ _ _ _ | .acting _ _ _ _ _ _ | .parentDue _ _ _ _
  | .updated _ _ _ _ => 1
  | _ => 0

/-- What a process has counted and will count without another look at the budget. -/
def pledged (p : Point F) (r : Runner F) : Nat :=
  r.expansions + r.inflight.length + r.replayQueue.length + p.owed

/-- Whether the next number has a write-ahead entry already. -/
def ahead (r : Runner F) (s : Store F) : Nat := (s.wal[r.batchSeq]?).isSome.toNat

def Rest.running : Rest → Bool
  | .booted | .failed => false
  | _ => true

/-- Where a process has a checkpoint and has not failed. -/
def Point.running : Point F → Bool
  | .start | .ended | .fresh | .bootstrapped _ | .rootReady _ _ | .rootStored _ | .found _ _
  | .resuming _ | .collecting _ _ _ _ | .loaded _ _ | .adopted _ _ _ | .restored _ _ _
  | .ready _ _ | .torn _ => false
  | .at c | .began c | .archived c _ => c.running
  | .truncating c _ _ => c ≠ .failed
  | _ => true

/-- A batch is dispatched only with room in the budget and in the pipeline. -/
def Point.Room (quota m : Nat) (r : Runner F) : Point F → Prop
  | .filling => r.expansions < quota
  | .selecting _ | .dispatching _ | .requested false _ _ | .offered false _ _ _
  | .proposed false _ _ | .walled _ _ | .submitted _ =>
    r.expansions < quota ∧ r.inflight.length < m
  | _ => True

/-- The account of a process with a budget of `quota` expansions and room for `m` batches. -/
structure Budgeted (quota m : Nat) (p : Point F) (r : Runner F) (s : Store F) : Prop where
  bounded : pledged p r + ahead r s < quota + m
  /-- What a resume would count. -/
  stored : ∀ cp g top, s.checkpoint = some (cp, g) → Window s.wal cp.batchSeq top →
    cp.expansions + (top - cp.batchSeq) < quota + m
  /-- A resume would count no more than the process. -/
  covered : p.running = true → ∀ cp g, s.checkpoint = some (cp, g) →
    cp.expansions + (r.batchSeq - cp.batchSeq) ≤ pledged p r
  room : p.Room quota m r

section

variable {quota m : Nat} {p p' : Point F} {r r' : Runner F} {s s' : Store F}

theorem Point.owed_onError (p : Point F) : p.onError.owed = 0 := by
  cases p with
  | «at» c | completed c _ | began c | archived c _ | truncating c _ _ => cases c <;> rfl
  | _ => rfl

theorem Point.running_onError (p : Point F) : p.onError.running = false := by
  cases p with
  | «at» c | completed c _ | began c | archived c _ | truncating c _ _ => cases c <;> rfl
  | _ => rfl

theorem Point.room_onError (p : Point F) : p.onError.Room quota m r := by
  cases p with
  | «at» c | completed c _ | began c | archived c _ | truncating c _ _ => cases c <;> trivial
  | _ => trivial

theorem pledged_onError : pledged p.onError r ≤ pledged p r := by
  rw [pledged, Point.owed_onError]
  exact Nat.le_add_right _ _

/-- What a failed process leaves to a resume is what it leaves in the store. -/
theorem Budgeted.fail (hle : pledged p r + ahead r s < quota + m)
    (hstored : ∀ cp g top, s.checkpoint = some (cp, g) → Window s.wal cp.batchSeq top →
      cp.expansions + (top - cp.batchSeq) < quota + m) : Budgeted quota m p.onError r s :=
  ⟨Nat.lt_of_le_of_lt (Nat.add_le_add_right pledged_onError _) hle, hstored,
    fun hrun => by simp [Point.running_onError] at hrun, p.room_onError⟩

theorem Budgeted.onError (h : Budgeted quota m p r s) : Budgeted quota m p.onError r s :=
  .fail h.bounded h.stored

theorem Budgeted.congr (h : Budgeted quota m p r s) (he : r'.expansions = r.expansions)
    (hs : r'.batchSeq = r.batchSeq) (hq : r'.replayQueue = r.replayQueue)
    (hi : r'.inflight = r.inflight) : Budgeted quota m p r' s := by
  obtain ⟨hbounded, hstored, hcovered, hroom⟩ := h
  refine ⟨?_, hstored, ?_, ?_⟩
  · unfold pledged ahead at hbounded ⊢
    rw [he, hs, hq, hi]
    exact hbounded
  · unfold pledged at hcovered ⊢
    rw [he, hs, hq, hi]
    exact hcovered
  · unfold Point.Room at hroom ⊢
    rw [he, hi]
    exact hroom

theorem Budgeted.of_store (h : Budgeted quota m p r s) (hw : s'.wal = s.wal)
    (hc : s'.checkpoint = s.checkpoint) : Budgeted quota m p r s' := by
  obtain ⟨hbounded, hstored, hcovered, hroom⟩ := h
  refine ⟨?_, ?_, ?_, hroom⟩
  · unfold ahead at hbounded ⊢
    rwa [hw]
  · rwa [hw, hc]
  · rwa [hc]

theorem ahead_of_spans (h : Spans r s r.batchSeq) : ahead r s = 0 := by
  obtain ⟨cp, g, -, -, hwin⟩ := h
  simp [ahead, hwin.top_unused (Nat.le_refl _)]

theorem Numbers.length_queue (h : Numbers r) :
    r.replayQueue.length = r.batchSeq - effectiveCheckpointSeq r := by
  simpa using congrArg List.length h.queue

variable {i : ExpansionIntent} {g : Nat} {c : Rest}

variable {seq : Nat} {cp : Checkpoint F} {d : BatchResult}

/-- A batch that came back leaves the flight. -/
theorem Numbers.length_take (h : Numbers r) (hi : r.inflight.find? (·.seq = seq) = some i) :
    (r.inflight.filter (·.seq ≠ seq)).length + 1 = r.inflight.length := by
  have hseq : i.seq = seq := by simpa using List.find?_some hi
  subst hseq
  exact length_filter_key h.nodup (List.mem_of_find?_eq_some hi)

/-! ### The steps of a process -/

/-- A resume counts what its checkpoint counted and what it has to replay. -/
theorem Budgeted.books {intents : List ExpansionIntent}
    (h : Budgeted quota m (.ready cp intents) r s) (hseq : Sequenced (.ready cp intents) r s)
    (hcp : s.checkpoint = some (cp, g)) :
    Budgeted quota m .starting (restoreBooks exp cp intents r) s := by
  obtain ⟨top, hwin, hseqs⟩ := hseq.tracks
  obtain ⟨-, hspans⟩ := Loaded.books exp ⟨top, hwin, hseqs⟩ (by rw [hcp]; rfl)
    hseq.placed.1.1
  have hlen : intents.length = top - cp.batchSeq := by simpa using congrArg List.length hseqs
  have hnext : (restoreBooks exp cp intents r).batchSeq = cp.batchSeq + (top - cp.batchSeq) :=
    nextSeq_of_range hseqs
  have hpledged : pledged .starting (restoreBooks exp cp intents r) =
      cp.expansions + intents.length := by
    simp [pledged, restoreBooks, hseq.placed.1.1, Point.owed]
  have hstored := h.stored cp g top hcp hwin
  refine ⟨?_, h.stored, ?_, trivial⟩
  · rw [ahead_of_spans hspans, hpledged, hlen]
    exact hstored
  · intro _ cp' g' hcp'
    rw [hcp] at hcp'
    cases hcp'
    rw [hpledged, hnext, hlen, Nat.add_sub_cancel_left]

theorem Budgeted.flight (h : Budgeted quota m (.submitted i) r s)
    (hseq : Sequenced (.submitted i) r s) : Budgeted quota m .filling (enterFlight i r) s := by
  obtain ⟨⟨hq, -⟩, hi⟩ := hseq.placed
  obtain ⟨hroom, hcap⟩ := h.room
  have hspans := Spans.flight hseq.tracks hseq.numbers hq hi
  have hcovered := h.covered rfl
  have hahead := ahead_of_spans hspans
  rw [hseq.numbers.enterFlight_eq hi] at hahead ⊢
  have hpledged : pledged (.submitted i) r = r.expansions + r.inflight.length := by
    simp [pledged, hq, Point.owed]
  have hpledged' : pledged .filling
      { r with batchSeq := r.batchSeq + 1, inflight := r.inflight ++ [i] } =
        r.expansions + r.inflight.length + 1 := by
    simp [pledged, hq, Point.owed, Nat.add_assoc]
  refine ⟨?_, h.stored, ?_, hroom⟩
  · rw [hahead, hpledged']
    omega
  · intro _ cp g hcp
    have hle := hcovered cp g hcp
    rw [hpledged] at hle
    rw [hpledged']
    dsimp only
    omega

theorem Budgeted.take (h : Budgeted quota m (.completed c d) r s) (hn : Numbers r)
    (hi : r.inflight.find? (·.seq = d.seq) = some i) :
    Budgeted quota m (.taken c d)
      { r with inflight := r.inflight.filter (·.seq ≠ d.seq), current := some i } s := by
  have hlen := hn.length_take hi
  have hpledged : pledged (.taken c d)
      { r with inflight := r.inflight.filter (·.seq ≠ d.seq), current := some i } =
        pledged (.completed c d) r := by
    simp only [pledged, Point.owed]
    omega
  exact ⟨hpledged ▸ h.bounded, h.stored, fun hrun => hpledged ▸ h.covered hrun, trivial⟩

/-- A commit is counted once. -/
theorem Budgeted.count {states : List CommittedState} {goal : Option NodeId}
    (h : Budgeted quota m (.updated c d states goal) r s) :
    Budgeted quota m (.settling c d goal) { r with expansions := r.expansions + 1 } s := by
  have hpledged : pledged (.settling c d goal) { r with expansions := r.expansions + 1 } =
      pledged (.updated c d states goal) r := by
    simp only [pledged, Point.owed]
    omega
  exact ⟨hpledged ▸ h.bounded, h.stored, fun hrun => hpledged ▸ h.covered hrun, trivial⟩

theorem lt_maxExpansions_of_budgetSpent (hq : 0 < exp.budgets.maxExpansions)
    (h : budgetSpent exp r = none) : r.expansions < exp.budgets.maxExpansions := by
  by_contra hge
  unfold budgetSpent at h
  split at h
  · cases h
  · rw [if_pos ⟨hq, Nat.le_of_not_lt hge⟩] at h
    cases h

theorem Local.budgeted (hl : Local exp p r p' r') (hquota : 0 < exp.budgets.maxExpansions)
    (hread : ∀ cp, p.reads = some cp → s.checkpoint.map (·.1) = some cp)
    (hseq : Sequenced p r s) (h : Budgeted exp.budgets.maxExpansions m p r s) :
    Budgeted exp.budgets.maxExpansions m p' r' s := by
  cases hl with
  | touch hsame =>
    exact h.congr hsame.expansions hsame.batchSeq hsame.replayQueue hsame.inflight
  | fail => exact h.onError
  | @books cp =>
    obtain ⟨⟨_, g⟩, hcp, rfl⟩ := Option.map_eq_some_iff.mp (hread cp rfl)
    exact h.books hseq hcp
  | @pop _ i rest hq =>
    have hpledged : pledged (.at (.popped i)) { r with replayQueue := rest, current := some i } =
        pledged (.at .replay) r := by
      simp only [pledged, hq]
      rfl
    exact ⟨hpledged ▸ h.bounded, h.stored, fun hrun => hpledged ▸ h.covered hrun, trivial⟩
  | fill hspent =>
    exact ⟨h.bounded, h.stored, h.covered, lt_maxExpansions_of_budgetSpent hquota hspent⟩
  | @accepted replay =>
    cases replay with
    | true => exact ⟨h.bounded, h.stored, h.covered, trivial⟩
    | false => exact ⟨h.bounded, h.stored, h.covered, h.room⟩
  | flight => exact h.flight hseq
  | take hi => exact h.take hseq.numbers hi
  | noStates => exact h.count
  | settle =>
    rw [addGoal_inflight]
    exact ⟨h.bounded, h.stored, h.covered, trivial⟩
  | @truncated c =>
    cases c with
    | failed => exact ⟨h.bounded, h.stored, fun hrun => (by cases hrun), trivial⟩
    | _ => exact ⟨h.bounded, h.stored, fun _ => h.covered rfl, trivial⟩
  | commitFailed | replayChildFailed | replayParentFailed => exact h.onError.congr rfl rfl rfl rfl
  | selected => exact ⟨h.bounded, h.stored, h.covered, h.room⟩
  | _ => exact ⟨h.bounded, h.stored, h.covered, trivial⟩

/-! ### The calls of a process -/

/-- A checkpoint accounts for what the process has counted and will replay. -/
theorem Budgeted.put {archive : ArchiveSnapshot} {value : Checkpoint F}
    (h : Budgeted quota m (.archived c archive) r s) (hseq : Sequenced (.archived c archive) r s)
    (hopen : c = .booted → s.checkpoint = none) (hv : buildCheckpoint exp r archive = some value) :
    (∀ cp g' top, some (value, g) = some (cp, g') → Window s.wal cp.batchSeq top →
      cp.expansions + (top - cp.batchSeq) < quota + m) ∧
    value.expansions + (r.batchSeq - value.batchSeq) = r.expansions + r.replayQueue.length := by
  obtain ⟨⟨top, ⟨_, _, hcp, -, hwin⟩, htop⟩, -⟩ := covers_put (g := g) hseq hopen hv
  cases hcp
  have hbatch := buildCheckpoint_batchSeq hv
  have hexp : value.expansions = r.expansions := by
    obtain ⟨frontier, -, rfl⟩ := Option.map_eq_some_iff.mp hv
    rfl
  have hle := hseq.numbers.le
  have hqueue := hseq.numbers.length_queue
  have hbounded := h.bounded
  have hahead : top - r.batchSeq ≤ ahead r s := by
    rcases htop with rfl | ⟨-, rfl⟩
    · simp
    · have hsome := (hwin.mem r.batchSeq (hbatch ▸ hle)).mpr (Nat.lt_succ_self _)
      simp [ahead, hsome]
  refine ⟨?_, by omega⟩
  intro cp g' top' hcp' hwin'
  cases hcp'
  obtain rfl := hwin.top_eq hwin'
  simp only [pledged] at hbounded
  omega

/-- A dispatch has room for its write-ahead entry. -/
theorem Budgeted.putWal {bursts : List Burst} (h : Budgeted quota m (.proposed false i bursts) r s)
    (hseq : Sequenced (.proposed false i bursts) r s) :
    Budgeted quota m (.walled i bursts) r (s.putWal i.seq i) := by
  obtain ⟨⟨hq, -⟩, hi⟩ := hseq.placed
  obtain ⟨hroom, hcap⟩ := h.room
  obtain ⟨⟨cp, g, hcp, -, hwin⟩, -⟩ := spans_putWal hseq.tracks hseq.queued hi
  have hpledged : pledged (.proposed false i bursts) r = r.expansions + r.inflight.length := by
    simp [pledged, hq, Point.owed]
  have hahead : ahead r (s.putWal i.seq i) ≤ 1 := Bool.toNat_le _
  have hcovered := h.covered rfl
  refine ⟨?_, ?_, fun _ => hcovered, ⟨hroom, hcap⟩⟩
  · have : pledged (.walled i bursts) r = r.expansions + r.inflight.length := hpledged
    omega
  · intro cp' g' top hcp' hwin'
    rw [hcp] at hcp'
    cases hcp'
    obtain rfl := hwin.top_eq hwin'
    have hle := hcovered cp g hcp
    rw [hpledged] at hle
    omega

/-- A delete below the checkpoint's number changes no account. -/
theorem Budgeted.erase (h : Budgeted quota m p r s) (hcp : s.checkpoint = some (cp, g))
    (hseq : seq < cp.batchSeq) : Budgeted quota m p r { s with wal := s.wal.erase seq } := by
  obtain ⟨hbounded, hstored, hcovered, hroom⟩ := h
  refine ⟨?_, ?_, hcovered, hroom⟩
  · have hahead : ahead r { s with wal := s.wal.erase seq } ≤ ahead r s := by
      simp only [ahead, getElem?_erase_if]
      split
      · exact Nat.zero_le _
      · exact Nat.le_refl _
    omega
  · intro cp' g' top hcp' hwin
    rw [show s.checkpoint = some (cp', g') from hcp'] at hcp
    cases hcp
    refine hstored cp g top hcp' (hwin.congr fun k hk => ?_)
    rw [getElem?_erase_if, if_neg (by omega)]

end

section

variable {quota m : Nat} {p p' : Point F} {r r' : Runner F} {op : Op F} {a : Ans F op}
  {w w' : World F}

theorem Budgeted.frame (h : Budgeted quota m p r w.store) (ha : env exp op w a w')
    (hw : op.writesWal = false) (hc : op.writesCheckpoint = false) :
    Budgeted quota m p r w'.store :=
  h.of_store (env_wal ha hw) (env_checkpoint ha hc)

variable {seq : Nat}

theorem Budgeted.deleteWal {a : Ans F (.deleteWal seq)} {cp : Checkpoint F} {g : Nat}
    (h : Budgeted quota m p r w.store) (ha : env exp (.deleteWal seq) w a w')
    (hcp : w.store.checkpoint = some (cp, g)) (hseq : seq < cp.batchSeq) :
    Budgeted quota m p r w'.store := by
  refine env_induct (P := fun x => Budgeted quota m p r x.store) ha h (fun w₁ happ => ?_)
    fun _ _ h => h
  cases happ with
  | deleteWal hdelete =>
    rw [Store.deleteWal_ok hdelete]
    exact h.erase hcp hseq

/-- The entry a truncation deletes is below the checkpoint. -/
theorem Sequenced.truncating {c : Rest} {covered : Nat} {rest : List Nat} {s : Store F}
    (h : Sequenced (.truncating c covered (seq :: rest)) r s) :
    ∃ cp g, s.checkpoint = some (cp, g) ∧ seq < cp.batchSeq := by
  obtain ⟨-, hcp, hrest⟩ := h.tracks
  obtain ⟨⟨cp, g⟩, hckpt, rfl⟩ := Option.map_eq_some_iff.mp hcp
  exact ⟨cp, g, hckpt, hrest seq List.mem_cons_self⟩

theorem Issues.budgeted (hi : Issues exp p r op) (ha : env exp op w a w')
    (hopen : p.Opened w.store.checkpoint.isSome) (hseq : Sequenced p r w.store)
    (h : Budgeted quota m p r w.store) : Budgeted quota m p.onError r w'.store := by
  cases hi with
  | @write i bursts =>
    refine env_induct (P := fun x => Budgeted quota m (.at .failed) r x.store) ha h.onError
      (fun w₁ happ => ?_) fun _ _ h => h
    cases happ with
    | putWal => exact (h.putWal hseq).onError
  | @put c archive _ value hv =>
    refine env_induct (P := fun x => Budgeted quota m (Point.archived c archive).onError r x.store)
      ha h.onError (fun w₁ happ => ?_) fun _ _ h => h
    cases happ with
    | putCheckpoint hput =>
      rw [(Store.putCheckpoint_ok hput).2.2]
      exact .fail h.bounded (h.put hseq hopen.booted hv).1
  | @truncate c covered seq rest =>
    obtain ⟨cp, g, hcp, hlt⟩ := hseq.truncating
    exact (h.deleteWal ha hcp hlt).onError
  | _ => exact h.onError.frame ha rfl rfl

theorem Next.budgeted (hn : Next exp p r op a p' r') (ha : env exp op w a w')
    (hopen : p.Opened w.store.checkpoint.isSome)
    (hread : ∀ cp, p.reads = some cp → w.store.checkpoint.map (·.1) = some cp)
    (hseq : Sequenced p r w.store)
    (h : Budgeted quota (max exp.maxInflightBatches 1) p r w.store) :
    Budgeted quota (max exp.maxInflightBatches 1) p' r' w'.store := by
  have hplaced := hn.placed hseq.placed
  cases hn with
  | quiet hq =>
    exact h.frame ha (by cases op <;> simp_all [Op.quiet, Op.writesWal])
      (Op.keeps_of_quiet hq)
  | failed hi => exact hi.budgeted ha hopen hseq h
  | @stale cp seq _ _ hlt =>
    obtain ⟨⟨_, g⟩, hcp, rfl⟩ := Option.map_eq_some_iff.mp (hread cp rfl)
    exact h.deleteWal ha hcp hlt
  | select hcap =>
    have hframe := h.frame ha rfl rfl
    exact ⟨hframe.bounded, hframe.stored, hframe.covered, hframe.room, hcap⟩
  | @offered replay =>
    have hframe := h.frame ha rfl rfl
    cases replay with
    | true => exact ⟨hframe.bounded, hframe.stored, hframe.covered, trivial⟩
    | false => exact ⟨hframe.bounded, hframe.stored, hframe.covered, hframe.room⟩
  | build =>
    have hframe := h.frame ha rfl rfl
    exact ⟨hframe.bounded, hframe.stored, hframe.covered, hframe.room⟩
  | @written i bursts =>
    obtain rfl := env_putWal_ok ha
    exact h.putWal hseq
  | checked | submitted =>
    have hframe := h.frame ha rfl rfl
    exact ⟨hframe.bounded, hframe.stored, hframe.covered, hframe.room⟩
  | @completed c =>
    have hframe := h.frame ha rfl rfl
    cases c with
    | loop | pausing | ending => exact ⟨hframe.bounded, hframe.stored, hframe.covered, trivial⟩
    | _ => cases hplaced.1
  | replayed => exact (h.frame ha rfl rfl).count
  | @committed c d goal =>
    have hframe := h.frame ha rfl rfl
    have hcommits := hseq.placed.1
    have howed : (c.afterCommit exp goal).owed = 0 := by
      cases c with
      | replay | loop =>
        simp only [Rest.afterCommit]
        split <;> rfl
      | pausing | ending => rfl
      | _ => cases hcommits
    have hpledged : pledged (.at (c.afterCommit exp goal)) r = pledged (.settled c d goal) r := by
      simp only [pledged, Point.owed, howed]
    exact ⟨hpledged ▸ hframe.bounded, hframe.stored, fun _ => hpledged ▸ hframe.covered rfl,
      trivial⟩
  | @put c archive _ value g hv =>
    obtain ⟨store, hput, rfl⟩ := env_putCheckpoint_ok ha
    obtain ⟨hstored, hcount⟩ := h.put (g := g) hseq hopen.booted hv
    obtain ⟨-, -, rfl⟩ := Store.putCheckpoint_ok hput
    refine ⟨h.bounded, hstored, ?_, trivial⟩
    intro _ cp' g' hcp'
    cases hcp'
    simp only [pledged]
    omega
  | truncated =>
    obtain ⟨cp, g, hcp, hlt⟩ := hseq.truncating
    have hdel := h.deleteWal ha hcp hlt
    exact ⟨hdel.bounded, hdel.stored, hdel.covered, trivial⟩
  | _ =>
    have hframe := h.frame ha rfl rfl
    exact ⟨hframe.bounded, hframe.stored, hframe.covered, trivial⟩

end

theorem budgeted_start (exp : Experiment F) {quota m : Nat} {s : Store F} (hquota : 0 < quota)
    (hm : 0 < m) (hstored : ∀ cp g top, s.checkpoint = some (cp, g) →
      Window s.wal cp.batchSeq top → cp.expansions + (top - cp.batchSeq) < quota + m) :
    Budgeted quota m .start (.initial exp) s := by
  refine ⟨?_, hstored, fun hrun => (by cases hrun), trivial⟩
  have hpledged : pledged .start (.initial exp) = 0 := rfl
  have hahead : ahead (.initial exp) s ≤ 1 := Bool.toNat_le _
  omega

/-- **The account of a run.** At every point of every run, what a process has counted and what
it can no longer take back is within the budget and the room of the pipeline. -/
theorem Reach.budgeted {p : Point F} {r : Runner F} {w : World F} (h : Reaches exp p r w)
    (hquota : 0 < exp.budgets.maxExpansions) :
    Budgeted exp.budgets.maxExpansions (max exp.maxInflightBatches 1) p r w.store := by
  have hm : 0 < max exp.maxInflightBatches 1 := Nat.le_max_right _ _
  induction h with
  | init hw =>
    subst hw
    exact budgeted_start exp hquota hm (by simp [World.empty, Store.new])
  | restart _ _ ih => exact budgeted_start exp hquota hm ih.stored
  | loc h hl ih => exact hl.budgeted hquota (fun _ => h.current) h.sequenced ih
  | call h hn ha ih => exact hn.budgeted ha h.opened (fun _ => h.current) h.sequenced ih

end Orchestrator.Server
