import Orchestrator.Server.Window

/-! # Server — Recovery

What a resume makes of the write-ahead entries. It removes entries below the checkpoint's
number downwards until one is missing, then collects upwards until enough are missing in a
row. The upward half finds every entry, because none is missing in the window. The downward
half leaves nothing exactly when the entries below the checkpoint's number are one segment
that ends just below it; a kill inside the downward half itself breaks that.

* `ensures_resume`: what a resume that completes returns and leaves.
* `wal_recovery_iff`: complete and clean, exactly when there was one segment.
* `wal_recovery_leaves_entry`: a run with two kills after which a resume leaves an entry.
-/

namespace Orchestrator.Server

open Core Services Lib Proc

variable {F : Type} [Float64 F] {exp : Experiment F}

/-! ### The two loops -/

section

variable {α : Type} {r : Runner F} {w : World F}

theorem ensures_ask {op : Op F} {Q : Ans F op → Runner F → World F → Prop}
    (h : ∀ a w', env exp op w a w' → Q a r w') : Ensures (env exp) (ask op) Q r w :=
  fun a w' ha => ⟨trivial, h a w' ha⟩

theorem ensures_rpc {x : M F (Except ClientError α)} {Q : α → Runner F → World F → Prop}
    (h : Ensures (env exp) x (fun a r' w' => ∀ b, a = .ok b → Q b r' w') r w) :
    Ensures (env exp) (rpc x) Q r w := by
  refine wp_bind.mpr (wp_mono h ?_ fun _ _ _ _ => trivial)
  intro a r' w' ha
  exact wp_ofExcept.mpr ⟨ha, fun _ _ => trivial⟩

variable {seq : Nat}

variable {Q : Unit → Runner F → World F → Prop} {fuel : Nat}

theorem ensures_deleteWalEntry (h : ∀ w' : World F, (∀ k : Nat, w'.store.wal[k]? =
      if k = seq then none else w.store.wal[k]?) → Q () r w') :
    Ensures (env exp) (deleteWalEntry seq) Q r w := by
  refine wp_bind.mpr (ensures_ask fun a w' ha => ?_)
  match a with
  | .ok () => exact h w' (env_deleteWal_gone (.inl rfl) ha)
  | .error e =>
    change Wp _ _ (if _ then _ else _) _ _ _ _
    split
    · rename_i he
      exact h w' (env_deleteWal_gone (.inr ⟨e, rfl, he⟩) ha)
    · trivial

/-- The downward loop is a clean-up to the first gap. -/
theorem ensures_finishTruncation
    (h : ∀ (w' : World F) (low : Nat), Cleared w.store.wal w'.store.wal seq low → Q () r w') :
    Ensures (env exp) (finishTruncation fuel seq) Q r w := by
  induction fuel generalizing seq w with
  | zero =>
    cases seq with
    | zero => exact h w 0 (.stop (fun k hk => by omega) fun _ => rfl)
    | succ seq => exact wp_halt
  | succ fuel ih =>
    cases seq with
    | zero => exact h w 0 (.stop (fun k hk => by omega) fun _ => rfl)
    | succ seq =>
      refine wp_bind.mpr (ensures_ask fun a w₁ ha => ?_)
      match a with
      | .ok i =>
        obtain ⟨hi, rfl⟩ := env_getWal_ok ha
        refine wp_bind.mpr (ensures_deleteWalEntry fun w₂ hdel => ?_)
        exact ih fun w' low hcleared => h w' low (.step (by rw [hi]; rfl) hdel hcleared)
      | .error e =>
        have hwal := env_wal ha rfl
        change Wp _ _ (if _ then _ else if _ then _ else _) _ _ _ _
        split
        · rename_i he
          refine h w₁ (seq + 1) (.stop (fun k hk => ?_) fun k => by rw [hwal])
          obtain rfl : k = seq := by omega
          exact env_getWal_notFound he ha
        · split
          · exact ih fun w' low hcleared => h w' low (hwal ▸ hcleared)
          · trivial

/-- The upward loop collects the whole window. -/
theorem ensures_collectWindow {cp : Checkpoint F} {inflight misses top : Nat}
    {intents : List ExpansionIntent} {Q : List ExpansionIntent → Runner F → World F → Prop}
    (hk : Keyed w.store) (hc : Collecting w.store cp seq misses intents top)
    (hi : ∀ i ∈ intents, w.store.wal[i.seq]? = some i)
    (h : ∀ (intents' : List ExpansionIntent) (w' : World F), w'.store.wal = w.store.wal →
      Loaded w.store cp (intents'.insertionSort (·.seq ≤ ·.seq)) →
      (∀ i ∈ intents', w.store.wal[i.seq]? = some i) → Q intents' r w') :
    Ensures (env exp) (collectWindow inflight fuel seq misses intents) Q r w := by
  induction fuel generalizing seq misses intents w with
  | zero => exact wp_halt
  | succ fuel ih =>
    unfold collectWindow
    split
    · rename_i hmisses
      exact h intents w rfl (hc.loaded (by omega)) hi
    · refine wp_bind.mpr (ensures_ask fun a w₁ ha => ?_)
      cases a with
      | ok i =>
        obtain ⟨hget, rfl⟩ := env_getWal_ok ha
        refine ih hk (hc.hit hk hget) (fun j hj => ?_) h
        rcases List.mem_append.mp hj with hj | hj
        · exact hi j hj
        · obtain rfl := List.mem_singleton.mp hj
          rw [hk seq j hget]
          exact hget
      | error e =>
        have hwal := env_wal ha rfl
        have hk₁ : Keyed w₁.store := by
          unfold Keyed
          rwa [hwal]
        have hi₁ : ∀ i ∈ intents, w₁.store.wal[i.seq]? = some i := by rwa [hwal]
        have h₁ : ∀ (intents' : List ExpansionIntent) (w' : World F),
            w'.store.wal = w₁.store.wal →
            Loaded w₁.store cp (intents'.insertionSort (·.seq ≤ ·.seq)) →
            (∀ i ∈ intents', w₁.store.wal[i.seq]? = some i) → Q intents' r w' := by
          unfold Loaded
          rw [hwal]
          exact h
        have hc₁ : ∀ {seq misses intents}, Collecting w.store cp seq misses intents top →
            Collecting w₁.store cp seq misses intents top :=
          fun hc => ⟨hwal ▸ hc.1, hc.2, hc.3, hc.4, hc.5⟩
        change Wp _ _ (if _ then _ else if _ then _ else _) _ _ _ _
        split
        · rename_i he
          exact ih hk₁ (hc₁ (hc.miss (env_getWal_notFound he ha))) hi₁ h₁
        · split
          · exact ih hk₁ (hc₁ hc) hi₁ h₁
          · trivial

end

/-! ### A resume -/

/-- What a resume must return and leave: every entry from the checkpoint's number on, once
and in order, and none below it. -/
structure Recovered (before : Store F) (cp : Checkpoint F) (intents : List ExpansionIntent)
    (after : Store F) : Prop where
  complete : ∀ i, i ∈ intents ↔ ∃ seq : Nat, cp.batchSeq ≤ seq ∧ before.wal[seq]? = some i
  increasing : intents.Pairwise (·.seq < ·.seq)
  clean : ∀ seq : Nat, seq < cp.batchSeq → after.wal[seq]? = none

section

variable {r : Runner F} {w : World F} {cp : Checkpoint F} {g : Nat}

/-- A loaded window is what survived. -/
theorem Loaded.survivors {s : Store F} {intents : List ExpansionIntent} (h : Loaded s cp intents)
    (hi : ∀ i ∈ intents, s.wal[i.seq]? = some i) :
    (∀ i, i ∈ intents ↔ ∃ seq : Nat, cp.batchSeq ≤ seq ∧ s.wal[seq]? = some i) ∧
      intents.Pairwise (·.seq < ·.seq) := by
  obtain ⟨top, hwin, hseqs⟩ := h
  constructor
  · intro i
    constructor
    · intro hmem
      have hseq : i.seq ∈ intents.map (·.seq) := List.mem_map_of_mem hmem
      rw [hseqs] at hseq
      exact ⟨i.seq, (List.mem_range'_1.mp hseq).1, hi i hmem⟩
    · rintro ⟨seq, hle, hget⟩
      have htop : seq < top := (hwin.mem seq hle).mp (by rw [hget]; rfl)
      have hmem : seq ∈ intents.map (·.seq) := by
        rw [hseqs]
        exact List.mem_range'_1.mpr ⟨hle, by omega⟩
      obtain ⟨j, hj, rfl⟩ := List.mem_map.mp hmem
      rw [hi j hj] at hget
      cases hget
      exact hj
  · refine List.pairwise_map.mp ?_
    rw [hseqs]
    exact List.pairwise_lt_range' 1

variable {fuel : Nat}

/-- What `load_wal_entries` returns and leaves. -/
theorem ensures_loadWalEntries {Q : List ExpansionIntent → Runner F → World F → Prop}
    (hq : Queued w.store) (hcp : w.store.checkpoint = some (cp, g))
    (h : ∀ (intents : List ExpansionIntent) (w' : World F),
      (Recovered w.store cp intents w'.store ↔ Segment w.store.wal cp.batchSeq) →
      Q intents r w') : Ensures (env exp) (loadWalEntries exp fuel cp.batchSeq) Q r w := by
  obtain ⟨top, hwin⟩ := hq.window cp g hcp
  refine wp_bind.mpr (ensures_finishTruncation fun w₁ low hcleared => ?_)
  have habove : ∀ k, cp.batchSeq ≤ k → w₁.store.wal[k]? = w.store.wal[k]? := fun k hk => by
    rw [hcleared.removed, if_neg (by omega)]
  have hkeyed : Keyed w₁.store := by
    intro seq i hi
    rw [hcleared.removed] at hi
    split at hi
    · cases hi
    · exact hq.keyed seq i hi
  have hwin₁ := hwin.congr habove
  have hstart : Collecting w₁.store cp cp.batchSeq 0 [] top :=
    ⟨hwin₁, Nat.le_refl _, by simp [hwin₁.le], fun _ => hwin₁.le, by simp⟩
  refine wp_bind.mpr (ensures_collectWindow hkeyed hstart (by simp) ?_)
  intro intents w₂ hwal hloaded hmem
  obtain ⟨hsurvive, hsorted⟩ := hloaded.survivors fun i hi =>
    hmem i ((List.mem_insertionSort _).mp hi)
  refine h _ w₂ ?_
  rw [← hcleared.none_below_iff, ← hwal]
  constructor
  · exact fun hrec => hrec.clean
  · intro hclean
    refine ⟨fun i => (hsurvive i).trans (exists_congr fun seq => and_congr_right fun hle => ?_),
      hsorted, hclean⟩
    rw [habove seq hle]

theorem ensures_replayCommits {states : List CommittedState} {Q : Unit → Runner F → World F → Prop}
    (h : ∀ w' : World F, w'.store.wal = w.store.wal → Q () r w') :
    Ensures (env exp) (replayCommits states) Q r w := by
  cases hempty : states.isEmpty with
  | true =>
    simp only [replayCommits, hempty]
    exact h w rfl
  | false =>
    simp only [replayCommits, hempty]
    refine ensures_rpc (ensures_ask fun a w' ha => ?_)
    rintro ⟨⟩ rfl
    exact h w' (env_wal ha rfl)

/-- What a resume returns and leaves. -/
theorem ensures_resume (hq : Queued w.store) (hcp : w.store.checkpoint = some (cp, g)) :
    Ensures (env exp) (resume exp fuel cp g) (fun _ r' w' =>
      Recovered w.store cp r'.replayQueue w'.store ↔ Segment w.store.wal cp.batchSeq) r w := by
  refine wp_bind.mpr (wp_modify.mpr (wp_bind.mpr (ensures_loadWalEntries hq hcp ?_)))
  intro intents w₁ hrec
  -- nothing after the window is loaded touches it
  have hdone : ∀ w' : World F, w'.store.wal = w₁.store.wal →
      (Recovered w.store cp intents w'.store ↔ Segment w.store.wal cp.batchSeq) := by
    intro w' hwal
    refine Iff.trans ⟨fun h => ?_, fun h => ?_⟩ hrec
    · exact ⟨h.complete, h.increasing, fun seq hseq => hwal ▸ h.clean seq hseq⟩
    · exact ⟨h.complete, h.increasing, fun seq hseq => hwal ▸ h.clean seq hseq⟩
  refine wp_bind.mpr (ensures_rpc (ensures_ask fun a w₂ ha => ?_))
  rintro rows rfl
  have hwal₂ := env_wal ha rfl
  refine wp_bind.mpr (wp_bind.mpr (wp_get.mpr ?_))
  cases rebuildTree rows with
  | error e => trivial
  | ok tree =>
    dsimp only
    split
    · exact wp_halt
    · refine wp_bind.mpr (wp_modify.mpr (wp_bind.mpr (wp_bind.mpr (ensures_rpc (ensures_ask ?_)))))
      intro a w₃ ha₃
      rintro seq rfl
      have hwal₃ := env_wal ha₃ rfl
      split
      · refine wp_bind.mpr (wp_modify.mpr (ensures_replayCommits fun w₄ hwal₄ => ?_))
        exact wp_modify.mpr (hdone w₄ (hwal₄.trans (hwal₃.trans hwal₂)))
      · trivial

end

/-- **Recovery of the write-ahead entries.** In every world a run with kills at any call can
be in, a resume from the checkpoint that completes has queued exactly the entries from the
checkpoint's number on, once each and in order, and leaves none below it, if and only if
the entries below the number were one segment ending just below it when the resume began. -/
theorem wal_recovery_iff (exp : Experiment F) {s : Solo (Op F) (Ans F) (World F)}
    (h : Solo.Steps (env exp) (boot exp) ⟨.empty, none⟩ s) {cp : Checkpoint F} {g : Nat}
    (hcp : s.world.store.checkpoint = some (cp, g)) (fuel : Nat) (r : Runner F) :
    Ensures (env exp) (resume exp fuel cp g) (fun _ r' w' =>
      Recovered s.world.store cp r'.replayQueue w'.store ↔
        Segment s.world.store.wal cp.batchSeq) r s.world := by
  obtain ⟨p, r₀, hreach⟩ := reaches_of_steps h
  exact ensures_resume hreach.sequenced.queued hcp

/-! ### A clean-up that was itself stopped -/

/-- The sample with a checkpoint after every second batch. -/
def cleaning : Experiment Int := { sample with everyCommits := 2 }

/-- A process killed before it truncates entries 0 and 1, a resume killed once it has removed
entry 1, and a resume that completes. -/
def stoppedCleaning : List (List Choice) :=
  [List.replicate 66 .answer, List.replicate 6 .answer, List.replicate 11 .answer]

/-- A started process whose store has an entry below the checkpoint's number. -/
def Entry.leftover (e : Entry F) : Bool :=
  match e.event, e.store.checkpoint with
  | .started _, some (cp, _) => (List.range cp.batchSeq).any fun seq => e.store.wal[seq]?.isSome
  | _, _ => false

theorem Entry.leftover_iff {e : Entry F} (h : e.leftover = true) :
    ∃ r cp g seq, e.event = .started r ∧ e.store.checkpoint = some (cp, g) ∧
      seq < cp.batchSeq ∧ e.store.wal[seq]?.isSome = true := by
  unfold Entry.leftover at h
  split at h
  · rename_i r cp g hevent hcp
    obtain ⟨seq, hseq, hsome⟩ := List.any_eq_true.mp h
    exact ⟨r, cp, g, seq, hevent, hcp, List.mem_range.mp hseq, hsome⟩
  · cases h

theorem leftover_stoppedCleaning :
    (evaluate cleaning stoppedCleaning).log.any Entry.leftover = true := by
  decide +kernel

theorem wal_recovery_leaves_entry :
    ∃ s, Solo.Steps (env cleaning) (boot cleaning) ⟨.empty, none⟩ s ∧
      ∃ e ∈ s.world.log, ∃ r cp g seq, e.event = .started r ∧
        e.store.checkpoint = some (cp, g) ∧ seq < cp.batchSeq ∧
        e.store.wal[seq]?.isSome = true := by
  obtain ⟨e, he, hleft⟩ := List.any_eq_true.mp leftover_stoppedCleaning
  exact ⟨_, steps_evaluate cleaning stoppedCleaning, e, he, Entry.leftover_iff hleft⟩

/-- A store with all entries below the checkpoint's number. -/
def unbroken (s : Store F) : Bool :=
  match s.checkpoint with
  | some (cp, _) => (List.range cp.batchSeq).all fun seq => s.wal[seq]?.isSome
  | none => false

theorem segment_of_unbroken {s : Store F} (h : unbroken s = true) :
    ∃ cp g, s.checkpoint = some (cp, g) ∧ Segment s.wal cp.batchSeq := by
  unfold unbroken at h
  split at h
  · rename_i cp g hcp
    refine ⟨cp, g, hcp, fun k j _ hj _ => ?_⟩
    exact List.all_eq_true.mp h j (List.mem_range.mpr hj)
  · cases h

/-- The process killed before its truncation. -/
def killedCleaning : List (List Choice) := [List.replicate 66 .answer]

theorem wal_recovery_iff_killedCleaning :
    ∃ cp g, (evaluate cleaning killedCleaning).store.checkpoint = some (cp, g) ∧
      ∀ fuel r, Ensures (env cleaning) (resume cleaning fuel cp g) (fun _ r' w' =>
        Recovered (evaluate cleaning killedCleaning).store cp r'.replayQueue w'.store) r
        (evaluate cleaning killedCleaning) := by
  have hunbroken : unbroken (evaluate cleaning killedCleaning).store = true := by decide +kernel
  obtain ⟨cp, g, hcp, hseg⟩ := segment_of_unbroken hunbroken
  have hsteps := steps_evaluate cleaning killedCleaning
  generalize evaluate cleaning killedCleaning = w at hsteps hcp hseg ⊢
  refine ⟨cp, g, hcp, fun fuel r => ?_⟩
  have hiff := wal_recovery_iff cleaning hsteps hcp fuel r
  exact wp_mono hiff (fun _ _ _ h => h.mpr hseg) fun _ _ _ h => h

end Orchestrator.Server
