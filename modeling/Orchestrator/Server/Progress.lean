import Orchestrator.Server.GoalList

/-! # Server — Progress

The stream of progress events. The runner publishes snapshots of its status into a channel that
keeps the latest one; the stream looks at it in a loop, compares it with the last snapshot it
sent, and sends an event with at most one edge when they differ or a heartbeat is due. It ends
when the runner has gone and the last snapshot was looked at. What is published is what the
runner sends in a run from its start to its end.

* `Reach.shows`: the goals of the published statuses only grow.
* `Stream.run_emitted`: how many goals have an edge after any looks.
* `every_goal_iff`: every goal added after the first snapshot gets its one edge exactly when
  from each look on there are as many news and heartbeats as goals still to come.
* `drained_goal_lost`: a goal that is committed while the last batches are drained gets none.
-/

namespace Orchestrator.Server

open Core Services Lib

section

variable (F : Type)

/-- The edge of an event; the goal's node stands for what its lookup returns. -/
inductive Edge where
  | goal (node : NodeId)
  /-- The failure reason, shown without its "budget-exhausted: ". -/
  | budget (reason : Option RuntimeReason)
  | escalation (fromLevel toLevel : Nat)
  | stall (level : Nat) (bestScore : Option F) (windowN : Nat)

/-- The task behind a stream: the snapshot it sent last, how many goals it gave an edge, and the
edges of its events so far. -/
structure Stream where
  previous : StatusSnapshot F
  goalsEmitted : Nat
  edges : List (Edge F)

end

variable {F : Type}

def Edge.goal? : Edge F → Option NodeId
  | .goal node => some node
  | _ => none

namespace Stream

/-- The initial event repeats the latest goal. -/
def start (first : StatusSnapshot F) : Stream F where
  previous := first
  goalsEmitted := first.goalNodes.length
  edges := (first.goalNodes.getLast?.map Edge.goal).toList

def isTransition (previous snapshot : StatusSnapshot F) : Bool :=
  snapshot.state ≠ previous.state || snapshot.escalationLevel ≠ previous.escalationLevel ||
    snapshot.goalNodes.length ≠ previous.goalNodes.length

/-- The edge of the event for a snapshot: the first goal without one comes before all else. -/
def edge (windowN : Nat) (s : Stream F) (snapshot : StatusSnapshot F) : Option (Edge F) :=
  match snapshot.goalNodes[s.goalsEmitted]? with
  | some goal => some (.goal goal)
  | none =>
    if snapshot.state = .budgetExhausted ∧ s.previous.state ≠ .budgetExhausted then
      some (.budget snapshot.failureReason)
    else if s.previous.escalationLevel < snapshot.escalationLevel then
      some (.escalation s.previous.escalationLevel snapshot.escalationLevel)
    else if 0 < windowN ∧ s.previous.expansionsSinceImprovement / windowN <
        snapshot.expansionsSinceImprovement / windowN then
      some (.stall snapshot.escalationLevel snapshot.bestScore windowN)
    else none

/-- One turn of the loop sends an event or does not. -/
def sends (s : Stream F) (snapshot : StatusSnapshot F) (heartbeatDue : Bool) : Bool :=
  isTransition s.previous snapshot || heartbeatDue

def turn (windowN : Nat) (s : Stream F) (snapshot : StatusSnapshot F) (heartbeatDue : Bool) :
    Stream F :=
  if s.sends snapshot heartbeatDue then
    { previous := snapshot
      goalsEmitted :=
        if s.goalsEmitted < snapshot.goalNodes.length then s.goalsEmitted + 1
        else s.goalsEmitted
      edges := s.edges ++ (s.edge windowN snapshot).toList }
  else s

/-- The loop over what it sees: the latest snapshot at each turn, and whether a heartbeat is
due. -/
def run (windowN : Nat) (s : Stream F) (seen : List (StatusSnapshot F × Bool)) : Stream F :=
  seen.foldl (fun s look => s.turn windowN look.1 look.2) s

/-- For each event, how many goals its snapshot shows. -/
def shown (windowN : Nat) (s : Stream F) : List (StatusSnapshot F × Bool) → List Nat
  | [] => []
  | (snapshot, due) :: rest =>
    if s.sends snapshot due then
      snapshot.goalNodes.length :: shown windowN (s.turn windowN snapshot due) rest
    else shown windowN (s.turn windowN snapshot due) rest

end Stream

/-! ### Coalescing -/

/-- One turn: which of the published snapshots is the latest, and whether a heartbeat is due. -/
structure Look where
  index : Nat
  heartbeatDue : Bool
deriving DecidableEq, Repr

/-- The turns of a stream over `n` published snapshots of which it has looked at `seen`. A turn
may skip snapshots and may find nothing new; the last one, after which the stream ends, comes
when the runner has gone and its last snapshot was looked at. -/
def Coalesces (n seen : Nat) : List Look → Prop
  | [] => False
  | [last] => last.index = seen ∧ seen + 1 = n
  | look :: rest => seen ≤ look.index ∧ look.index < n ∧ Coalesces n look.index rest

/-- What the turns see. -/
def looksAt (published : List (StatusSnapshot F)) (looks : List Look) :
    List (StatusSnapshot F × Bool) :=
  looks.filterMap fun look => published[look.index]?.map fun snapshot =>
    (snapshot, look.heartbeatDue)

/-! ### What the runner publishes -/

section

variable {sent : List (StatusSnapshot F)} {goals goals' : List NodeId}

theorem published_initial : Published [StatusSnapshot.initial (F := F)] [] :=
  ⟨List.pairwise_singleton _ _, fun _ hs => List.mem_singleton.mp hs ▸ List.prefix_rfl⟩

theorem Published.extend (h : Published sent goals) (hp : goals <+: goals') :
    Published sent goals' :=
  ⟨h.grows, fun status hs => (h.shown status hs).trans hp⟩

variable [Float64 F] {exp : Experiment F} {p p' : Point F} {r r' : Runner F}

/-- Where nothing is listed yet. -/
def Point.unlisted : Point F → Bool
  | .start | .fresh | .bootstrapped _ | .rootReady _ _ | .found _ _ | .resuming _
  | .collecting _ _ _ _ | .loaded _ _ => true
  | _ => false

/-- What a runner has published shows its goals, which are listed once each. -/
structure Shows (p : Point F) (r : Runner F) : Prop where
  published : r.Published
  nodup : r.goalNodes.Nodup
  unlisted : p.unlisted = true → r.goalNodes = []

theorem Shows.onError (h : Shows p r) : Shows p.onError r := by
  refine ⟨h.published, h.nodup, fun hp => ?_⟩
  cases p with
  | «at» c | completed c _ | began c | archived c _ | truncating c _ _ => cases c <;> cases hp
  | _ => cases hp

theorem goalNodes_prefix_addGoal (goal : Option NodeId) (r : Runner F) :
    r.goalNodes <+: (addGoal goal r).goalNodes := by
  cases goal with
  | none => exact List.prefix_rfl
  | some node =>
    rw [goalNodes_addGoal, mergeGoal]
    split
    · exact List.prefix_rfl
    · exact List.prefix_append _ _

theorem statusTx_addGoal (goal : Option NodeId) (r : Runner F) :
    (addGoal goal r).statusTx = r.statusTx := by
  unfold addGoal
  split
  · rfl
  · split <;> rfl

theorem Local.shows (hl : Local exp p r p' r') (h : Shows p r) : Shows p' r' := by
  cases hl with
  | touch hsame =>
    exact ⟨hsame.published h.published, hsame.goalNodes ▸ h.nodup, hsame.goalNodes ▸ h.unlisted⟩
  | fail => exact h.onError
  | adoptGeneration | collect | loaded => exact ⟨h.published, h.nodup, fun _ => h.unlisted rfl⟩
  | @settle c d goal =>
    refine ⟨?_, nodup_addGoal h.nodup goal, fun hp => by cases hp⟩
    change Published (addGoal goal r).statusTx (addGoal goal r).goalNodes
    rw [statusTx_addGoal]
    exact h.published.extend (goalNodes_prefix_addGoal goal r)
  | @truncated c => exact ⟨h.published, h.nodup, fun hp => by cases c <;> cases hp⟩
  | _ => exact ⟨h.published, h.nodup, fun hp => by cases hp⟩

theorem Next.shows {op : Op F} {a : Ans F op} (hn : Next exp p r op a p' r') (h : Shows p r) :
    Shows p' r' := by
  cases hn with
  | quiet => exact h
  | failed => exact h.onError
  | noCheckpoint | foundCheckpoint | bootstrap | rootScored | stale | collected | missed =>
    exact ⟨h.published, h.nodup, fun _ => h.unlisted rfl⟩
  | @adopt cp intents r rows tree a ht ha =>
    have hempty := h.unlisted rfl
    refine ⟨?_, ?_, fun hp => by cases hp⟩
    · exact (hempty ▸ h.published : Published r.statusTx []).extend List.nil_prefix
    · refine ((List.perm_insertionSort _ _).nodup_iff).mpr (nodup_foldl_mergeGoal ?_)
      exact ((List.perm_insertionSort _ _).nodup_iff).mpr ((adoptRows_goals ha).2 h.nodup)
  | _ => exact ⟨h.published, h.nodup, fun hp => by cases hp⟩

/-- **The goals of the published statuses only grow**, whatever the environment answers. -/
theorem Reach.shows {W : Type} {A : Answers (Op F) (Ans F) W} {Initial : Starts W} {w : W}
    (h : Reach exp A Initial p r w) : Shows p r := by
  have hinitial : Shows .start (Runner.initial exp) :=
    ⟨published_initial, .nil, fun _ => rfl⟩
  induction h with
  | init => exact hinitial
  | restart => exact hinitial
  | loc _ hl ih => exact hl.shows ih
  | call _ hn _ ih => exact hn.shows ih

end

/-! ### News -/

/-- What tells the status of one look from that of another. -/
def StatusSnapshot.headline (status : StatusSnapshot F) : ExperimentState × Nat × Nat :=
  (status.state, status.escalationLevel, status.goalNodes.length)

/-- How many looks find another state, level or number of goals than the look before, or a
heartbeat due. -/
def news (before : StatusSnapshot F) : List (StatusSnapshot F × Bool) → Nat
  | [] => 0
  | (status, due) :: rest =>
    (if status.headline ≠ before.headline ∨ due = true then 1 else 0) + news status rest

/-- After the first snapshot and after each look there are as many news and heartbeats as goals
still to come. -/
def InTime (total : Nat) (before : StatusSnapshot F) : List (StatusSnapshot F × Bool) → Prop
  | [] => total ≤ before.goalNodes.length
  | look :: rest =>
    total ≤ before.goalNodes.length + news before (look :: rest) ∧ InTime total look.1 rest

instance instDecidableInTime (total : Nat) :
    ∀ (before : StatusSnapshot F) looks, Decidable (InTime total before looks)
  | _, [] => inferInstanceAs (Decidable (_ ≤ _))
  | _, look :: rest =>
    have := instDecidableInTime total look.1 rest
    inferInstanceAs (Decidable (_ ∧ _))

variable {total : Nat} {looks : List Look}

theorem InTime.le {before : StatusSnapshot F} {looks : List (StatusSnapshot F × Bool)}
    (h : InTime total before looks) : total ≤ before.goalNodes.length + news before looks := by
  cases looks with
  | nil => exact h
  | cons look rest => exact h.1

/-! ### How many goals get an edge -/

/-- Each event gives one more goal its edge, of those it shows. -/
def paced : Nat → List Nat → Nat
  | emitted, [] => emitted
  | emitted, shown :: rest => paced (min (emitted + 1) shown) rest

/-- After the first snapshot and after each event there are as many further events as goals
still to come. -/
def KeepsPace (total : Nat) : Nat → List Nat → Prop
  | known, [] => total ≤ known
  | known, shown :: rest => total ≤ known + (rest.length + 1) ∧ KeepsPace total shown rest

theorem keepsPace_min {a b : Nat} (shown : List Nat) :
    KeepsPace total (min a b) shown ↔ KeepsPace total a shown ∧ KeepsPace total b shown := by
  cases shown with
  | nil => exact Nat.le_min
  | cons n rest =>
    simp only [KeepsPace]
    constructor
    · rintro ⟨hle, hrest⟩
      exact ⟨⟨by omega, hrest⟩, ⟨by omega, hrest⟩⟩
    · rintro ⟨⟨ha, hrest⟩, hb, -⟩
      exact ⟨by omega, hrest⟩

theorem le_paced_iff {emitted : Nat} {shown : List Nat} :
    total ≤ paced emitted shown ↔ KeepsPace total emitted shown := by
  induction shown generalizing emitted with
  | nil => exact Iff.rfl
  | cons n rest ih =>
    rw [paced, ih, keepsPace_min, KeepsPace]
    cases rest with
    | nil => exact Iff.rfl
    | cons m rest =>
      simp only [KeepsPace, List.length_cons]
      constructor
      · rintro ⟨⟨hle, -⟩, hn⟩
        exact ⟨by omega, hn⟩
      · rintro ⟨hle, hn⟩
        exact ⟨⟨by omega, hn.2⟩, hn⟩

namespace Stream

variable {windowN : Nat} {goals : List NodeId} {seen : List (StatusSnapshot F × Bool)}

/-- The stream has given `before` an edge at its start, and since then the goals from `first`
on that it counted. -/
structure Sound (goals before : List NodeId) (first : Nat) (s : Stream F) : Prop where
  known : first ≤ s.goalsEmitted
  emitted : s.goalsEmitted ≤ goals.length
  edges : s.edges.filterMap Edge.goal? =
    before ++ (goals.drop first).take (s.goalsEmitted - first)

variable {s : Stream F} {snapshot : StatusSnapshot F}

/-- The goal edge for a snapshot whose goals are the first of `goals`. -/
theorem edge_goal (hp : snapshot.goalNodes <+: goals) :
    (s.edge windowN snapshot).toList.filterMap Edge.goal? =
      if s.goalsEmitted < snapshot.goalNodes.length then goals[s.goalsEmitted]?.toList else [] := by
  unfold edge
  split
  case h_1 goal hgoal =>
    obtain ⟨hlt, hget⟩ := List.getElem?_eq_some_iff.mp hgoal
    rw [if_pos hlt, List.prefix_iff_getElem?.mp hp _ hlt, hget]
    rfl
  case h_2 hnone =>
    rw [if_neg (Nat.not_lt.mpr (List.getElem?_eq_none_iff.mp hnone))]
    split
    · rfl
    · split
      · rfl
      · split <;> rfl

theorem Sound.turn {before : List NodeId} {first : Nat} (h : Sound goals before first s)
    (hp : snapshot.goalNodes <+: goals) (due : Bool) :
    Sound goals before first (s.turn windowN snapshot due) := by
  unfold Stream.turn
  split
  · by_cases hlt : s.goalsEmitted < snapshot.goalNodes.length
    · have hall := Nat.lt_of_lt_of_le hlt hp.length_le
      have hknown := h.known
      refine ⟨?_, ?_, ?_⟩
      · simp only [if_pos hlt]
        omega
      · simp only [if_pos hlt]
        omega
      · -- The next goal of the list gets the edge.
        have hnext : (goals.drop first)[s.goalsEmitted - first]? = goals[s.goalsEmitted]? := by
          rw [List.getElem?_drop, Nat.add_sub_cancel' hknown]
        simp only [List.filterMap_append, edge_goal hp, if_pos hlt, h.edges]
        rw [Nat.succ_sub hknown, List.take_add_one, hnext, List.append_assoc]
    · refine ⟨?_, ?_, ?_⟩
      · simpa only [if_neg hlt] using h.known
      · simpa only [if_neg hlt] using h.emitted
      · simp only [List.filterMap_append, edge_goal hp, if_neg hlt, h.edges, List.append_nil]
  · exact h

variable (windowN) in
theorem Sound.run {before : List NodeId} {first : Nat} {s : Stream F}
    (h : Sound goals before first s) (hp : ∀ look ∈ seen, look.1.goalNodes <+: goals) :
    Sound goals before first (s.run windowN seen) := by
  induction seen generalizing s with
  | nil => exact h
  | cons look seen ih =>
    exact ih (h.turn (hp look (by simp)) look.2) fun l hl => hp l (by simp [hl])

variable (windowN) in
/-- How many goals have an edge after any looks. -/
theorem run_emitted {s : Stream F} :
    (∀ look ∈ seen, s.goalsEmitted ≤ look.1.goalNodes.length) →
    seen.Pairwise (fun a b => a.1.goalNodes.length ≤ b.1.goalNodes.length) →
    (s.run windowN seen).goalsEmitted = paced s.goalsEmitted (s.shown windowN seen) := by
  induction seen generalizing s with
  | nil => exact fun _ _ => rfl
  | cons look seen ih =>
    intro hle hmono
    obtain ⟨hlook, hmono⟩ := List.pairwise_cons.mp hmono
    have hs := hle look (by simp)
    have hturn : (s.turn windowN look.1 look.2).goalsEmitted ≤ look.1.goalNodes.length ∧
        (s.sends look.1 look.2 = true → (s.turn windowN look.1 look.2).goalsEmitted =
          min (s.goalsEmitted + 1) look.1.goalNodes.length) ∧
        (s.sends look.1 look.2 = false →
          (s.turn windowN look.1 look.2).goalsEmitted = s.goalsEmitted) := by
      unfold Stream.turn
      cases hsends : s.sends look.1 look.2 with
      | true =>
        simp only [if_true]
        refine ⟨?_, fun _ => ?_, nofun⟩
        · split <;> omega
        · split <;> omega
      | false => exact ⟨hs, nofun, fun _ => rfl⟩
    have hrest := ih (s := s.turn windowN look.1 look.2)
      (fun l hl => Nat.le_trans hturn.1 (hlook l hl)) hmono
    change ((s.turn windowN look.1 look.2).run windowN seen).goalsEmitted = _
    rw [hrest, shown]
    cases hsends : s.sends look.1 look.2 with
    | true =>
      rw [hturn.2.1 hsends]
      rfl
    | false =>
      rw [hturn.2.2 hsends]
      rfl

/-- The stream compares with what it sent last, which differs from the look before in nothing it
compares. -/
theorem sends_iff {before : StatusSnapshot F} {due : Bool}
    (hb : s.previous.headline = before.headline) :
    s.sends snapshot due = true ↔ snapshot.headline ≠ before.headline ∨ due = true := by
  rw [← hb]
  simp only [sends, isTransition, StatusSnapshot.headline, Bool.or_eq_true, decide_eq_true_eq,
    ne_eq, Prod.mk.injEq, not_and_or, or_assoc]

/-- The stream sends as many events as there are news, and keeps pace with them. -/
theorem shown_news {before : StatusSnapshot F} {total : Nat}
    (hb : s.previous.headline = before.headline) :
    (s.shown windowN seen).length = news before seen ∧
      (KeepsPace total before.goalNodes.length (s.shown windowN seen) ↔
        InTime total before seen) := by
  induction seen generalizing s before with
  | nil => exact ⟨rfl, Iff.rfl⟩
  | cons look seen ih =>
    obtain ⟨snapshot, due⟩ := look
    by_cases hsends : s.sends snapshot due = true
    · have hnext : (s.turn windowN snapshot due).previous.headline = snapshot.headline := by
        rw [Stream.turn, if_pos hsends]
      obtain ⟨hlen, hpace⟩ := ih hnext
      rw [shown, if_pos hsends, InTime, news, if_pos ((sends_iff hb).mp hsends), KeepsPace, hpace]
      refine ⟨by rw [List.length_cons, hlen, Nat.add_comm], ?_⟩
      rw [hlen, Nat.add_comm 1]
    · -- nothing new: the look shows as many goals as the one before
      have hsame := fun h => hsends ((sends_iff hb).mpr h)
      have hline : snapshot.headline = before.headline := by_contra fun hne => hsame (.inl hne)
      have hgoals : snapshot.goalNodes.length = before.goalNodes.length :=
        congrArg (fun line => line.2.2) hline
      have hnext : (s.turn windowN snapshot due).previous.headline = snapshot.headline := by
        rw [Stream.turn, if_neg hsends, hb, hline]
      obtain ⟨hlen, hpace⟩ := ih hnext
      rw [shown, if_neg hsends, InTime, news, if_neg hsame, Nat.zero_add, ← hgoals, hpace]
      exact ⟨hlen, fun h => ⟨h.le, h⟩, fun h => h.2⟩

theorem sound_start {first : StatusSnapshot F} (hp : first.goalNodes <+: goals) :
    Sound goals first.goalNodes.getLast?.toList first.goalNodes.length (start first) := by
  refine ⟨Nat.le_refl _, hp.length_le, ?_⟩
  cases h : first.goalNodes.getLast? with
  | none => simp [start, h]
  | some goal => simp [start, h, Edge.goal?]

end Stream

/-! ### Every goal -/

theorem Coalesces.indices {n seen : Nat} (h : Coalesces n seen looks) :
    (∀ look ∈ looks, seen ≤ look.index) ∧
      looks.Pairwise fun a b => a.index ≤ b.index := by
  induction looks generalizing seen with
  | nil => exact h.elim
  | cons look rest ih =>
    cases rest with
    | nil => simp [h.1]
    | cons next rest =>
      obtain ⟨hle, -, hrest⟩ := h
      obtain ⟨hall, hpair⟩ := ih hrest
      refine ⟨?_, List.pairwise_cons.mpr ⟨hall, hpair⟩⟩
      intro l hl
      rcases List.mem_cons.mp hl with rfl | hl
      · exact hle
      · exact Nat.le_trans hle (hall l hl)

variable {published : List (StatusSnapshot F)}

/-- Later snapshots show the goals of earlier ones first. -/
theorem goals_grow (hgrow : published.Pairwise fun a b => a.goalNodes <+: b.goalNodes)
    {i j : Nat} {a b : StatusSnapshot F} (hij : i ≤ j) (ha : published[i]? = some a)
    (hb : published[j]? = some b) : a.goalNodes <+: b.goalNodes := by
  obtain ⟨hi, rfl⟩ := List.getElem?_eq_some_iff.mp ha
  obtain ⟨hj, rfl⟩ := List.getElem?_eq_some_iff.mp hb
  rcases Nat.lt_or_eq_of_le hij with hlt | rfl
  · exact List.pairwise_iff_getElem.mp hgrow i j hi hj hlt
  · exact List.prefix_rfl

theorem mem_looksAt {o : StatusSnapshot F × Bool} (h : o ∈ looksAt published looks) :
    ∃ look ∈ looks, published[look.index]? = some o.1 := by
  obtain ⟨look, hlook, hsome⟩ := List.mem_filterMap.mp h
  obtain ⟨snapshot, hsnapshot, rfl⟩ := Option.map_eq_some_iff.mp hsome
  exact ⟨look, hlook, hsnapshot⟩

/-- Of a list without repetition, the elements from `k` on occur once each in a list of the
first `n` of them exactly when these are all. -/
theorem count_take_iff {goals before : List NodeId} (hgoals : goals.Nodup) {k n : Nat}
    (hbefore : ∀ g ∈ before, g ∈ goals.take k) :
    (∀ g ∈ goals.drop k, (before ++ (goals.drop k).take n).count g = 1) ↔
      goals.length - k ≤ n := by
  have hdrop : (goals.drop k).Nodup := hgoals.sublist (List.drop_sublist k goals)
  have hdisjoint : ∀ g ∈ goals.drop k, before.count g = 0 := by
    intro g hg
    rw [List.count_eq_zero]
    intro hmem
    have hsplit := List.take_append_drop k goals ▸ hgoals
    exact (List.nodup_append.mp hsplit).2.2 g (hbefore g hmem) g hg rfl
  constructor
  · intro hall
    by_contra hlt
    have hn : n < (goals.drop k).length := by
      rw [List.length_drop]
      omega
    -- The goal after the last one counted occurs nowhere.
    have hcount := hall (goals.drop k)[n] (List.getElem_mem hn)
    rw [List.count_append, hdisjoint _ (List.getElem_mem hn), Nat.zero_add] at hcount
    have hmem : (goals.drop k)[n] ∈ (goals.drop k).take n :=
      List.count_pos_iff.mp (by omega)
    obtain ⟨i, hi, heq⟩ := List.mem_iff_getElem.mp hmem
    rw [List.getElem_take] at heq
    have := (hdrop.getElem_inj_iff).mp heq
    rw [List.length_take] at hi
    omega
  · intro hle g hg
    rw [List.count_append, hdisjoint g hg, Nat.zero_add,
      List.take_of_length_le (by rw [List.length_drop]; exact hle)]
    exact List.count_eq_one_of_mem hdrop hg

/-- For any published snapshots whose goals only grow. -/
theorem goal_edges_iff (windowN : Nat)
    (hgrow : published.Pairwise fun a b => a.goalNodes <+: b.goalNodes) {final : StatusSnapshot F}
    (hfinal : published.getLast? = some final) (hnodup : final.goalNodes.Nodup) {seen : Nat}
    {first : StatusSnapshot F} (hfirst : published[seen]? = some first)
    (hlooks : Coalesces published.length seen looks) :
    (∀ goal ∈ final.goalNodes.drop first.goalNodes.length,
      (((Stream.start first).run windowN (looksAt published looks)).edges.filterMap
        Edge.goal?).count goal = 1) ↔
    InTime final.goalNodes.length first (looksAt published looks) := by
  have hlast : published[published.length - 1]? = some final := by
    rw [← List.getLast?_eq_getElem?]
    exact hfinal
  have hall : ∀ (i : Nat) (a : StatusSnapshot F), published[i]? = some a →
      a.goalNodes <+: final.goalNodes := by
    intro i a ha
    have := (List.getElem?_eq_some_iff.mp ha).1
    exact goals_grow hgrow (by omega) ha hlast
  obtain ⟨hindex, hpair⟩ := hlooks.indices
  have hseen : ∀ o ∈ looksAt published looks, o.1.goalNodes <+: final.goalNodes := by
    intro o ho
    obtain ⟨look, -, hlook⟩ := mem_looksAt ho
    exact hall _ _ hlook
  have hlow : ∀ o ∈ looksAt published looks, first.goalNodes.length ≤ o.1.goalNodes.length := by
    intro o ho
    obtain ⟨look, hmem, hlook⟩ := mem_looksAt ho
    exact (goals_grow hgrow (hindex look hmem) hfirst hlook).length_le
  have hmono : (looksAt published looks).Pairwise
      fun a b => a.1.goalNodes.length ≤ b.1.goalNodes.length := by
    refine List.Pairwise.filterMap _ ?_ hpair
    intro look look' hle o ho o' ho'
    obtain ⟨a, ha, rfl⟩ := Option.map_eq_some_iff.mp ho
    obtain ⟨b, hb, rfl⟩ := Option.map_eq_some_iff.mp ho'
    exact (goals_grow hgrow hle ha hb).length_le
  have hsound := (Stream.sound_start (hall _ _ hfirst)).run windowN hseen
  have hemitted : ((Stream.start first).run windowN (looksAt published looks)).goalsEmitted =
      paced first.goalNodes.length _ := Stream.run_emitted windowN hlow hmono
  have hbefore : ∀ g ∈ first.goalNodes.getLast?.toList,
      g ∈ final.goalNodes.take first.goalNodes.length := by
    intro g hg
    rw [List.prefix_iff_eq_take.mp (hall _ _ hfirst)] at hg
    exact List.mem_of_getLast? (Option.mem_toList.mp hg)
  have hknown := hsound.known
  have hstart : (Stream.start first).previous.headline = first.headline := rfl
  have hnews : KeepsPace final.goalNodes.length first.goalNodes.length
      ((Stream.start first).shown windowN (looksAt published looks)) ↔
        InTime final.goalNodes.length first (looksAt published looks) :=
    (Stream.shown_news hstart).2
  rw [← hnews, hsound.edges, count_take_iff hnodup hbefore, ← le_paced_iff, ← hemitted]
  omega

/-- **Every goal gets its own edge exactly when the stream looks in time**: for every run of a
process to its end, from any world and with any answers, and all ways the channel coalesces what
it publishes, each goal listed after the stream's first snapshot gets one edge before the stream
ends if and only if after that snapshot and after each look there are as many looks with news or
a heartbeat as goals still to come. -/
theorem every_goal_iff [Float64 F] (exp : Experiment F) {fuel : Nat} {w w' : World F}
    {r : Runner F}
    (hrun : Prog.Undisturbed (env exp) (process exp fuel (.initial exp)) w (.ret (.ok (), r)) w')
    (windowN seen : Nat) (first : StatusSnapshot F) (hfirst : r.statusTx[seen]? = some first)
    (looks : List Look) (hlooks : Coalesces r.statusTx.length seen looks) :
    (∀ goal ∈ r.goalNodes.drop first.goalNodes.length,
      (((Stream.start first).run windowN (looksAt r.statusTx looks)).edges.filterMap
        Edge.goal?).count goal = 1) ↔
    InTime r.goalNodes.length first (looksAt r.statusTx looks) := by
  have hreturn : (∃ p, Reach exp (env exp) ⟨(· = w), False⟩ p r w') ∧ _ :=
    reach_of_return rfl hrun
  obtain ⟨⟨p, hreach⟩, hlast⟩ := hreturn
  exact goal_edges_iff windowN hreach.shows.published.grows hlast hreach.shows.nodup hfirst hlooks

/-! ### Two goals in flight -/

/-- Two batches in flight, both with a goal; a goal ends the run. -/
def twoGoals : Experiment Int := { striking with mode := .fast, maxInflightBatches := 2 }

/-- A run to its end. The first batch commits its goal; the second one is drained, which
publishes nothing until the run ends. -/
def drainedRun : Option ((Except ClientError Unit × Runner Int) × World Int) :=
  (process twoGoals 90 (.initial twoGoals)).returns (respond twoGoals)
    (List.replicate 90 .answer) .empty

/-- What a stream starts with, whether its looks are in time, and its goal edges. -/
structure Opened where
  first : List NodeId
  inTime : Bool
  goals : List NodeId
deriving DecidableEq

/-- A stream opened at the second status. -/
def opened (r : Runner Int) (looks : List Look) : Option Opened :=
  r.statusTx[1]?.map fun first =>
    ⟨first.goalNodes, decide (InTime r.goalNodes.length first (looksAt r.statusTx looks)),
      ((Stream.start first).run 200 (looksAt r.statusTx looks)).edges.filterMap Edge.goal?⟩

theorem drained_run : ∃ (r : Runner Int) (w : World Int),
    Prog.Undisturbed (env twoGoals) (process twoGoals 90 (.initial twoGoals)) .empty
      (.ret (.ok (), r)) w ∧
    r.goalNodes = [1, 2] ∧ r.statusTx.length = 4 ∧
    opened r [⟨3, false⟩, ⟨3, false⟩] = some ⟨[], false, [1]⟩ ∧
    opened r [⟨2, false⟩, ⟨3, false⟩, ⟨3, false⟩] = some ⟨[], true, [1, 2]⟩ := by
  have hrun : drainedRun.map (fun out => (out.1.1.isOk, out.1.2.goalNodes,
      out.1.2.statusTx.length, opened out.1.2 [⟨3, false⟩, ⟨3, false⟩],
      opened out.1.2 [⟨2, false⟩, ⟨3, false⟩, ⟨3, false⟩])) =
      some (true, [1, 2], 4, some ⟨[], false, [1]⟩, some ⟨[], true, [1, 2]⟩) := by
    decide +kernel
  obtain ⟨⟨⟨outcome, r⟩, w⟩, hout, heq⟩ := Option.map_eq_some_iff.mp hrun
  simp only [Prod.mk.injEq] at heq
  obtain ⟨hok, hgoals, hlen, hlate, htimely⟩ := heq
  cases outcome with
  | error => cases hok
  | ok =>
    exact ⟨r, w, Prog.undisturbed_returns _ .start hout, hgoals, hlen, hlate, htimely⟩

/-- A goal that is committed while the last batches are drained gets no edge: both goals are in
the last status, and the stream ends after its one event. -/
theorem drained_goal_lost : ∃ (r : Runner Int) (w : World Int) (first : StatusSnapshot Int)
      (looks : List Look),
    Prog.Undisturbed (env twoGoals) (process twoGoals 90 (.initial twoGoals)) .empty
      (.ret (.ok (), r)) w ∧
    r.statusTx[1]? = some first ∧ Coalesces r.statusTx.length 1 looks ∧
    first.goalNodes = [] ∧ r.goalNodes = [1, 2] ∧
    ((Stream.start first).run 200 (looksAt r.statusTx looks)).edges.filterMap Edge.goal? = [1] := by
  obtain ⟨r, w, hrun, hgoals, hlen, hlate, -⟩ := drained_run
  obtain ⟨first, hfirst, heq⟩ := Option.map_eq_some_iff.mp hlate
  simp only [Opened.mk.injEq] at heq
  refine ⟨r, w, first, _, hrun, hfirst, ?_, heq.1, hgoals, heq.2.2⟩
  rw [hlen]
  exact ⟨by decide, by decide, rfl, rfl⟩

/-- A stream that looks at every status of the same run in time. -/
theorem every_goal_iff_drainedRun : ∃ (r : Runner Int) (first : StatusSnapshot Int)
      (looks : List Look),
    r.statusTx[1]? = some first ∧ Coalesces r.statusTx.length 1 looks ∧
    InTime r.goalNodes.length first (looksAt r.statusTx looks) ∧
    r.goalNodes.drop first.goalNodes.length = [1, 2] ∧
    ∀ goal ∈ [1, 2], (((Stream.start first).run 200 (looksAt r.statusTx looks)).edges.filterMap
      Edge.goal?).count goal = 1 := by
  obtain ⟨r, w, hrun, hgoals, hlen, -, htimely⟩ := drained_run
  obtain ⟨first, hfirst, heq⟩ := Option.map_eq_some_iff.mp htimely
  simp only [Opened.mk.injEq, decide_eq_true_eq] at heq
  obtain ⟨hnone, hin, -⟩ := heq
  have hlooks : Coalesces r.statusTx.length 1 [⟨2, false⟩, ⟨3, false⟩, ⟨3, false⟩] := by
    rw [hlen]
    exact ⟨by decide, by decide, by decide, by decide, rfl, rfl⟩
  have hdrop : r.goalNodes.drop first.goalNodes.length = [1, 2] := by rw [hnone, hgoals]; rfl
  refine ⟨r, first, _, hfirst, hlooks, hin, hdrop, ?_⟩
  rw [← hdrop]
  exact (every_goal_iff twoGoals hrun 200 1 first hfirst _ hlooks).mpr hin

end Orchestrator.Server
