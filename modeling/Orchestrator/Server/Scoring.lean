import Orchestrator.Server.Siblings
import Orchestrator.Server.StoreInvariant

/-! # Server — Scoring

What both commits make of the scorer's answer. They pair the captured jobs of a batch with the
results by position: a short answer leaves jobs without a result, the `node_ref` of a result is
not read, and neither is its item error, whose placeholder hash, cell and score are judged like
those of any other state.

* `ReplayTurns`, `ensures_replayItems`: the dispositions a replay gives, one for each pair.
* `replay_foreseen`: they are decided by the hashes, cells and rows known before it, and decide
  the nodes and hashes it adds.
* `failed_scores_iff`: when both commits keep failed scores out.
* `failed_score_committed`: a state the scorer could not decode becomes a node.
-/

namespace Orchestrator.Server

open Lib Orchestrator.Core Services

variable {F : Type} [Float64 F]

/-- One result of a ScoreBatch response, with the reference it is for. -/
structure ScoreEntry (F : Type) [Float64 F] where
  nodeRef : String
  result : ScoreResult F

/-- The reference the state of a job is scored under. -/
def nodeRef (clientBatchId : String) (job : JobResult) : String :=
  clientBatchId ++ "-j" ++ toString job.jobIdx

/-- The captured jobs with their results, as both commits pair them. -/
def paired (jobs : List (JobResult × Capture)) (response : List (ScoreEntry F)) :
    List (Item F) :=
  items jobs (response.map (·.result))

/-- The results come in the order of the jobs, and no job is without one. -/
def InOrder (clientBatchId : String) (jobs : List (JobResult × Capture))
    (response : List (ScoreEntry F)) : Prop :=
  ∀ (i : Nat) (job : JobResult × Capture), jobs[i]? = some job →
    ∃ entry, response[i]? = some entry ∧ entry.nodeRef = nodeRef clientBatchId job.1

variable {clientBatchId : String} {jobs : List (JobResult × Capture)}
  {response : List (ScoreEntry F)} {taken : List Bool} {its : List (Item F)} {it : Item F}
  {s s₁ s' : CommitState F} {parent : NodeId} {score : F} {rules : CommitRules F}

variable {i : Nat} {mirror : CellMirror} {outcome : BatchCommitOutcome}

theorem getElem?_paired : (paired jobs response)[i]? = some it ↔
    ∃ job entry, jobs[i]? = some job ∧ response[i]? = some entry ∧
      it = ⟨job.1, job.2, entry.result⟩ := by
  simp only [paired, items, List.getElem?_zipWith, List.getElem?_map]
  cases jobs[i]? <;> cases response[i]? <;> simp [eq_comm]

/-- A node or a row with this hash and score is that of a state that was scored. -/
def Scored (response : List (ScoreEntry F)) (hash : StateHash) (score : Score F) : Prop :=
  ∃ entry ∈ response, entry.result.error = none ∧ entry.result.stateHash = hash ∧
    entry.result.progressScore = score

/-- What the commit of a batch should come to. Every captured job has one disposition and the
result for its own reference, no child with a failed score is committed, and every hash that is
new in the seen map, every new node and every new row of a store that holds the tree is that of a
state that was scored. -/
structure Settled (clientBatchId : String) (jobs : List (JobResult × Capture))
    (response : List (ScoreEntry F)) (committed : List Bool) (s s' : CommitState F) : Prop where
  every : committed.length = jobs.length
  own : (jobs.zip response).map (·.2.nodeRef) = jobs.map (nodeRef clientBatchId ·.1)
  scored : ∀ (i : Nat) (entry : ScoreEntry F), response[i]? = some entry →
    committed[i]? = some true → entry.result.error = none
  seen : ∀ hash, s'.seen.contains hash = true → s.seen.contains hash = true ∨
    ∃ entry ∈ response, entry.result.error = none ∧ entry.result.stateHash = hash
  nodes : ∀ image ∈ s'.tree.images, image ∈ s.tree.images ∨
    Scored response image.stateHash image.score
  rows : ∀ store : Store F, StoreRefines store s'.tree → ∀ (id : NodeId) (row : Row F),
    store.rows[id]? = some row → id < s.tree.len ∨
      Scored response row.attrs.stateHash row.progressScore

/-- Every job is paired with its own result exactly when the results are in order. -/
theorem own_iff : (jobs.zip response).map (·.2.nodeRef) = jobs.map (nodeRef clientBatchId ·.1) ↔
    InOrder clientBatchId jobs response := by
  unfold InOrder
  induction jobs generalizing response with
  | nil => simp
  | cons job rest ih =>
    cases response with
    | nil =>
      simp only [List.zip_nil_right, List.map_nil, List.map_cons, List.nil_eq, reduceCtorEq,
        false_iff, not_forall]
      exact ⟨0, job, rfl, by simp⟩
    | cons entry response =>
      rw [List.zip_cons_cons, List.map_cons, List.map_cons, List.cons.injEq, ih]
      constructor
      · rintro ⟨hfirst, hrest⟩ (_ | i) job' hi
        · cases hi
          exact ⟨entry, rfl, hfirst⟩
        · exact hrest i job' hi
      · intro h
        obtain ⟨_, hentry, hfirst⟩ := h 0 job rfl
        cases hentry
        exact ⟨hfirst, fun i job' hi => h (i + 1) job' hi⟩

/-! ### Where nodes and hashes come from -/

/-- The items that are given a node. -/
def inserted : List (Item F) → List Bool → List (Item F)
  | it :: its, taken :: rest => if taken then it :: inserted its rest else inserted its rest
  | _, _ => []

theorem mem_inserted : it ∈ inserted its taken ↔
    ∃ i : Nat, its[i]? = some it ∧ taken[i]? = some true := by
  induction its generalizing taken with
  | nil => simp [inserted]
  | cons first its ih =>
    cases taken with
    | nil => simp [inserted]
    | cons b taken =>
      have hsucc : (∃ i : Nat, (first :: its)[i]? = some it ∧ (b :: taken)[i]? = some true) ↔
          (first = it ∧ b = true) ∨ it ∈ inserted its taken := by
        rw [ih]
        constructor
        · rintro ⟨_ | i, hi, hb⟩
          · exact .inl ⟨Option.some.inj hi, Option.some.inj hb⟩
          · exact .inr ⟨i, hi, hb⟩
        · rintro (⟨rfl, rfl⟩ | ⟨i, hi, hb⟩)
          · exact ⟨0, rfl, rfl⟩
          · exact ⟨i + 1, hi, hb⟩
      rw [hsucc]
      cases b with
      | true => simp [inserted, eq_comm]
      | false => simp [inserted]

/-- The new hashes are those of the inserted items, and the new nodes are theirs, in order. -/
structure Derived (parent : NodeId) (its : List (Item F)) (taken : List Bool)
    (s s' : CommitState F) : Prop where
  length : taken.length = its.length
  seen : ∀ hash, s'.seen.contains hash = true ↔ s.seen.contains hash = true ∨
    ∃ it ∈ inserted its taken, it.result.stateHash = hash
  nodes : ∃ images, s'.tree.images = s.tree.images ++ images ∧
    List.Forall₂ (fun it image => ∃ depth, image = it.image parent depth) (inserted its taken)
      images

namespace Derived

theorem nil : Derived parent [] [] s s where
  length := rfl
  seen hash := by simp [inserted]
  nodes := ⟨[], (List.append_nil _).symm, .nil⟩

/-- One item: its hash and its node are new if it is inserted, and nothing else is. -/
theorem cons {b : Bool}
    (hseen : ∀ hash, s₁.seen.contains hash = true ↔ s.seen.contains hash = true ∨
      b = true ∧ hash = it.result.stateHash)
    (hnodes : b = false ∧ s₁.tree.images = s.tree.images ∨
      b = true ∧ ∃ depth, s₁.tree.images = s.tree.images ++ [it.image parent depth])
    (h : Derived parent its taken s₁ s') : Derived parent (it :: its) (b :: taken) s s' where
  length := congrArg Nat.succ h.length
  seen hash := by
    rw [h.seen, hseen]
    cases b <;> simp [inserted, or_assoc, eq_comm (a := hash)]
  nodes := by
    obtain ⟨images, himages, hall⟩ := h.nodes
    rcases hnodes with ⟨rfl, hsame⟩ | ⟨rfl, depth, hnew⟩
    · exact ⟨images, hsame ▸ himages, hall⟩
    · exact ⟨_, by rw [himages, hnew, List.append_assoc]; rfl, .cons ⟨depth, rfl⟩ hall⟩

/-- Where a node comes from. -/
theorem image {id : NodeId} {image : NodeImage F} (h : Derived parent its taken s s')
    (himage : s'.tree.images[id]? = some image) :
    id < s.tree.len ∧ image ∈ s.tree.images ∨
      ∃ it ∈ inserted its taken, ∃ depth, image = it.image parent depth := by
  obtain ⟨images, himages, hall⟩ := h.nodes
  rw [himages, List.getElem?_append, s.tree.length_images] at himage
  split at himage
  · rename_i hlt
    exact .inl ⟨hlt, List.mem_of_getElem? himage⟩
  · obtain ⟨hlen, hget⟩ := List.forall₂_iff_get.mp hall
    obtain ⟨hi, rfl⟩ := List.getElem?_eq_some_iff.mp himage
    exact .inr ⟨_, List.getElem_mem (hlen ▸ hi), hget _ _ hi⟩

/-- A pass over the pairs that decides by `C` keeps failed scores out exactly when the results
are in order and `C` turns down every failed one. -/
theorem settled_iff {C : Nat → Item F → Prop} {committed : List Bool}
    (h : Derived parent (paired jobs response) taken s s')
    (hlength : committed.length = taken.length)
    (htaken : ∀ i : Nat, taken[i]? = some true → committed[i]? = some true)
    (hC : ∀ (i : Nat) (it : Item F), (paired jobs response)[i]? = some it →
      (committed[i]? = some true ↔ C i it)) :
    Settled clientBatchId jobs response committed s s' ↔
      InOrder clientBatchId jobs response ∧
        ∀ (i : Nat) (it : Item F), (paired jobs response)[i]? = some it →
          it.result.error ≠ none → ¬ C i it := by
  constructor
  · intro hs
    refine ⟨own_iff.mp hs.own, fun i it hi herror hc => herror ?_⟩
    obtain ⟨job, entry, -, hentry, rfl⟩ := getElem?_paired.mp hi
    exact hs.scored i entry hentry ((hC i _ hi).mpr hc)
  · rintro ⟨hown, hnone⟩
    have hscored : ∀ it ∈ inserted (paired jobs response) taken,
        ∃ entry ∈ response, entry.result.error = none ∧ entry.result = it.result := by
      intro it hit
      obtain ⟨i, hi, hc⟩ := mem_inserted.mp hit
      obtain ⟨job, entry, -, hentry, rfl⟩ := getElem?_paired.mp hi
      refine ⟨entry, List.mem_of_getElem? hentry, ?_, rfl⟩
      by_contra herror
      exact hnone i _ hi herror ((hC i _ hi).mp (htaken i hc))
    have himage : ∀ (id : NodeId) (image : NodeImage F), s'.tree.images[id]? = some image →
        id < s.tree.len ∧ image ∈ s.tree.images ∨ Scored response image.stateHash image.score := by
      intro id image hid
      refine (h.image hid).imp_right fun ⟨it, hit, depth, heq⟩ => ?_
      obtain ⟨entry, hmem, herror, hresult⟩ := hscored it hit
      exact ⟨entry, hmem, herror, by rw [hresult, heq]; rfl, by rw [hresult, heq]; rfl⟩
    refine ⟨?_, own_iff.mpr hown, fun i entry hentry hc => ?_, fun hash hhash => ?_,
      fun image hmem => ?_, fun store hstore id row hrow => ?_⟩
    · have hzip := congrArg List.length (own_iff.mpr hown)
      rw [List.length_map, List.length_map, List.length_zip] at hzip
      rw [hlength, h.length, paired, items, List.length_zipWith, List.length_map, hzip]
    · have hlt : i < (paired jobs response).length :=
        h.length ▸ hlength ▸ (List.getElem?_eq_some_iff.mp hc).1
      have hi := List.getElem?_eq_getElem hlt
      obtain ⟨job, entry', -, hentry', hit⟩ := getElem?_paired.mp hi
      obtain rfl : entry = entry' := Option.some.inj (hentry.symm.trans hentry')
      by_contra herror
      exact hnone i _ hi (by rw [hit]; exact herror) ((hC i _ hi).mp hc)
    · refine ((h.seen hash).mp hhash).imp_right fun ⟨it, hit, hsame⟩ => ?_
      obtain ⟨entry, hmem, herror, hresult⟩ := hscored it hit
      exact ⟨entry, hmem, herror, by rw [hresult, hsame]⟩
    · obtain ⟨id, hid⟩ := List.mem_iff_getElem?.mp hmem
      exact (himage id image hid).imp_left And.right
    · obtain ⟨record, hrecord⟩ := Tree.get_of_lt_len
        ((hstore.nodes id).mp (Std.ExtTreeMap.mem_iff_isSome_getElem?.mpr (by rw [hrow]; rfl)))
      obtain ⟨-, hhash, -, hscore, -⟩ := hstore.node id row record hrow hrecord
      rw [hhash, hscore]
      have hid : s'.tree.images[id]? = some record.image := by
        rw [Tree.getElem?_images, hrecord]
        rfl
      exact (himage id _ hid).imp_left And.left

end Derived

/-! ### The live commit -/

theorem derived_of_steps {siblings : List StateHash} {commits : List ChildCommit}
    (h : ChildSteps parent score rules s (scoredChildren mirror siblings its) commits s') :
    Derived parent its (commits.map (·.nodeId.isSome)) s s' := by
  induction its generalizing siblings commits s with
  | nil =>
    cases h
    exact .nil
  | cons it rest ih =>
    cases h with
    | cons hstep hrest =>
      refine Derived.cons hstep.contains_seen ?_ (ih hrest)
      rcases hstep.grows.2 with ⟨hid, himages⟩ | ⟨hid, depth, himages⟩
      · exact .inl ⟨congrArg Option.isSome hid, himages⟩
      · exact .inr ⟨congrArg Option.isSome hid, depth, himages⟩

theorem derived_of_commitBatch
    (h : commitBatch parent (scoredChildren mirror [] its) rules s = .ok outcome s') :
    Derived parent its (outcome.childCommits.map (·.nodeId.isSome)) s s' := by
  obtain ⟨record, t, tree, -, hsteps, hv, -, hex⟩ := commitBatch_ok h
  obtain ⟨hlength, hseen, images, himages, hall⟩ := derived_of_steps hsteps
  exact ⟨hlength, fun hash => hex.seen ▸ hseen hash, images,
    (parent_grows hv hex).1.trans himages, hall⟩

/-- The live commit gives an item a node exactly when it commits. -/
theorem commits_of_commitBatch
    (h : commitBatch parent (scoredChildren s.cellMirror [] its) rules s = .ok outcome s')
    (hi : its[i]? = some it) :
    (outcome.childCommits.map (·.nodeId.isSome))[i]? = some true ↔
      Commits rules parent s (its.take i) it := by
  obtain ⟨record, t, tree, hrecord, hsteps, -, -, -⟩ := commitBatch_ok h
  have hscore : record.payload.score.get = parentScore s parent := by
    rw [parentScore, hrecord]
  rw [hscore] at hsteps
  obtain ⟨commit, u, u', dup, hcommit, hpassed, hdup, hstep, -⟩ :=
    Passed.nil.turn (by simp) hsteps hi
  rw [List.nil_append] at hpassed hdup
  rw [List.getElem?_map, hcommit, Option.map_some, Option.some.injEq]
  exact hpassed.isSome_nodeId_iff hdup hstep

/-! ### The replay -/

/-- What the replay decides about one item. -/
inductive Disposition where
  | adopted (id : NodeId)
  | acted (action : ReplayAction)
deriving DecidableEq, Repr

def Disposition.committed : Disposition → Bool
  | .adopted _ => true
  | .acted action => action.created.isSome

/-- Whether the item is given a node of its own. -/
def Disposition.inserts : Disposition → Bool
  | .adopted _ => false
  | .acted action => action.created.isSome

theorem Disposition.committed_of_inserts (d : Disposition) (h : d.inserts = true) :
    d.committed = true := by
  cases d with
  | adopted => rfl
  | acted => exact h

def Disposition.isDuplicate : Disposition → Bool
  | .acted (.duplicate _) => true
  | _ => false

/-- The runner's books after the effects of a replayed child. -/
def replayed (it : Item F) : ReplayAction → Runner F → Runner F
  | .pruneDropped, r => r
  | .pruned id, r | .kept id _, r => registerCommittedChild id it r
  | .duplicate _, r => { r with discardedDup := r.discardedDup + 1 }
  | .regression, r => { r with discardedRegression := r.discardedRegression + 1 }

/-- One turn of the loop of `commit_replayed` that comes to its end. -/
inductive ReplayTurn (exp : Experiment F) (parent : NodeId) (score : F) (it : Item F)
    (r : Runner F) : Disposition → Runner F → Prop where
  | adopted {id : NodeId} {record : NodeRecord F} (h : adoptable r parent it = some (id, record)) :
      ReplayTurn exp parent score it r (.adopted id) r
  | acted {action : ReplayAction} {s : CommitState F} (hnew : adoptable r parent it = none)
      (h : replayChild parent score exp.rules it r.commitState = .ok action s) :
      ReplayTurn exp parent score it r (.acted action)
        (replayed it action { r with commitState := s })

/-- The loop of `commit_replayed`, where it comes to its end. -/
inductive ReplayTurns (exp : Experiment F) (parent : NodeId) (score : F) :
    Runner F → List (Item F) → List Disposition → Runner F → Prop where
  | nil {r : Runner F} : ReplayTurns exp parent score r [] [] r
  | cons {r r₁ r' : Runner F} {it : Item F} {its : List (Item F)} {d : Disposition}
      {ds : List Disposition} (hturn : ReplayTurn exp parent score it r d r₁)
      (hrest : ReplayTurns exp parent score r₁ its ds r') :
      ReplayTurns exp parent score r (it :: its) (d :: ds) r'

/-- Whether the loop comes to its end with these dispositions. -/
def replays (exp : Experiment F) (parent : NodeId) (score : F) :
    Runner F → List (Item F) → List Disposition → Bool
  | _, [], [] => true
  | r, it :: its, .adopted id :: ds =>
    decide ((adoptable r parent it).map (·.1) = some id) && replays exp parent score r its ds
  | r, it :: its, .acted action :: ds =>
    (adoptable r parent it).isNone &&
      succeedsWith (replayChild parent score exp.rules it r.commitState) fun a s =>
        decide (a = action) &&
          replays exp parent score (replayed it action { r with commitState := s }) its ds
  | _, _, _ => false

theorem exists_of_replays {exp : Experiment F} {r : Runner F} {ds : List Disposition}
    (h : replays exp parent score r its ds = true) :
    ∃ r', ReplayTurns exp parent score r its ds r' := by
  induction its generalizing r ds with
  | nil =>
    cases ds with
    | nil => exact ⟨r, .nil⟩
    | cons => cases h
  | cons it its ih =>
    match ds with
    | .adopted id :: ds =>
      rw [replays, Bool.and_eq_true, decide_eq_true_iff, Option.map_eq_some_iff] at h
      obtain ⟨⟨⟨_, record⟩, hadopt, rfl⟩, hrest⟩ := h
      exact (ih hrest).imp fun _ => .cons (.adopted hadopt)
    | .acted action :: ds =>
      rw [replays, Bool.and_eq_true, Option.isNone_iff_eq_none] at h
      obtain ⟨a, s, hchild, hrest⟩ := exists_of_succeedsWith h.2
      rw [Bool.and_eq_true, decide_eq_true_iff] at hrest
      obtain ⟨rfl, hrest⟩ := hrest
      exact (ih hrest).imp fun _ => .cons (.acted h.1 hchild)
    | [] => cases h

section Program

open Proc

variable {exp : Experiment F} {W : Type} {A : Answers (Op F) (Ans F) W} {r : Runner F} {w : W}
  {α β : Type}

/-- The computation leaves the runner as it is. -/
def Leaves (A : Answers (Op F) (Ans F) W) (x : M F α) : Prop :=
  ∀ r w, Ensures A x (fun _ r' _ => r' = r) r w

theorem Leaves.then {x : M F α} {f : α → M F β} {Q : β → Runner F → W → Prop}
    (h : Leaves A x) (hf : ∀ a w', Ensures A (f a) Q r w') : Ensures A (x >>= f) Q r w :=
  wp_bind.mpr (wp_mono (h r w) (fun a _ w' he => he ▸ hf a w') fun _ _ _ _ => trivial)

variable {id : NodeId} {status : NodeStatus} {t : ReplayTally F}

end Program

/-- What the replay of a batch goes by: the node that holds a hash, the cells known, the node
each burst of the parent has led to, and for every node its hash if it is a child of the
parent. -/
@[ext] structure Foresight where
  held : StateHash → Option NodeId
  known : CellKey → Bool
  row : Nat → Option NodeId
  nodes : List (Option StateHash)

/-- The hash of a child of the parent. -/
def childHash (parent : NodeId) (image : NodeImage F) : Option StateHash :=
  if image.parent = some parent then some image.stateHash else none

def foresight (r : Runner F) (parent : NodeId) : Foresight where
  held hash := r.commitState.seen.get hash
  known cell := decide (0 < r.commitState.cellMirror.count cell)
  row burst := r.nodeBursts.lookup (parent, burst)
  nodes := r.commitState.tree.images.map (childHash parent)

namespace Foresight

/-- The row that holds the item already. -/
def adopted (f : Foresight) (it : Item F) : Option NodeId :=
  (f.row it.job.burst.burstId).filter fun id => f.nodes[id]?.join = some it.result.stateHash

/-- What the commit rules do with an item that is not adopted. -/
def action (rules : CommitRules F) (score : F) (f : Foresight) (it : Item F) : ReplayAction :=
  if it.prune then
    match rules.pruneAction with
    | .drop => .pruneDropped
    | .exhausted => .pruned f.nodes.length
  else
    match f.held it.result.stateHash with
    | some id => .duplicate (some id)
    | none =>
      if decide (it.result.progressScore.get + rules.epsilonKeep < score) &&
          f.known it.result.cellKey then .regression
      else .kept f.nodes.length (if it.result.goalHit then .goal else .frontier)

def disposition (rules : CommitRules F) (score : F) (f : Foresight) (it : Item F) : Disposition :=
  match f.adopted it with
  | some id => .adopted id
  | none => .acted (f.action rules score it)

def commits (rules : CommitRules F) (score : F) (f : Foresight) (it : Item F) : Bool :=
  (f.disposition rules score it).committed

/-- An item the rules have given a node is held from then on, under its burst. -/
def insert (f : Foresight) (it : Item F) : Foresight :=
  { f with
    held := fun hash => if hash = it.result.stateHash then
      some ((f.held it.result.stateHash).getD f.nodes.length) else f.held hash
    row := fun burst => if burst = it.job.burst.burstId then some f.nodes.length else f.row burst
    nodes := f.nodes ++ [some it.result.stateHash] }

/-- The cell of an item is known from then on. -/
def learn (f : Foresight) (it : Item F) : Foresight :=
  { f with known := fun cell => f.known cell || cell == it.result.cellKey }

/-- After one item. An adopted one changes nothing, and a dropped one neither. -/
def next (rules : CommitRules F) (score : F) (f : Foresight) (it : Item F) : Foresight :=
  match f.disposition rules score it with
  | .adopted _ | .acted .pruneDropped => f
  | .acted (.pruned _) | .acted (.kept _ _) => (f.insert it).learn it
  | .acted (.duplicate _) | .acted .regression => f.learn it

/-- After these items. -/
def after (rules : CommitRules F) (score : F) (f : Foresight) (its : List (Item F)) : Foresight :=
  its.foldl (next rules score) f

/-- The dispositions of these items. -/
def dispositions (rules : CommitRules F) (score : F) (f : Foresight) :
    List (Item F) → List Disposition
  | [] => []
  | it :: its =>
    f.disposition rules score it :: (f.next rules score it).dispositions rules score its

theorem getElem?_dispositions {f : Foresight} {i : Nat} (hi : its[i]? = some it) :
    (f.dispositions rules score its)[i]? =
      some ((f.after rules score (its.take i)).disposition rules score it) := by
  induction its generalizing f i with
  | nil => cases hi
  | cons first its ih =>
    cases i with
    | zero =>
      cases hi
      rfl
    | succ i => exact ih hi

end Foresight

section Foresight

variable {exp : Experiment F} {r r' : Runner F} {d : Disposition} {ds : List Disposition}

/-- Items are adopted by the rows the foresight knows of. -/
theorem adopted_foresight (r : Runner F) (parent : NodeId) (it : Item F) :
    (foresight r parent).adopted it = (adoptable r parent it).map (·.1) := by
  simp only [Foresight.adopted, foresight, adoptable]
  cases r.nodeBursts.lookup (parent, it.job.burst.burstId) with
  | none => rfl
  | some id =>
    simp only [Option.filter_some, List.getElem?_map, Tree.getElem?_images]
    cases r.commitState.tree.get id with
    | none => simp
    | some record =>
      by_cases hparent : record.parent = some parent
      · by_cases hhash : record.payload.stateHash = it.result.stateHash
        · simp [childHash, NodeRecord.image, NodePayload.image, hparent, hhash]
        · simp [childHash, NodeRecord.image, NodePayload.image, hparent, hhash]
      · simp [childHash, NodeRecord.image, NodePayload.image, hparent]

/-- The cell of an item after its bump. -/
theorem known_bump {cell : CellKey} {m m' : CellMirror} (h : m.bump cell = some m') (c : CellKey) :
    decide (0 < m'.count c) = (decide (0 < m.count c) || c == cell) := by
  rw [Bool.eq_iff_iff, Bool.or_eq_true_iff, decide_eq_true_iff, decide_eq_true_iff, beq_iff_eq,
    count_pos_bump h, eq_comm]

variable {depth : Nat}

/-- The new node is registered under its parent and its burst. -/
theorem registerCommittedChild_new
    (h : r.commitState.tree.images = s.tree.images ++ [it.image parent depth]) :
    registerCommittedChild s.tree.len it r =
      { r with
        runtimes :=
          (s.tree.len, ⟨it.capture.snapshot, it.capture.determinismClass⟩) :: r.runtimes
        nodeBursts := ((parent, it.job.burst.burstId), s.tree.len) :: r.nodeBursts } := by
  have hget : (r.commitState.tree.get s.tree.len).map (·.image) = some (it.image parent depth) := by
    rw [← Tree.getElem?_images, h, ← s.tree.length_images, List.getElem?_concat_length]
  obtain ⟨record, hrecord, himage⟩ := Option.map_eq_some_iff.mp hget
  have hparent : record.parent = some parent := congrArg NodeImage.parent himage
  simp only [registerCommittedChild, hrecord, Option.bind_some, hparent]

/-- What the replay goes by after a child that was given a node. -/
theorem foresight_insert {cell : CellMirror}
    (hseen : s'.seen = r.commitState.seen.insert it.result.stateHash r.commitState.tree.len)
    (hcell : r.commitState.cellMirror.bump it.result.cellKey = some cell)
    (hmirror : s'.cellMirror = cell)
    (himages : s'.tree.images = r.commitState.tree.images ++ [it.image parent depth]) :
    foresight (registerCommittedChild r.commitState.tree.len it { r with commitState := s' })
        parent = ((foresight r parent).insert it).learn it := by
  rw [registerCommittedChild_new himages]
  ext1
  · funext hash
    simp only [foresight, Foresight.learn, Foresight.insert, hseen, SeenMap.get_insert,
      List.length_map, Tree.length_images]
  · funext c
    simp only [foresight, Foresight.learn, Foresight.insert, hmirror, known_bump hcell]
  · funext burst
    simp only [foresight, Foresight.learn, Foresight.insert, List.lookup_cons, List.length_map,
      Tree.length_images]
    by_cases hb : burst = it.job.burst.burstId
    · simp [hb]
    · have hkey : ((parent, burst) == (parent, it.job.burst.burstId)) = false := by simp [hb]
      rw [hkey, if_neg hb]
  · simp [foresight, Foresight.learn, Foresight.insert, himages, childHash, Item.image]

variable {action : ReplayAction}

/-- The commit rules decide about a child the replay does not adopt as foreseen. -/
theorem ReplayStep.action_eq (h : ReplayStep parent score rules it r.commitState action s) :
    (foresight r parent).action rules score it = action := by
  have hregression : (decide (it.result.progressScore.get + rules.epsilonKeep < score) &&
      (foresight r parent).known it.result.cellKey) =
      isRegression r.commitState score (it.payload r.commitState.cellMirror) rules := rfl
  have hheld : (foresight r parent).held it.result.stateHash =
      r.commitState.seen.get it.result.stateHash := rfl
  have hlen : (foresight r parent).nodes.length = r.commitState.tree.len := by
    rw [foresight, List.length_map, Tree.length_images]
  rw [Foresight.action, hregression, hheld, hlen]
  cases h with
  | pruneDropped hp ha => simp [hp, ha]
  | pruned hp ha => simp [hp, ha]
  | duplicate hp hd =>
    obtain ⟨id, hid⟩ := Option.isSome_iff_exists.mp hd
    simp [hp, hid]
  | regression hp hd hreg => simp [hp, hd, hreg]
  | kept hp hd hreg => simp [hp, hd, hreg]

/-- And what the replay goes by afterwards is as foreseen. -/
theorem ReplayStep.foresight (h : ReplayStep parent score rules it r.commitState action s)
    (hnew : (foresight r parent).adopted it = none) :
    Server.foresight (replayed it action { r with commitState := s }) parent =
      (Server.foresight r parent).next rules score it := by
  have haction := h.action_eq
  have hgrows := h.grows.2
  rw [Foresight.next, Foresight.disposition, hnew, haction]
  cases h with
  | pruneDropped => rfl
  | pruned hp ha hr hm | kept hp hd hreg hr hm =>
    obtain ⟨hnone, -⟩ | ⟨status, depth, -, himages, -⟩ := hgrows
    · cases hnone
    · exact foresight_insert rfl hm rfl himages
  | @duplicate hp hd m hm =>
    ext1
    · rfl
    · funext c
      exact known_bump hm c
    · rfl
    · exact congrArg (List.map (childHash parent)) (routedTree_same parent _ _).1
  | regression hp hd hreg =>
    have hknown : (Server.foresight r parent).known it.result.cellKey = true :=
      (Bool.and_eq_true_iff.mp hreg).2
    ext1
    · rfl
    · -- The cell was known before, so there is nothing to learn.
      funext c
      show (Server.foresight r parent).known c =
        ((Server.foresight r parent).known c || c == it.result.cellKey)
      by_cases hc : c = it.result.cellKey
      · rw [hc, hknown, Bool.true_or]
      · rw [beq_false_of_ne hc, Bool.or_false]
    · rfl
    · rfl

theorem ReplayTurn.foresight (h : ReplayTurn exp parent score it r d r') :
    d = (foresight r parent).disposition exp.rules score it ∧
      Server.foresight r' parent = (Server.foresight r parent).next exp.rules score it := by
  cases h with
  | adopted h =>
    have hadopted := adopted_foresight r parent it
    rw [h] at hadopted
    simp [Foresight.next, Foresight.disposition, hadopted]
  | acted hnew h =>
    have hadopted := adopted_foresight r parent it
    rw [hnew] at hadopted
    refine ⟨?_, (replayChild_ok h).foresight hadopted⟩
    simp only [Foresight.disposition, hadopted, Option.map_none, (replayChild_ok h).action_eq]

/-- A replay gives the items the dispositions it was foreseen to give. -/
theorem ReplayTurns.foreseen (h : ReplayTurns exp parent score r its ds r') :
    ds = (foresight r parent).dispositions exp.rules score its := by
  induction h with
  | nil => rfl
  | cons hturn hrest ih =>
    obtain ⟨hd, hnext⟩ := hturn.foresight
    rw [Foresight.dispositions, ← hd, ← hnext, ih]

@[simp] theorem commitState_replayed (action : ReplayAction) (r : Runner F) :
    (replayed it action r).commitState = r.commitState := by
  cases action with
  | pruneDropped | duplicate | regression => rfl
  | pruned id | kept id status =>
    simp only [replayed, registerCommittedChild]
    split <;> rfl

theorem ReplayTurns.derived (h : ReplayTurns exp parent score r its ds r') :
    Derived parent its (ds.map (·.inserts)) r.commitState r'.commitState := by
  induction h with
  | nil => exact .nil
  | cons hturn _ ih =>
    cases hturn with
    | adopted hadopt => exact ih.cons (fun _ => by simp [Disposition.inserts]) (.inl ⟨rfl, rfl⟩)
    | @acted action s hnew hchild =>
      rw [commitState_replayed] at ih
      refine ih.cons (replayChild_ok hchild).contains_seen ?_
      rcases (replayChild_ok hchild).grows.2 with ⟨hid, himages⟩ | ⟨status, depth, hid, himages, -⟩
      · exact .inl ⟨congrArg Option.isSome hid, himages⟩
      · exact .inr ⟨congrArg Option.isSome hid, depth, himages⟩

/-- What the dispositions of the items leave in the runner's memory: the nodes and the hashes of
those that are inserted, in order, and the counts of the discarded. -/
structure Replayed (parent : NodeId) (its : List (Item F)) (ds : List Disposition)
    (r r' : Runner F) : Prop where
  derived : Derived parent its (ds.map (·.inserts)) r.commitState r'.commitState
  duplicates : r'.discardedDup = r.discardedDup + ds.countP (·.isDuplicate)
  regressions : r'.discardedRegression = r.discardedRegression + ds.count (.acted .regression)

theorem ReplayTurn.counts (h : ReplayTurn exp parent score it r d r') :
    r'.discardedDup = r.discardedDup + (if d.isDuplicate then 1 else 0) ∧
      r'.discardedRegression =
        r.discardedRegression + if d == .acted .regression then 1 else 0 := by
  cases h with
  | adopted => exact ⟨rfl, rfl⟩
  | @acted action s hnew hchild =>
    cases action with
    | pruneDropped | duplicate | regression => exact ⟨rfl, rfl⟩
    | pruned id | kept id status =>
      simp only [Server.replayed, registerCommittedChild]
      split <;> exact ⟨rfl, rfl⟩

theorem ReplayTurns.replayed (h : ReplayTurns exp parent score r its ds r') :
    Replayed parent its ds r r' := by
  suffices r'.discardedDup = r.discardedDup + ds.countP (·.isDuplicate) ∧
      r'.discardedRegression = r.discardedRegression + ds.count (.acted .regression) from
    ⟨h.derived, this.1, this.2⟩
  induction h with
  | nil => exact ⟨rfl, rfl⟩
  | cons hturn _ ih =>
    obtain ⟨hduplicates, hregressions⟩ := hturn.counts
    rw [List.countP_cons, List.count_cons]
    omega

end Foresight

/-- **Failed scores are kept out, exactly when the answer is in order and the rules turn them
down.** For every batch of captured jobs and every answer of the scorer, wherever the live
commit and the replay come to their end: each gives every job one disposition, with the result
for its own reference, and commits no failed score, if and only if the answer has the result of
each job at the job's position, and every result with an item error is one the commit discards
as it would discard any other state. -/
theorem failed_scores_iff (exp : Experiment F) (clientBatchId : String)
    (jobs : List (JobResult × Capture)) (response : List (ScoreEntry F)) (parent : NodeId) :
    (∀ (s s' : CommitState F) (outcome : BatchCommitOutcome),
      commitBatch parent (scoredChildren s.cellMirror [] (paired jobs response)) exp.rules s =
        .ok outcome s' →
      (Settled clientBatchId jobs response (outcome.childCommits.map (·.nodeId.isSome)) s s' ↔
        InOrder clientBatchId jobs response ∧
          ∀ (i : Nat) (it : Item F), (paired jobs response)[i]? = some it →
            it.result.error ≠ none →
            ¬ Commits exp.rules parent s ((paired jobs response).take i) it)) ∧
    ∀ (r r' : Runner F) (ds : List Disposition),
      ReplayTurns exp parent (parentScore r.commitState parent) r (paired jobs response) ds r' →
      (Settled clientBatchId jobs response (ds.map (·.committed)) r.commitState r'.commitState ↔
        InOrder clientBatchId jobs response ∧
          ∀ (i : Nat) (it : Item F), (paired jobs response)[i]? = some it →
            it.result.error ≠ none →
            ¬ ((foresight r parent).after exp.rules (parentScore r.commitState parent)
              ((paired jobs response).take i)).commits exp.rules
                (parentScore r.commitState parent) it = true) := by
  constructor
  · intro s s' outcome h
    exact (derived_of_commitBatch h).settled_iff rfl (fun _ hi => hi) fun i it hi =>
      commits_of_commitBatch h hi
  · intro r r' ds h
    refine h.derived.settled_iff (by simp) (fun i hi => ?_) fun i it hi => ?_
    · rw [List.getElem?_map, Option.map_eq_some_iff] at hi ⊢
      obtain ⟨d, hd, hinserts⟩ := hi
      exact ⟨d, hd, d.committed_of_inserts hinserts⟩
    · rw [h.foreseen, List.getElem?_map, Foresight.getElem?_dispositions hi]
      exact Option.some_inj

/-- A search at its root, which has score 10 and is in cell 3. -/
def elsewhere : CommitState Int := .fromRoot (.ofInt 0 10 3 100)

def loneCapture : Capture := ⟨1, none, 0, 0, 0, none⟩

def okJob (i : Nat) : JobResult × Capture :=
  (⟨i, .ok, ⟨i, [], 0, 0⟩, some loneCapture, []⟩, loneCapture)

/-- The answer for a state that the scorer could not decode. -/
def undecoded (nodeRef : String) : ScoreEntry Int := ⟨nodeRef, Scorer.errorResult .decodeFailed⟩

/-- The runner of a search in this state. -/
def runnerIn (s : CommitState Int) : Runner Int := { Runner.initial sample with commitState := s }

/-- The placeholder is kept as a state of its own, in cell 0 and with hash 0, by the live commit
and by the replay; and without any result the job gets no disposition at all. -/
theorem failed_score_committed :
    (∃ outcome s', commitBatch 0
        (scoredChildren elsewhere.cellMirror [] (paired [okJob 0] [undecoded "b-j0"]))
        sample.rules elsewhere = .ok outcome s' ∧
      outcome.childCommits = [⟨.keep, some 1, none⟩] ∧ s'.seen.get 0 = some 1 ∧
      s'.tree.images.map (·.stateHash) = [100, 0]) ∧
    (∃ r', ReplayTurns sample 0 (parentScore elsewhere 0) (runnerIn elsewhere)
        (paired [okJob 0] [undecoded "b-j0"]) [.acted (.kept 1 .frontier)] r' ∧
      r'.commitState.seen.contains 0 = true) ∧
    ∃ outcome s', commitBatch 0 (scoredChildren elsewhere.cellMirror [] (paired [okJob 0] []))
        sample.rules elsewhere = .ok outcome s' ∧ outcome.childCommits = [] := by
  refine ⟨?_, ?_, ?_⟩
  · obtain ⟨outcome, s', h, hp⟩ := exists_of_succeedsWith
      (r := commitBatch 0
        (scoredChildren elsewhere.cellMirror [] (paired [okJob 0] [undecoded "b-j0"]))
        sample.rules elsewhere)
      (p := fun o s' => o.childCommits = [⟨.keep, some 1, none⟩] ∧ s'.seen.get 0 = some 1 ∧
        s'.tree.images.map (·.stateHash) = [100, 0]) (by decide +kernel)
    exact ⟨outcome, s', h, of_decide_eq_true hp⟩
  · have hreplays : replays sample 0 (parentScore elsewhere 0) (runnerIn elsewhere)
        (paired [okJob 0] [undecoded "b-j0"]) [.acted (.kept 1 .frontier)] = true := by
      decide +kernel
    obtain ⟨r', h⟩ := exists_of_replays hreplays
    exact ⟨r', h, (h.derived.seen 0).mpr (.inr ⟨_, List.mem_cons_self, rfl⟩)⟩
  · obtain ⟨outcome, s', h, hp⟩ := exists_of_succeedsWith
      (r := commitBatch 0 (scoredChildren elsewhere.cellMirror [] (paired [okJob 0] []))
        sample.rules elsewhere)
      (p := fun o _ => decide (o.childCommits = [])) (by decide +kernel)
    exact ⟨outcome, s', h, of_decide_eq_true hp⟩

/-- A state in cell 4 with a better score than the root. -/
def decoded (nodeRef : String) (stateHash : StateHash) : ScoreEntry Int where
  nodeRef
  result :=
    { error := none, progressScore := .ofInt 12, noveltyScore := .ofInt 0, stateHash
      goalHit := false, duplicate := false, stage := 0, prune := false, decoded := []
      cellKey := 4 }

/-- Three jobs, the second with a state that could not be decoded. -/
def oneFailed : List (JobResult × Capture) × List (ScoreEntry Int) :=
  ([okJob 0, okJob 1, okJob 2], [decoded "b-j0" 7, undecoded "b-j1", decoded "b-j2" 8])

/-- The second of three jobs failed. Under a root in cell 0 its placeholder is a regression, and
both commits keep it out. -/
theorem failed_scores_iff_oneFailed :
    (∃ outcome s', commitBatch 0 (scoredChildren rootOnly.cellMirror []
        (paired oneFailed.1 oneFailed.2)) sample.rules rootOnly = .ok outcome s' ∧
      outcome.childCommits.map (·.nodeId) = [some 1, none, some 2] ∧
      Settled "b" oneFailed.1 oneFailed.2 (outcome.childCommits.map (·.nodeId.isSome))
        rootOnly s') ∧
    ∃ r', ReplayTurns sample 0 (parentScore rootOnly 0) (runnerIn rootOnly)
        (paired oneFailed.1 oneFailed.2)
        [.acted (.kept 1 .frontier), .acted .regression, .acted (.kept 2 .frontier)] r' ∧
      Settled "b" oneFailed.1 oneFailed.2 [true, false, true] rootOnly r'.commitState := by
  have horder : InOrder "b" oneFailed.1 oneFailed.2 := own_iff.mp (by decide +kernel)
  constructor
  · obtain ⟨outcome, s', h, hp⟩ := exists_of_succeedsWith
      (r := commitBatch 0 (scoredChildren rootOnly.cellMirror []
        (paired oneFailed.1 oneFailed.2)) sample.rules rootOnly)
      (p := fun o _ => o.childCommits.map (·.nodeId) = [some 1, none, some 2]) (by decide +kernel)
    refine ⟨outcome, s', h, of_decide_eq_true hp,
      ((failed_scores_iff sample "b" oneFailed.1 oneFailed.2 0).1 _ _ _ h).mpr ⟨horder, ?_⟩⟩
    intro i it hi herror
    match i with
    | 0 | 2 =>
      cases hi
      exact absurd rfl herror
    | 1 =>
      cases hi
      rw [commits_of_not_prune rfl]
      exact fun hcommits => hcommits.2.2 ⟨by decide +kernel, .inl (by decide +kernel)⟩
    | i + 3 => cases hi
  · have hreplays : replays sample 0 (parentScore rootOnly 0) (runnerIn rootOnly)
        (paired oneFailed.1 oneFailed.2)
        [.acted (.kept 1 .frontier), .acted .regression, .acted (.kept 2 .frontier)] = true := by
      decide +kernel
    obtain ⟨r', h⟩ := exists_of_replays hreplays
    have hsettled := (failed_scores_iff sample "b" oneFailed.1 oneFailed.2 0).2
      (runnerIn rootOnly) r' _ h
    refine ⟨r', h, hsettled.mpr ⟨horder, ?_⟩⟩
    intro i it hi herror
    match i with
    | 0 | 2 =>
      cases hi
      exact absurd rfl herror
    | 1 =>
      cases hi
      decide +kernel
    | i + 3 => cases hi

end Orchestrator.Server
