import Mathlib.Data.List.Induction
import Mathlib.Order.MinMax
import Orchestrator.Core.Plateau

/-! # Core — The history of a plateau

What the stall detector and the escalation ladder hold, read off the scores observed so far.
The detector counts one observation at a time and the ladder moves at the end of a window
only; over a whole history both are functions of how long ago the last improvement was.

* `lastImprovement`, `sinceImprovement`, `escalationLevel`, `entriesToL4`: the history.
* `Charted.observe`: an observation keeps detector and ladder in step with it.
-/

namespace Orchestrator.Core

variable {F : Type} [Float64 F]

/-! ### What a history says -/

/-- Whether a score is an improvement on the best one before it. -/
def improves (epsilon : F) (best : Option (Score F)) (score : Score F) : Bool :=
  match best with
  | none => true
  | some best => best.get + epsilon < score.get

/-- Which observations were improvements, beginning with a best score. -/
def improvements (epsilon : F) : Option (Score F) → List (Score F) → List Bool
  | _, [] => []
  | best, score :: rest =>
    improves epsilon best score ::
      improvements epsilon (if improves epsilon best score then some score else best) rest

/-- The last of the scores that are marked. -/
def lastMarked (scores : List (Score F)) (marks : List Bool) : Option (Score F) :=
  ((scores.zip marks).filter (·.2)).getLast?.map (·.1)

/-- The last score that was an improvement. -/
def lastImprovement (epsilon : F) (scores : List (Score F)) : Option (Score F) :=
  lastMarked scores (improvements epsilon none scores)

/-- The number of observations after the last improvement. -/
def sinceImprovement (epsilon : F) (scores : List (Score F)) : Nat :=
  ((improvements epsilon none scores).reverse.takeWhile (!·)).length

/-- One level for each window without an improvement, up to the highest. -/
def escalationLevel (windowN : Nat) (epsilon : F) (maxLevel : EscalationLevel)
    (scores : List (Score F)) : Nat :=
  min maxLevel.get (sinceImprovement epsilon scores / windowN)

/-- The number of observations at which the level rose to L4. -/
def entriesToL4 (windowN : Nat) (epsilon : F) (maxLevel : EscalationLevel)
    (scores : List (Score F)) : Nat :=
  (List.range scores.length).countP fun k =>
    escalationLevel windowN epsilon maxLevel (scores.take k) < 4 ∧
      escalationLevel windowN epsilon maxLevel (scores.take (k + 1)) = 4

section

variable {epsilon : F} {windowN : Nat} {maxLevel : EscalationLevel}

/-! ### One more observation -/

@[simp] theorem length_improvements (best : Option (Score F)) (scores : List (Score F)) :
    (improvements epsilon best scores).length = scores.length := by
  induction scores generalizing best with
  | nil => rfl
  | cons score rest ih => simp [improvements, ih]

theorem lastMarked_cons (score : Score F) (scores : List (Score F)) (mark : Bool)
    (marks : List Bool) : lastMarked (score :: scores) (mark :: marks) =
      (lastMarked scores marks).or (if mark then some score else none) := by
  unfold lastMarked
  cases mark with
  | false => simp
  | true =>
    rw [List.zip_cons_cons, List.filter_cons_of_pos rfl, List.getLast?_cons]
    cases ((scores.zip marks).filter (·.2)).getLast? <;> rfl

theorem lastMarked_concat {scores : List (Score F)} {marks : List Bool}
    (h : marks.length = scores.length) (score : Score F) (mark : Bool) :
    lastMarked (scores ++ [score]) (marks ++ [mark]) =
      if mark then some score else lastMarked scores marks := by
  unfold lastMarked
  rw [List.zip_append h.symm, List.filter_append]
  cases mark <;> simp

/-- The mark of the last score compares it with the last marked one before it. -/
theorem improvements_concat (best : Option (Score F)) (scores : List (Score F)) (score : Score F) :
    improvements epsilon best (scores ++ [score]) = improvements epsilon best scores ++
      [improves epsilon ((lastMarked scores (improvements epsilon best scores)).or best)
        score] := by
  induction scores generalizing best with
  | nil => rfl
  | cons first rest ih =>
    simp only [List.cons_append, improvements, ih, lastMarked_cons, Option.or_assoc]
    cases improves epsilon best first <;> rfl

theorem improvements_concat_none (scores : List (Score F)) (score : Score F) :
    improvements epsilon none (scores ++ [score]) = improvements epsilon none scores ++
      [improves epsilon (lastImprovement epsilon scores) score] := by
  rw [improvements_concat, Option.or_none]
  rfl

theorem lastImprovement_concat (epsilon : F) (scores : List (Score F)) (score : Score F) :
    lastImprovement epsilon (scores ++ [score]) =
      if improves epsilon (lastImprovement epsilon scores) score then some score
      else lastImprovement epsilon scores := by
  unfold lastImprovement
  rw [improvements_concat_none, lastMarked_concat (length_improvements ..)]
  rfl

theorem sinceImprovement_concat (epsilon : F) (scores : List (Score F)) (score : Score F) :
    sinceImprovement epsilon (scores ++ [score]) =
      if improves epsilon (lastImprovement epsilon scores) score then 0
      else sinceImprovement epsilon scores + 1 := by
  unfold sinceImprovement
  rw [improvements_concat_none, List.reverse_append, List.reverse_singleton, List.singleton_append]
  cases improves epsilon (lastImprovement epsilon scores) score <;> simp

theorem sinceImprovement_le (scores : List (Score F)) :
    sinceImprovement epsilon scores ≤ scores.length := by
  have hle := (List.takeWhile_prefix (!·)
    (l := (improvements epsilon none scores).reverse)).length_le
  simpa [sinceImprovement] using hle

/-- The first score is an improvement. -/
theorem lastImprovement_eq_none {scores : List (Score F)} :
    lastImprovement epsilon scores = none ↔ scores = [] := by
  refine ⟨fun h => ?_, fun h => h ▸ rfl⟩
  induction scores using List.reverseRecOn with
  | nil => rfl
  | append_singleton scores score ih =>
    rw [lastImprovement_concat] at h
    split at h
    · cases h
    · rename_i hnot
      rw [h] at hnot
      exact absurd rfl hnot

theorem entriesToL4_concat (scores : List (Score F)) (score : Score F) :
    entriesToL4 windowN epsilon maxLevel (scores ++ [score]) =
      entriesToL4 windowN epsilon maxLevel scores +
        if escalationLevel windowN epsilon maxLevel scores < 4 ∧
          escalationLevel windowN epsilon maxLevel (scores ++ [score]) = 4 then 1 else 0 := by
  unfold entriesToL4
  rw [List.length_append, List.length_singleton, List.range_succ, List.countP_append]
  congr 1
  · refine List.countP_congr fun k hk => ?_
    have hk : k < scores.length := List.mem_range.mp hk
    rw [List.take_append_of_le_length hk.le, List.take_append_of_le_length hk]
  · rw [List.countP_singleton, List.take_left' rfl, List.take_of_length_le (by simp)]
    simp

theorem EscalationLevel.get_le_four (level : EscalationLevel) : level.get ≤ 4 := by
  cases level <;> decide

/-! ### Detector and ladder -/

/-- The detector and the ladder hold what the history says. -/
structure Charted (n : Nat) (epsilon : F) (top : EscalationLevel) (scores : List (Score F))
    (d : StallDetector F) (l : EscalationLadder) : Prop where
  windowN : d.windowN = n
  epsilonS : d.epsilonS = epsilon
  maxLevel : l.maxLevel = top
  bestScore : d.bestScore = lastImprovement epsilon scores
  since : d.observationsSinceImprovement = sinceImprovement epsilon scores
  windows : d.completedStallWindows = sinceImprovement epsilon scores / n
  level : l.level.get = escalationLevel n epsilon top scores
  version : l.featureMapVersion = entriesToL4 n epsilon top scores

theorem Charted.new (windowN : Nat) (epsilon : F) (maxLevel : EscalationLevel) :
    Charted windowN epsilon maxLevel [] (.new windowN epsilon) (.new maxLevel) where
  windowN := rfl
  epsilonS := rfl
  maxLevel := rfl
  bestScore := rfl
  since := rfl
  windows := (Nat.zero_div _).symm
  level := by simp [escalationLevel, sinceImprovement, improvements, EscalationLadder.new,
    EscalationLevel.get]
  version := rfl

variable {d : StallDetector F} {l : EscalationLadder} {scores : List (Score F)} {score : Score F}

/-- An improvement begins a new history of the detector. -/
theorem StallDetector.record_improves (h : improves d.epsilonS d.bestScore score = true)
    (hnew : d.bestScore = none → d.observationsSinceImprovement = 0 ∧ d.completedStallWindows = 0) :
    d.record score =
      ({ d with
          observations := saturatingSucc64 d.observations
          bestScore := some score
          observationsSinceImprovement := 0
          completedStallWindows := 0 }, true) := by
  unfold record
  split
  · rename_i hnone
    obtain ⟨hsince, hwindows⟩ := hnew hnone
    obtain ⟨windowN, epsilonS, observations, bestScore, since, windows⟩ := d
    cases hsince
    cases hwindows
    rfl
  · rename_i best hbest
    rw [hbest] at h
    rw [if_pos (of_decide_eq_true h)]

theorem StallDetector.record_stalls (h : improves d.epsilonS d.bestScore score = false)
    (hpos : 0 < d.windowN) :
    d.record score =
      ({ d with
          observations := saturatingSucc64 d.observations
          observationsSinceImprovement := saturatingSucc64 d.observationsSinceImprovement
          completedStallWindows :=
            saturatingSucc64 d.observationsSinceImprovement / d.windowN }, false) := by
  unfold record
  split
  · rename_i hnone
    rw [hnone] at h
    cases h
  · rename_i best hbest
    rw [hbest] at h
    rw [if_neg (of_decide_eq_false h)]
    simp only [if_neg hpos.ne']

variable {n : Nat}

theorem EscalationLevel.get_fromCapped (h : n ≤ 4) : (fromCapped n).get = n := by
  match n with
  | 0 | 1 | 2 | 3 | 4 => rfl
  | n + 5 => omega

/-- The level after `set_completed_stall_windows` is no lower, and follows the windows. -/
theorem EscalationLadder.setCompletedStallWindows_level (l : EscalationLadder) (windows : Nat) :
    (l.setCompletedStallWindows windows).level.get =
      max l.level.get (min windows l.maxLevel.get) := by
  have hcapped : (EscalationLevel.fromCapped (min windows l.maxLevel.get)).get =
      min windows l.maxLevel.get :=
    EscalationLevel.get_fromCapped ((Nat.min_le_right _ _).trans l.maxLevel.get_le_four)
  simp only [setCompletedStallWindows, setLevel, EscalationLevel.max, EscalationLevel.min]
  split <;> split <;> omega

theorem EscalationLadder.setCompletedStallWindows_version (l : EscalationLadder) (windows : Nat) :
    (l.setCompletedStallWindows windows).featureMapVersion =
      if l.level.get < 4 ∧ (l.setCompletedStallWindows windows).level.get = 4 then
        min (l.featureMapVersion + 1) (2 ^ 32 - 1)
      else l.featureMapVersion := by
  have hle := (l.setCompletedStallWindows windows).level.get_le_four
  have hiff : (l.setCompletedStallWindows windows).level.get = 4 ↔
      4 ≤ (l.setCompletedStallWindows windows).level.get := by omega
  simp only [hiff]
  rfl

theorem saturatingSucc64_of_lt (h : n + 1 < 2 ^ 64) : saturatingSucc64 n = n + 1 :=
  Nat.min_eq_left (Nat.le_sub_one_of_lt h)

/-- A quotient moves at the multiples of the divisor only. -/
theorem succ_div_of_mod_ne {k : Nat} (h : (n + 1) % k ≠ 0) : (n + 1) / k = n / k := by
  rw [Nat.succ_div, if_neg fun hdvd => h (Nat.mod_eq_zero_of_dvd hdvd), Nat.add_zero]

/-- **An observation keeps detector and ladder in step with the history.** -/
theorem Charted.observe (h : Charted windowN epsilon maxLevel scores d l) (hpos : 0 < windowN)
    (hobservations : scores.length + 1 < 2 ^ 64)
    (hentries : entriesToL4 windowN epsilon maxLevel (scores ++ [score]) < 2 ^ 32) :
    Charted windowN epsilon maxLevel (scores ++ [score]) (d.observe score).1
      (l.applyStallObservation (d.observe score).2) := by
  obtain ⟨rfl, rfl, rfl, hbest, hsince, hwindows, hlevel, hversion⟩ := h
  have hlast := lastImprovement_concat d.epsilonS scores score
  have hcount := sinceImprovement_concat d.epsilonS scores score
  rw [entriesToL4_concat] at hentries
  cases himproves : improves d.epsilonS d.bestScore score with
  | true =>
    have hrecord := StallDetector.record_improves himproves fun hnone => by
      rw [hnone, eq_comm, lastImprovement_eq_none] at hbest
      subst hbest
      exact ⟨hsince, hwindows.trans (Nat.zero_div _)⟩
    rw [hbest] at himproves
    rw [himproves, if_pos rfl] at hlast hcount
    have hlow : escalationLevel d.windowN d.epsilonS l.maxLevel (scores ++ [score]) = 0 := by
      simp [escalationLevel, hcount]
    simp only [StallDetector.observe, hrecord, EscalationLadder.applyStallObservation, if_pos]
    refine ⟨rfl, rfl, rfl, hlast.symm, hcount.symm, ?_, hlow.symm, ?_⟩
    · rw [hcount, Nat.zero_div]
    · rw [entriesToL4_concat, hlow, if_neg (by omega), Nat.add_zero]
      exact hversion
  | false =>
    have hrecord := StallDetector.record_stalls himproves hpos
    rw [hbest] at himproves
    rw [himproves, if_neg (by decide)] at hlast hcount
    -- the counter has room
    have hsucc : saturatingSucc64 d.observationsSinceImprovement =
        sinceImprovement d.epsilonS scores + 1 := by
      rw [hsince]
      refine saturatingSucc64_of_lt (lt_of_le_of_lt ?_ hobservations)
      exact Nat.succ_le_succ (sinceImprovement_le scores)
    simp only [StallDetector.observe, hrecord, hsucc, EscalationLadder.applyStallObservation,
      Bool.not_false, Bool.true_and, hpos, decide_true, Nat.succ_pos, Bool.false_eq_true, if_false]
    by_cases hmod : (sinceImprovement d.epsilonS scores + 1) % d.windowN = 0
    · -- the end of a window
      let l' := l.setCompletedStallWindows ((sinceImprovement d.epsilonS scores + 1) / d.windowN)
      have hraised : l'.level.get =
          escalationLevel d.windowN d.epsilonS l.maxLevel (scores ++ [score]) := by
        rw [EscalationLadder.setCompletedStallWindows_level, hlevel, escalationLevel,
          escalationLevel, hcount, Nat.min_comm _ l.maxLevel.get]
        refine Nat.max_eq_right (min_le_min_left _ ?_)
        exact Nat.div_le_div_right (Nat.le_succ _)
      rw [decide_eq_true hmod, if_pos rfl]
      refine ⟨rfl, rfl, rfl, hlast.symm ▸ hbest, hcount.symm, by rw [hcount], hraised, ?_⟩
      rw [EscalationLadder.setCompletedStallWindows_version, entriesToL4_concat]
      change (if l.level.get < 4 ∧ l'.level.get = 4 then _ else _) = _
      rw [hraised, hlevel, hversion]
      split
      · rename_i hrises
        rw [if_pos hrises] at hentries
        exact Nat.min_eq_left (Nat.le_sub_one_of_lt hentries)
      · rfl
    · have hsame : escalationLevel d.windowN d.epsilonS l.maxLevel (scores ++ [score]) =
          escalationLevel d.windowN d.epsilonS l.maxLevel scores := by
        unfold escalationLevel
        rw [hcount, succ_div_of_mod_ne hmod]
      rw [decide_eq_false hmod, if_neg (by decide)]
      refine ⟨rfl, rfl, rfl, hlast.symm ▸ hbest, hcount.symm, by rw [hcount], hsame ▸ hlevel, ?_⟩
      rw [entriesToL4_concat, hsame, if_neg (by omega), Nat.add_zero]
      exact hversion

end

end Orchestrator.Core
