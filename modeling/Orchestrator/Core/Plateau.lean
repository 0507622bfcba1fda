import Orchestrator.Core.Types

/-! # Core — Plateau

The stall detector, which counts observations since the last improvement, and the
escalation ladder, whose level follows the completed stall windows and whose arrival at L4
asks for a coarser feature map.
-/

namespace Orchestrator.Core

variable {F : Type} [Float64 F]

/-- `u64::saturating_add(_, 1)`. -/
def saturatingSucc64 (n : Nat) : Nat := min (n + 1) (2 ^ 64 - 1)

inductive EscalationLevel where
  | l0 | l1 | l2 | l3 | l4
deriving DecidableEq, Repr

namespace EscalationLevel

def get : EscalationLevel → Nat
  | l0 => 0 | l1 => 1 | l2 => 2 | l3 => 3 | l4 => 4

def fromCapped : Nat → EscalationLevel
  | 0 => l0 | 1 => l1 | 2 => l2 | 3 => l3 | _ => l4

/-- `EscalationLevel::includes`. -/
def includes (a b : EscalationLevel) : Bool := b.get ≤ a.get

def max (a b : EscalationLevel) : EscalationLevel := if a.get < b.get then b else a

def min (a b : EscalationLevel) : EscalationLevel := if b.get < a.get then b else a

@[simp] theorem fromCapped_get (a : EscalationLevel) : fromCapped a.get = a := by
  cases a <;> rfl

end EscalationLevel

structure StallObservation (F : Type) [Float64 F] where
  bestScore : Score F
  improved : Bool
  observationsSinceImprovement : Nat
  completedStallWindows : Nat
  completedNewWindow : Bool

structure StallDetector (F : Type) [Float64 F] where
  windowN : Nat
  epsilonS : F
  observations : Nat
  bestScore : Option (Score F)
  observationsSinceImprovement : Nat
  completedStallWindows : Nat
deriving DecidableEq

namespace StallDetector

def new (windowN : Nat) (epsilonS : F) : StallDetector F :=
  { windowN, epsilonS, observations := 0, bestScore := none,
    observationsSinceImprovement := 0, completedStallWindows := 0 }

/-- The detector's fields after an observation, and whether the score improved. -/
def record (d : StallDetector F) (score : Score F) : StallDetector F × Bool :=
  let observations := saturatingSucc64 d.observations
  match d.bestScore with
  | none => ({ d with observations, bestScore := some score }, true)
  | some best =>
    if best.get + d.epsilonS < score.get then
      ({ d with observations, bestScore := some score, observationsSinceImprovement := 0,
                completedStallWindows := 0 }, true)
    else
      let since := saturatingSucc64 d.observationsSinceImprovement
      ({ d with observations, observationsSinceImprovement := since,
                completedStallWindows := if d.windowN = 0 then 0 else since / d.windowN }, false)

/-- `StallDetector::observe`. -/
def observe (d : StallDetector F) (score : Score F) : StallDetector F × StallObservation F :=
  let (d', improved) := d.record score
  (d', { bestScore := d'.bestScore.getD score
         improved
         observationsSinceImprovement := d'.observationsSinceImprovement
         completedStallWindows := d'.completedStallWindows
         completedNewWindow := !improved && decide (0 < d'.windowN) &&
           decide (0 < d'.observationsSinceImprovement) &&
           decide (d'.observationsSinceImprovement % d'.windowN = 0) })

@[simp] theorem observe_windowN (d : StallDetector F) (score : Score F) :
    (d.observe score).1.windowN = d.windowN := by
  simp only [observe, record]
  split
  · rfl
  · split <;> rfl

@[simp] theorem observe_epsilonS (d : StallDetector F) (score : Score F) :
    (d.observe score).1.epsilonS = d.epsilonS := by
  simp only [observe, record]
  split
  · rfl
  · split <;> rfl

/-- The best score of an observation is the detector's. -/
theorem observe_bestScore (d : StallDetector F) (score : Score F) :
    (d.observe score).1.bestScore = some (d.observe score).2.bestScore := by
  simp only [observe, record]
  split
  · rfl
  · rename_i best hbest
    split
    · rfl
    · simp [hbest]

end StallDetector

structure EscalationLadder where
  maxLevel : EscalationLevel
  level : EscalationLevel
  featureMapVersion : Nat
deriving DecidableEq, Repr

namespace EscalationLadder

def new (maxLevel : EscalationLevel) : EscalationLadder := ⟨maxLevel, .l0, 0⟩

/-- `set_level`: the level never falls here, and reaching L4 starts a new map version. -/
def setLevel (l : EscalationLadder) (requested : EscalationLevel) : EscalationLadder :=
  let next := l.level.max (requested.min l.maxLevel)
  { l with
    level := next
    featureMapVersion :=
      if l.level.get < EscalationLevel.l4.get ∧ EscalationLevel.l4.get ≤ next.get then
        min (l.featureMapVersion + 1) (2 ^ 32 - 1)
      else l.featureMapVersion }

def setCompletedStallWindows (l : EscalationLadder) (windows : Nat) : EscalationLadder :=
  l.setLevel (.fromCapped (min windows l.maxLevel.get))

/-- `apply_stall_observation`. -/
def applyStallObservation (l : EscalationLadder) (o : StallObservation F) : EscalationLadder :=
  if o.improved then { l with level := .l0 }
  else if o.completedNewWindow then l.setCompletedStallWindows o.completedStallWindows
  else l

@[simp] theorem applyStallObservation_maxLevel (l : EscalationLadder) (o : StallObservation F) :
    (l.applyStallObservation o).maxLevel = l.maxLevel := by
  unfold applyStallObservation
  split
  · rfl
  · split <;> rfl

end EscalationLadder
end Orchestrator.Core
