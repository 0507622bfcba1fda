import Mathlib.Algebra.Ring.Int.Defs
import Mathlib.Algebra.Ring.Nat
import Mathlib.Data.List.Basic

/-! # Core — Types

The vocabulary of the search: identifiers, scores, node statuses and the dispositions a
commit can give a child. Identifiers and digests are the natural numbers their bytes spell;
a score is a float known to be finite, over any type that offers the handful of float
operations the orchestrator performs. Apart from the finiteness of zero and of the novelty
values no law of those operations is assumed, so nothing proved here depends on how floats
round.
-/

namespace Orchestrator.Core

abbrev NodeId := Nat
abbrev StateHash := Nat
abbrev CellKey := Nat
abbrev SnapshotRef := Nat

/-- The root of every tree, `NodeId::ROOT`. -/
def NodeId.root : NodeId := 0

/-- `u32::checked_add`. -/
def checkedAdd32 (a b : Nat) : Option Nat :=
  if a + b < 2 ^ 32 then some (a + b) else none

theorem checkedAdd32_lt {a b : Nat} (h : ¬ (checkedAdd32 a b).isNone = true) : a + b < 2 ^ 32 := by
  unfold checkedAdd32 at h
  split at h
  · assumption
  · exact absurd rfl h

/-- The float operations the orchestrator uses. -/
class Float64 (F : Type) extends Zero F, Add F, Sub F, LT F where
  decEq : DecidableEq F
  decLt : DecidableLT F
  isFinite : F → Bool
  /-- `1.0 / f64::sqrt(1.0 + f64::from(count))` -/
  noveltyOfCount : Nat → F
  finite_zero : isFinite 0 = true
  finite_novelty : ∀ n, isFinite (noveltyOfCount n) = true

instance {F : Type} [Float64 F] : DecidableEq F := Float64.decEq

instance Float64.decidableLT {F : Type} [Float64 F] : DecidableLT F := Float64.decLt

/-- Exact integers stand in for the floats where a run is evaluated. -/
instance : Float64 Int where
  decEq := inferInstance
  decLt := inferInstance
  isFinite := fun _ => true
  noveltyOfCount := fun n => 1000 / (1 + n)
  finite_zero := rfl
  finite_novelty := fun _ => rfl

/-- `FiniteF64`: a float that is neither infinite nor NaN. -/
structure FiniteF64 (F : Type) [Float64 F] where
  get : F
  finite : Float64.isFinite get = true
deriving DecidableEq

def FiniteF64.ofInt (value : Int) : FiniteF64 Int := ⟨value, rfl⟩

/-- `FiniteF64::new`, shared by `Score::new` and `Novelty::new`. -/
def FiniteF64.new {F : Type} [Float64 F] (value : F) : Option (FiniteF64 F) :=
  if h : Float64.isFinite value = true then some ⟨value, h⟩ else none

/-- `Score::new(0.0)` and `Novelty::new(0.0)`. -/
def FiniteF64.zero {F : Type} [Float64 F] : FiniteF64 F := ⟨0, Float64.finite_zero⟩

abbrev Score := FiniteF64
abbrev Novelty := FiniteF64

/-- `Novelty::new` of a mirror's novelty, which is always finite. -/
def Novelty.ofCount {F : Type} [Float64 F] (count : Nat) : Novelty F :=
  ⟨Float64.noveltyOfCount count, Float64.finite_novelty count⟩

inductive NodeStatus where
  | frontier | expanded | pruned | goal
deriving DecidableEq, Repr

inductive PruneAction where
  | exhausted | drop
deriving DecidableEq, Repr

inductive OnGoal where
  | stop | continue
deriving DecidableEq, Repr

inductive SchedMode where
  | fast | deterministic
deriving DecidableEq, Repr

inductive DiscardReason where
  | duplicate | regression | pruneDrop
deriving DecidableEq, Repr

inductive CommitDisposition where
  | keep
  | discard (reason : DiscardReason)
  | prunedExhausted
deriving DecidableEq, Repr

inductive FrontierEvictReason where
  | maxVisits | allDuplicateExpansions
deriving DecidableEq, Repr

/-- How a fallible call on mutable state ends early: by returning an error value, or by a
panic (`expect` on an overflowing counter). Either way the changes made so far stay. -/
inductive Abort (ε : Type) where
  | error (e : ε)
  | panic
deriving DecidableEq, Repr

end Orchestrator.Core
