import Mathlib.Data.List.GetD
import Orchestrator.Lib.Framing
import Orchestrator.Core.Types

/-! # Core — Derived seeds

Every random stream of an experiment is seeded by a hash of the experiment's seed, the tag of
the stream's purpose and a batch number, written one after another with no separator; the
entropy seed of a job hashes the seed of its batch's stream once more, with the job's index.

The hash is a parameter. It maps all messages into 32 bytes, so it cannot be injective;
`CollisionFree` asks for no more than that the messages hashed here do not collide.

* `Use.message_injective`: the messages can be told apart.
* `derived_seeds_distinct`: so can the seeds.
-/

namespace Orchestrator.Core

open Lib

inductive RngPurpose where
  | selection
  | synth
  | misc
  | boot
  | entropy
deriving DecidableEq, Repr

/-- The bytes of a byte-string literal. -/
def asciiBytes (s : String) : List UInt8 := s.toList.map fun c => UInt8.ofNat c.toNat

def RngPurpose.tag : RngPurpose → List UInt8
  | .selection => asciiBytes "selection"
  | .synth => asciiBytes "synth"
  | .misc => asciiBytes "misc"
  | .boot => asciiBytes "boot"
  | .entropy => asciiBytes "entropy"

theorem RngPurpose.tag_injective : Function.Injective RngPurpose.tag := by
  intro p q h
  revert h
  cases p <;> cases q <;> decide +kernel

theorem RngPurpose.length_tag_le (p : RngPurpose) : p.tag.length ≤ 9 := by
  cases p <;> decide +kernel

/-- `[u8; STREAM_SEED_LEN]` -/
abbrev StreamSeed := Vector UInt8 32

/-! ### The derivations -/

section Derivations

variable (blake3 : List UInt8 → StreamSeed)

/-- What `derive_stream_seed` feeds to the hasher. -/
def streamMessage (seed : UInt64) (purpose : RngPurpose) (batchSeq : UInt64) : List UInt8 :=
  leBytes 8 seed.toNat ++ (purpose.tag ++ leBytes 8 batchSeq.toNat)

def deriveStreamSeed (seed : UInt64) (purpose : RngPurpose) (batchSeq : UInt64) : StreamSeed :=
  blake3 (streamMessage seed purpose batchSeq)

def deriveBootEntropySeed (experimentSeed : UInt64) : StreamSeed :=
  deriveStreamSeed blake3 experimentSeed .boot 0

def deriveJobEntropySeed (experimentSeed batchSeq : UInt64) (jobIdx : UInt32) : StreamSeed :=
  let streamSeed := deriveStreamSeed blake3 experimentSeed .entropy batchSeq
  blake3 (streamSeed.toList ++ leBytes 4 jobIdx.toNat)

end Derivations

/-- What a seed is derived for, within one experiment. -/
inductive Use where
  | stream (purpose : RngPurpose) (batchSeq : UInt64)
  | job (batchSeq : UInt64) (jobIdx : UInt32)
deriving DecidableEq

namespace Use

variable (blake3 : List UInt8 → StreamSeed)

def seed (experimentSeed : UInt64) : Use → StreamSeed
  | .stream purpose batchSeq => deriveStreamSeed blake3 experimentSeed purpose batchSeq
  | .job batchSeq jobIdx => deriveJobEntropySeed blake3 experimentSeed batchSeq jobIdx

/-- What is hashed last for a use. -/
def message (experimentSeed : UInt64) : Use → List UInt8
  | .stream purpose batchSeq => streamMessage experimentSeed purpose batchSeq
  | .job batchSeq jobIdx =>
    (deriveStreamSeed blake3 experimentSeed .entropy batchSeq).toList ++ leBytes 4 jobIdx.toNat

theorem seed_eq (experimentSeed : UInt64) (u : Use) :
    u.seed blake3 experimentSeed = blake3 (u.message blake3 experimentSeed) := by
  cases u <;> rfl

end Use

/-- No two messages that the derivations hash, for any experiments and uses, collide. -/
def CollisionFree (blake3 : List UInt8 → StreamSeed) : Prop :=
  Set.InjOn blake3 {m | ∃ experimentSeed u, Use.message blake3 experimentSeed u = m}

/-! ### The messages can be told apart -/

theorem leBytes_uint64_inj {x y : UInt64} (h : leBytes 8 x.toNat = leBytes 8 y.toNat) : x = y :=
  UInt64.toNat_inj.mp (leBytes_inj x.toNat_lt y.toNat_lt h)

theorem leBytes_uint32_inj {x y : UInt32} (h : leBytes 4 x.toNat = leBytes 4 y.toNat) : x = y :=
  UInt32.toNat_inj.mp (leBytes_inj x.toNat_lt y.toNat_lt h)

theorem length_streamMessage (seed : UInt64) (p : RngPurpose) (b : UInt64) :
    (streamMessage seed p b).length = 16 + p.tag.length := by
  simp only [streamMessage, List.length_append, length_leBytes]
  omega

variable {seed seed' : UInt64}

variable {b b' : UInt64} {p p' : RngPurpose} {u u' : Use} {l : List UInt8}

/-- The two numbers have a fixed width, so they are cut off the ends and the tag is what
stands between them. -/
theorem streamMessage_inj (h : streamMessage seed p b = streamMessage seed' p' b') :
    seed = seed' ∧ p = p' ∧ b = b' := by
  obtain ⟨hseed, hrest⟩ := List.append_inj h (by rw [length_leBytes, length_leBytes])
  obtain ⟨htag, hb⟩ := List.append_inj' hrest (by rw [length_leBytes, length_leBytes])
  exact ⟨leBytes_uint64_inj hseed, RngPurpose.tag_injective htag, leBytes_uint64_inj hb⟩

variable {blake3 : List UInt8 → StreamSeed}

theorem CollisionFree.deriveStreamSeed_inj (h : CollisionFree blake3)
    (heq : deriveStreamSeed blake3 seed p b = deriveStreamSeed blake3 seed' p' b') :
    seed = seed' ∧ p = p' ∧ b = b' :=
  streamMessage_inj (h ⟨seed, .stream p b, rfl⟩ ⟨seed', .stream p' b', rfl⟩ heq)

/-- A job's message is the longer one, whatever the tag. -/
theorem Use.streamMessage_ne_job (seed seed' : UInt64) (p : RngPurpose) (b b' : UInt64)
    (j : UInt32) : streamMessage seed p b ≠ (Use.job b' j).message blake3 seed' := by
  intro h
  have hlen := congrArg List.length h
  rw [length_streamMessage, Use.message, List.length_append, Vector.length_toList,
    length_leBytes] at hlen
  have := p.length_tag_le
  omega

theorem Use.message_injective (h : CollisionFree blake3)
    (heq : u.message blake3 seed = u'.message blake3 seed') : seed = seed' ∧ u = u' := by
  cases u with
  | stream p b =>
    cases u' with
    | stream p' b' =>
      obtain ⟨rfl, rfl, rfl⟩ := streamMessage_inj heq
      exact ⟨rfl, rfl⟩
    | job b' j' => exact absurd heq (Use.streamMessage_ne_job _ _ _ _ _ _)
  | job b j =>
    cases u' with
    | stream p' b' => exact absurd heq.symm (Use.streamMessage_ne_job _ _ _ _ _ _)
    | job b' j' =>
      -- the inner seed is cut off by its width, and its own message is recovered from it
      obtain ⟨hstream, hj⟩ := List.append_inj heq (by simp only [Vector.length_toList])
      obtain ⟨rfl, -, rfl⟩ := h.deriveStreamSeed_inj (Vector.toList_inj.mp hstream)
      rw [leBytes_uint32_inj hj]
      exact ⟨rfl, rfl⟩

/-- Seeds derived for distinct uses, in one experiment or in two, are distinct; the boot seed
is the seed of the boot stream's batch zero and of no other use. -/
theorem derived_seeds_distinct (blake3 : List UInt8 → StreamSeed) (h : CollisionFree blake3) :
    (∀ (seed seed' : UInt64) (u u' : Use),
      (seed, u) ≠ (seed', u') → u.seed blake3 seed ≠ u'.seed blake3 seed') ∧
    (∀ (seed seed' : UInt64) (u : Use), deriveBootEntropySeed blake3 seed = u.seed blake3 seed' →
      seed = seed' ∧ u = .stream .boot 0) := by
  have hinj : ∀ (seed seed' : UInt64) (u u' : Use),
      u.seed blake3 seed = u'.seed blake3 seed' → seed = seed' ∧ u = u' := by
    intro seed seed' u u' heq
    rw [Use.seed_eq, Use.seed_eq] at heq
    exact Use.message_injective h (h ⟨seed, u, rfl⟩ ⟨seed', u', rfl⟩ heq)
  constructor
  · intro seed seed' u u' hne heq
    obtain ⟨rfl, rfl⟩ := hinj seed seed' u u' heq
    exact hne rfl
  · intro seed seed' u heq
    obtain ⟨hseed, hu⟩ := hinj seed seed' (.stream .boot 0) u heq
    exact ⟨hseed, hu.symm⟩

/-! ### A hash without collisions -/

/-- The first 32 bytes, filled up with zeros. -/
def padded (bytes : List UInt8) : StreamSeed := Vector.ofFn fun i => bytes.getD i 0

/-- A hash that keeps of each message what tells it apart: both numbers and the second letter
of the tag, or the numbers kept in the inner seed and the job's index. -/
def keeping (m : List UInt8) : StreamSeed :=
  if m.length = 36 then padded (m.take 16 ++ 0 :: m.drop 32)
  else padded (m.take 8 ++ (m.drop (m.length - 8) ++ [m.getD 9 0, 0, 0, 0, 0]))

theorem toList_padded_take {n : Nat} (h : n ≤ l.length) (hn : n ≤ 32) :
    (padded l).toList.take n = l.take n := by
  apply List.ext_getElem?
  intro i
  rw [List.getElem?_take, List.getElem?_take]
  split
  · rename_i hi
    have hl : i < l.length := Nat.lt_of_lt_of_le hi h
    have hi' : i < 32 := Nat.lt_of_lt_of_le hi hn
    simp [padded, hi', hl]
  · rfl

theorem padded_inj {l' : List UInt8} (hl : l.length = 21) (hl' : l'.length = 21)
    (h : padded l = padded l') : l = l' := by
  have htake := congrArg (fun v : StreamSeed => v.toList.take 21) h
  rw [toList_padded_take (Nat.le_of_eq hl.symm) (by decide),
    toList_padded_take (Nat.le_of_eq hl'.symm) (by decide)] at htake
  rwa [List.take_of_length_le (Nat.le_of_eq hl), List.take_of_length_le (Nat.le_of_eq hl')]
    at htake

/-- What `keeping` keeps of a use. -/
def Use.kept (seed : UInt64) : Use → List UInt8
  | .stream p b => leBytes 8 seed.toNat ++ (leBytes 8 b.toNat ++ (p.tag.getD 1 0 :: leBytes 4 0))
  | .job b j => leBytes 8 seed.toNat ++ (leBytes 8 b.toNat ++ (0 :: leBytes 4 j.toNat))

theorem Use.length_kept (seed : UInt64) (u : Use) : (u.kept seed).length = 21 := by
  cases u <;> simp [Use.kept]

theorem Use.kept_inj (h : u.kept seed = u'.kept seed') : seed = seed' ∧ u = u' := by
  have hletter : ∀ p : RngPurpose, p.tag.getD 1 0 ≠ 0 := by
    intro p
    cases p <;> decide +kernel
  have hpurpose : ∀ p p' : RngPurpose, p.tag.getD 1 0 = p'.tag.getD 1 0 → p = p' := by
    intro p p'
    cases p <;> cases p' <;> decide +kernel
  cases u with
  | stream p b =>
    cases u' with
    | stream p' b' =>
      obtain ⟨hseed, hrest⟩ := List.append_inj h (by rw [length_leBytes, length_leBytes])
      obtain ⟨hb, hend⟩ := List.append_inj hrest (by rw [length_leBytes, length_leBytes])
      rw [leBytes_uint64_inj hseed, leBytes_uint64_inj hb, hpurpose p p' (List.cons.inj hend).1]
      exact ⟨rfl, rfl⟩
    | job b' j' =>
      have hrest := (List.append_inj h (by rw [length_leBytes, length_leBytes])).2
      have hend := (List.append_inj hrest (by rw [length_leBytes, length_leBytes])).2
      exact absurd (List.cons.inj hend).1 (hletter p)
  | job b j =>
    cases u' with
    | stream p' b' =>
      have hrest := (List.append_inj h (by rw [length_leBytes, length_leBytes])).2
      have hend := (List.append_inj hrest (by rw [length_leBytes, length_leBytes])).2
      exact absurd (List.cons.inj hend).1.symm (hletter p')
    | job b' j' =>
      obtain ⟨hseed, hrest⟩ := List.append_inj h (by rw [length_leBytes, length_leBytes])
      obtain ⟨hb, hend⟩ := List.append_inj hrest (by rw [length_leBytes, length_leBytes])
      rw [leBytes_uint64_inj hseed, leBytes_uint64_inj hb,
        leBytes_uint32_inj (List.cons.inj hend).2]
      exact ⟨rfl, rfl⟩

theorem keeping_streamMessage (seed : UInt64) (p : RngPurpose) (b : UInt64) :
    keeping (streamMessage seed p b) = padded ((Use.stream p b).kept seed) := by
  have hlen := length_streamMessage seed p b
  have htag := p.length_tag_le
  have htwo : 1 < p.tag.length := by cases p <;> decide +kernel
  have hfront : (streamMessage seed p b).take 8 = leBytes 8 seed.toNat :=
    List.take_left' (length_leBytes 8 _)
  have hback : (streamMessage seed p b).drop (16 + p.tag.length - 8) = leBytes 8 b.toNat := by
    rw [streamMessage, ← List.append_assoc]
    exact List.drop_left' (by rw [List.length_append, length_leBytes]; omega)
  have hletter : (streamMessage seed p b).getD 9 0 = p.tag.getD 1 0 := by
    rw [streamMessage, List.getD_append_right _ _ _ _ (by rw [length_leBytes]; decide),
      length_leBytes, List.getD_append _ _ _ _ htwo]
  rw [keeping, if_neg (by omega), hlen, hfront, hback, hletter]
  rfl

theorem keeping_message (seed : UInt64) (u : Use) :
    keeping (u.message keeping seed) = padded (u.kept seed) := by
  cases u with
  | stream p b => exact keeping_streamMessage seed p b
  | job b j =>
    have hlen : ((Use.job b j).message keeping seed).length = 36 := by
      rw [Use.message, List.length_append, Vector.length_toList, length_leBytes]
    rw [keeping, if_pos hlen]
    have hinner : (deriveStreamSeed keeping seed .entropy b).toList.take 16 =
        leBytes 8 seed.toNat ++ leBytes 8 b.toNat := by
      rw [deriveStreamSeed, keeping_streamMessage,
        toList_padded_take (by rw [Use.length_kept]; decide) (by decide), Use.kept,
        ← List.append_assoc]
      rw [List.take_append_of_le_length (by simp)]
      exact List.take_of_length_le (by simp)
    rw [Use.message, List.take_append_of_le_length (by rw [Vector.length_toList]; decide), hinner,
      List.drop_append_of_le_length (by rw [Vector.length_toList]),
      List.drop_of_length_le (by rw [Vector.length_toList]), Use.kept, List.append_assoc]
    rfl

theorem keeping_collisionFree : CollisionFree keeping := by
  rintro _ ⟨seed, u, rfl⟩ _ ⟨seed', u', rfl⟩ h
  rw [keeping_message, keeping_message] at h
  obtain ⟨rfl, rfl⟩ := Use.kept_inj (padded_inj (u.length_kept seed) (u'.length_kept seed') h)
  rfl

/-- The assumption can be met, and then the boot seed of one experiment is no job's seed. -/
theorem derived_seeds_distinct_keeping :
    CollisionFree keeping ∧
      (Use.stream .boot 0).seed keeping 7 ≠ (Use.job 3 5).seed keeping 7 :=
  ⟨keeping_collisionFree,
    (derived_seeds_distinct keeping keeping_collisionFree).1 7 7 _ _ (by decide)⟩

end Orchestrator.Core
