import Orchestrator.Services.Types

/-! # Services — Metadata

The keyed metadata of the in-memory store. A write or a delete may expect a generation, and a
write hands out the generation after the current one; of an absent key the next generation is
1, whatever the key has been before. So a client that holds a generation from before a
deletion cannot tell the key that was created again from the one it read.

* `Effect`: what one call can do, and what it answers.
* `cas_sound_iff`: over every history of calls, compare-and-swap is sound just if no deleted
  key is written again.
-/

namespace Orchestrator.Services

open Lib

structure MetadataEntry (V : Type) where
  value : V
  generation : Nat

inductive MetadataExpectation where
  | unconditional
  | createOnly
  | generation (g : Nat)
deriving DecidableEq, Repr

abbrev Metadata (V : Type) := Std.ExtTreeMap String (MetadataEntry V)

variable {V : Type}

def metadataGenerationConflict : ClientError :=
  .new .failedPrecondition "metadata generation conflict"

def checkMetadataExpectation (current : Option Nat) (expected : MetadataExpectation)
    (allowCreateOnly : Bool) : Except ClientError Unit :=
  match expected with
  | .unconditional => .ok ()
  | .createOnly =>
    if allowCreateOnly && current.isNone then .ok ()
    else if allowCreateOnly then .error metadataGenerationConflict
    else .error (.new .failedPrecondition "create-only expectation is invalid for delete")
  | .generation g => if current = some g then .ok () else .error metadataGenerationConflict

/-- `map_or(Some(1), checked_add(1))` -/
def nextGeneration : Option Nat → Option Nat
  | none => some 1
  | some g => if g + 1 < 2 ^ 64 then some (g + 1) else none

namespace Metadata

/-- The generation of a key that is there. -/
def generation (m : Metadata V) (key : String) : Option Nat :=
  m[key]?.map MetadataEntry.generation

/-- Each call is first asked of the fault plan, whose error it returns before anything else. -/
def put (m : Metadata V) (fault : Option ClientError) (key : String) (value : V)
    (expected : MetadataExpectation) : Except ClientError Nat × Metadata V :=
  match fault with
  | some e => (.error e, m)
  | none =>
    match checkMetadataExpectation (m.generation key) expected true with
    | .error e => (.error e, m)
    | .ok () =>
      match nextGeneration (m.generation key) with
      | none => (.error (.new .internal "metadata generation overflow"), m)
      | some g => (.ok g, m.insert key ⟨value, g⟩)

def get (m : Metadata V) (fault : Option ClientError) (key : String) :
    Except ClientError (V × Nat) :=
  match fault with
  | some e => .error e
  | none =>
    match m[key]? with
    | none => .error (.new .notFound "metadata not found")
    | some entry => .ok (entry.value, entry.generation)

def delete (m : Metadata V) (fault : Option ClientError) (key : String)
    (expected : MetadataExpectation) : Except ClientError Unit × Metadata V :=
  match fault with
  | some e => (.error e, m)
  | none =>
    match checkMetadataExpectation (m.generation key) expected false with
    | .error e => (.error e, m)
    | .ok () =>
      match m[key]? with
      | none => (.error (.new .notFound "metadata not found"), m)
      | some _ => (.ok (), m.erase key)

/-! ### Histories -/

inductive Call (V : Type) where
  | put (key : String) (value : V) (expected : MetadataExpectation)
  | get (key : String)
  | delete (key : String) (expected : MetadataExpectation)

/-- A call that was made, with its answer. -/
inductive Logged (V : Type) where
  | put (key : String) (value : V) (expected : MetadataExpectation)
      (answer : Except ClientError Nat)
  | get (key : String) (answer : Except ClientError (V × Nat))
  | delete (key : String) (expected : MetadataExpectation) (answer : Except ClientError Unit)

def call (m : Metadata V) (fault : Option ClientError) : Call V → Logged V × Metadata V
  | .put key value expected =>
    let (answer, m') := m.put fault key value expected
    (.put key value expected answer, m')
  | .get key => (.get key (m.get fault key), m)
  | .delete key expected =>
    let (answer, m') := m.delete fault key expected
    (.delete key expected answer, m')

/-- The calls on a new store, whoever makes them, and the metadata after them. -/
inductive History : List (Logged V) → Metadata V → Prop where
  | new : History [] ∅
  | next {log : List (Logged V)} {m : Metadata V} (h : History log m)
      (fault : Option ClientError) (c : Call V) :
      History (log ++ [(m.call fault c).1]) (m.call fault c).2

namespace Logged

/-- The call told the key's generation: it read it, or it was given it. -/
def Shows (key : String) (g : Nat) : Logged V → Prop
  | .put k _ _ (.ok g') => k = key ∧ g' = g
  | .get k (.ok (_, g')) => k = key ∧ g' = g
  | _ => False

def Puts (key : String) : Logged V → Prop
  | .put k _ _ (.ok _) => k = key
  | _ => False

def Deletes (key : String) : Logged V → Prop
  | .delete k _ (.ok ()) => k = key
  | _ => False

/-- The call expected a generation of the key, and succeeded. -/
def Swaps (key : String) (g : Nat) : Logged V → Prop
  | .put k _ expected (.ok _) => k = key ∧ expected = .generation g
  | .delete k expected (.ok ()) => k = key ∧ expected = .generation g
  | _ => False

/-- The generation that a put of the key was given. -/
def handedOut (key : String) : Logged V → Option Nat
  | .put k _ _ (.ok g) => if k = key then some g else none
  | _ => none

end Logged

open Logged

/-- No call swaps on a generation that was shown before the key was last changed, and no
generation is handed out twice. -/
structure CasSound (log : List (Logged V)) : Prop where
  swaps : ∀ before x between y after key g, log = before ++ x :: (between ++ y :: after) →
    Shows key g x → Swaps key g y → ∀ e ∈ between, ¬ Puts key e ∧ ¬ Deletes key e
  unique : ∀ key, (log.filterMap (handedOut key)).Nodup

/-- A key is deleted and written again. -/
def Recreated (log : List (Logged V)) : Prop :=
  ∃ before x between y after key, log = before ++ x :: (between ++ y :: after) ∧
    Deletes key x ∧ Puts key y

/-! ### What a call did -/

/-- A call that succeeded, with the expectation it met; a call that failed changed nothing. -/
inductive Effect (m : Metadata V) : Logged V → Metadata V → Prop where
  | put {key : String} {value : V} {expected : MetadataExpectation} {g : Nat}
      (hmet : checkMetadataExpectation (m.generation key) expected true = .ok ())
      (hg : nextGeneration (m.generation key) = some g) :
      Effect m (.put key value expected (.ok g)) (m.insert key ⟨value, g⟩)
  | get {key : String} {entry : MetadataEntry V} (h : m[key]? = some entry) :
      Effect m (.get key (.ok (entry.value, entry.generation))) m
  | delete {key : String} {expected : MetadataExpectation} {entry : MetadataEntry V}
      (hmet : checkMetadataExpectation (m.generation key) expected false = .ok ())
      (h : m[key]? = some entry) : Effect m (.delete key expected (.ok ())) (m.erase key)
  | failed {e : Logged V} (hshow : ∀ key g, ¬ Shows key g e) (hput : ∀ key, ¬ Puts key e)
      (hdelete : ∀ key, ¬ Deletes key e) (hswap : ∀ key g, ¬ Swaps key g e)
      (hhand : ∀ key, handedOut key e = none) : Effect m e m

theorem effect_failed_put (m : Metadata V) (key : String) (value : V)
    (expected : MetadataExpectation) (e : ClientError) :
    Effect m (.put key value expected (.error e)) m :=
  .failed (fun _ _ => id) (fun _ => id) (fun _ => id) (fun _ _ => id) fun _ => rfl

theorem effect_failed_delete (m : Metadata V) (key : String) (expected : MetadataExpectation)
    (e : ClientError) : Effect m (.delete key expected (.error e)) m :=
  .failed (fun _ _ => id) (fun _ => id) (fun _ => id) (fun _ _ => id) fun _ => rfl

theorem effect_call (m : Metadata V) (fault : Option ClientError) (c : Call V) :
    Effect m (m.call fault c).1 (m.call fault c).2 := by
  cases c with
  | put key value expected =>
    simp only [Metadata.call, Metadata.put]
    cases fault with
    | some e => exact effect_failed_put m key value expected e
    | none =>
      cases hmet : checkMetadataExpectation (m.generation key) expected true with
      | error e => exact effect_failed_put m key value expected e
      | ok _ =>
        cases hg : nextGeneration (m.generation key) with
        | none => exact effect_failed_put m key value expected _
        | some g => exact .put hmet hg
  | get key =>
    have hfail : ∀ e, Effect m (.get key (.error e)) m := fun e =>
      .failed (fun _ _ => id) (fun _ => id) (fun _ => id) (fun _ _ => id) fun _ => rfl
    simp only [Metadata.call, Metadata.get]
    cases fault with
    | some e => exact hfail e
    | none =>
      cases h : m[key]? with
      | none => exact hfail _
      | some entry => exact .get h
  | delete key expected =>
    simp only [Metadata.call, Metadata.delete]
    cases fault with
    | some e => exact effect_failed_delete m key expected e
    | none =>
      cases hmet : checkMetadataExpectation (m.generation key) expected false with
      | error e => exact effect_failed_delete m key expected e
      | ok _ =>
        cases h : m[key]? with
        | none => exact effect_failed_delete m key expected _
        | some entry => exact .delete hmet h

section Effects

variable {m m' : Metadata V} {e : Logged V} {key : String} {g : Nat}

theorem generation_insert (m : Metadata V) (k : String) (entry : MetadataEntry V) (key : String) :
    generation (m.insert k entry) key =
      if key = k then some entry.generation else m.generation key := by
  unfold generation
  rw [getElem?_insert_if]
  split <;> rfl

theorem generation_erase (m : Metadata V) (k key : String) :
    generation (m.erase k) key = if key = k then none else m.generation key := by
  unfold generation
  rw [getElem?_erase_if]
  split <;> rfl

/-- The generation after a call that leaves the key alone. -/
theorem Effect.generation_of_not (h : Effect m e m') (hput : ¬ Puts key e)
    (hdelete : ¬ Deletes key e) : m'.generation key = m.generation key := by
  cases h with
  | put hmet hg => rw [generation_insert, if_neg (fun heq => hput heq.symm)]
  | get h => rfl
  | delete hmet h => rw [generation_erase, if_neg (fun heq => hdelete heq.symm)]
  | failed => rfl

theorem Effect.generation_of_puts (h : Effect m e m') (hput : Puts key e) :
    ∃ g, handedOut key e = some g ∧ nextGeneration (m.generation key) = some g ∧
      m'.generation key = some g := by
  cases h with
  | put hmet hg =>
    cases hput
    exact ⟨_, if_pos rfl, hg, by rw [generation_insert, if_pos rfl]⟩
  | get h => exact hput.elim
  | delete hmet h => exact hput.elim
  | failed hshow hput' => exact absurd hput (hput' key)

theorem Effect.generation_of_deletes (h : Effect m e m') (hdelete : Deletes key e) :
    (∃ g, m.generation key = some g) ∧ m'.generation key = none := by
  cases h with
  | put hmet hg => exact hdelete.elim
  | get h => exact hdelete.elim
  | delete hmet h =>
    cases hdelete
    refine ⟨⟨_, by rw [generation, h]; rfl⟩, ?_⟩
    rw [generation_erase, if_pos rfl]
  | failed hshow hput hdelete' => exact absurd hdelete (hdelete' key)

theorem Effect.generation_of_shows (h : Effect m e m') (hshow : Shows key g e) :
    m'.generation key = some g := by
  cases h with
  | put hmet hg =>
    obtain ⟨rfl, rfl⟩ := hshow
    rw [generation_insert, if_pos rfl]
  | get h =>
    obtain ⟨rfl, rfl⟩ := hshow
    rw [generation, h]
    rfl
  | delete hmet h => exact hshow.elim
  | failed hshow' => exact absurd hshow (hshow' key g)

theorem Effect.generation_of_swaps (h : Effect m e m') (hswap : Swaps key g e) :
    m.generation key = some g := by
  have hmet : ∀ {allow : Bool},
      checkMetadataExpectation (m.generation key) (.generation g) allow = .ok () →
        m.generation key = some g := by
    intro allow hmet
    unfold checkMetadataExpectation at hmet
    dsimp only at hmet
    split at hmet
    · assumption
    · cases hmet
  cases h with
  | put h hg =>
    obtain ⟨rfl, rfl⟩ := hswap
    exact hmet h
  | get h => exact hswap.elim
  | delete h hentry =>
    obtain ⟨rfl, rfl⟩ := hswap
    exact hmet h
  | failed hshow hput hdelete hswap' => exact absurd hswap (hswap' key g)

theorem of_handedOut (h : handedOut key e = some g) : Puts key e ∧ Shows key g e := by
  unfold handedOut at h
  split at h
  · split at h
    · rename_i hkey
      exact ⟨hkey, hkey, Option.some.inj h⟩
    · cases h
  · cases h

theorem nextGeneration_some {g g' : Nat} (h : nextGeneration (some g) = some g') : g' = g + 1 := by
  unfold nextGeneration at h
  dsimp only at h
  split at h
  · exact (Option.some.inj h).symm
  · cases h

end Effects

/-! ### Generations only grow until the key is deleted -/

def Deleted (log : List (Logged V)) (key : String) : Prop := ∃ e ∈ log, Deletes key e

/-- The key has a generation from `g` on, or it has been deleted and is gone. -/
def AtLeast (log : List (Logged V)) (m : Metadata V) (key : String) (g : Nat) : Prop :=
  (∃ g', m.generation key = some g' ∧ g ≤ g') ∨ m.generation key = none ∧ Deleted log key

section Growth

variable {log : List (Logged V)} {m m' : Metadata V} {e : Logged V} {key : String} {g : Nat}

theorem Deleted.snoc (h : Deleted log key) : Deleted (log ++ [e]) key := by
  obtain ⟨x, hx, hdel⟩ := h
  exact ⟨x, List.mem_append_left _ hx, hdel⟩

theorem deleted_snoc (h : Deletes key e) : Deleted (log ++ [e]) key :=
  ⟨e, List.mem_append_right _ (List.mem_singleton_self e), h⟩

/-- A call that does not recreate the key keeps the bound, and raises it if it changes it. -/
theorem AtLeast.changed (h : AtLeast log m key g) (he : Effect m e m')
    (hfresh : Puts key e → ¬ Deleted log key) (hchange : Puts key e ∨ Deletes key e) :
    AtLeast (log ++ [e]) m' key (g + 1) := by
  rcases hchange with hput | hdelete
  · obtain ⟨g', -, hnext, hgen⟩ := he.generation_of_puts hput
    rcases h with ⟨g₀, hg₀, hle⟩ | ⟨-, hdel⟩
    · rw [hg₀] at hnext
      rw [nextGeneration_some hnext] at hgen
      exact .inl ⟨g₀ + 1, hgen, Nat.succ_le_succ hle⟩
    · exact absurd hdel (hfresh hput)
  · exact .inr ⟨(he.generation_of_deletes hdelete).2, deleted_snoc hdelete⟩

theorem AtLeast.step (h : AtLeast log m key g) (he : Effect m e m')
    (hfresh : Puts key e → ¬ Deleted log key) : AtLeast (log ++ [e]) m' key g := by
  by_cases hchange : Puts key e ∨ Deletes key e
  · rcases h.changed he hfresh hchange with ⟨g', hg', hle⟩ | hgone
    · exact .inl ⟨g', hg', Nat.le_of_succ_le hle⟩
    · exact .inr hgone
  · have hsame := he.generation_of_not (fun hp => hchange (.inl hp)) (fun hd => hchange (.inr hd))
    rcases h with ⟨g', hg', hle⟩ | ⟨hnone, hdel⟩
    · exact .inl ⟨g', hsame.trans hg', hle⟩
    · exact .inr ⟨hsame.trans hnone, hdel.snoc⟩

end Growth

/-- What is known of the generations a log has shown, while nothing is recreated. -/
structure Grown (log : List (Logged V)) (m : Metadata V) : Prop where
  shown : ∀ x ∈ log, ∀ key g, Shows key g x → AtLeast log m key g
  passed : ∀ before x between key g, log = before ++ x :: between → Shows key g x →
    (∃ e ∈ between, Puts key e ∨ Deletes key e) → AtLeast log m key (g + 1)

theorem grown_new : Grown ([] : List (Logged V)) ∅ where
  shown := fun _ hx => absurd hx List.not_mem_nil
  passed := fun before x between _ _ h => by simp at h

theorem Grown.snoc {log : List (Logged V)} {m m' : Metadata V} {e : Logged V} (h : Grown log m)
    (he : Effect m e m') (hfresh : ∀ key, Puts key e → ¬ Deleted log key) :
    Grown (log ++ [e]) m' where
  shown := by
    intro x hx key g hshow
    rcases List.mem_append.mp hx with hx | hx
    · exact (h.shown x hx key g hshow).step he (hfresh key)
    · rw [List.mem_singleton.mp hx] at hshow
      exact .inl ⟨g, he.generation_of_shows hshow, Nat.le_refl g⟩
  passed := by
    intro before x between key g hlog hshow hchange
    rcases List.eq_nil_or_concat between with rfl | ⟨between', last, rfl⟩
    · obtain ⟨_, hmem, -⟩ := hchange
      exact absurd hmem List.not_mem_nil
    · rw [List.concat_eq_append, ← List.cons_append, ← List.append_assoc] at hlog
      obtain ⟨rfl, hlast⟩ := List.append_inj' hlog rfl
      cases hlast
      rw [List.concat_eq_append] at hchange
      obtain ⟨y, hy, hchanges⟩ := hchange
      rcases List.mem_append.mp hy with hy | hy
      · exact (h.passed before x between' key g rfl hshow ⟨y, hy, hchanges⟩).step he (hfresh key)
      · rw [List.mem_singleton.mp hy] at hchanges
        exact (h.shown x (by simp) key g hshow).changed he (hfresh key) hchanges

/-! ### Soundness -/

section Soundness

variable {log : List (Logged V)} {m : Metadata V}

variable {e : Logged V}

/-- Two places of a longer log: the second one is the new call, or both are older. -/
theorem split_snoc {before between after : List (Logged V)} {x y : Logged V}
    (h : log ++ [e] = before ++ x :: (between ++ y :: after)) :
    log = before ++ x :: between ∧ y = e ∨
      ∃ after', log = before ++ x :: (between ++ y :: after') := by
  rcases List.eq_nil_or_concat after with rfl | ⟨after', last, rfl⟩
  · rw [← List.cons_append, ← List.append_assoc] at h
    obtain ⟨hlog, hlast⟩ := List.append_inj' h rfl
    exact .inl ⟨hlog, (List.cons.inj hlast).1.symm⟩
  · have hsplit : before ++ x :: (between ++ y :: after'.concat last) =
        (before ++ x :: (between ++ y :: after')) ++ [last] := by simp
    rw [hsplit] at h
    exact .inr ⟨after', (List.append_inj' h rfl).1⟩

theorem recreated_snoc :
    Recreated (log ++ [e]) ↔ Recreated log ∨ ∃ key, Puts key e ∧ Deleted log key := by
  constructor
  · rintro ⟨before, x, between, y, after, key, hlog, hdel, hput⟩
    rcases split_snoc hlog with ⟨rfl, rfl⟩ | ⟨after', rfl⟩
    · exact .inr ⟨key, hput, x, by simp, hdel⟩
    · exact .inl ⟨before, x, between, y, after', key, rfl, hdel, hput⟩
  · rintro (⟨before, x, between, y, after, key, rfl, hdel, hput⟩ | ⟨key, hput, x, hx, hdel⟩)
    · exact ⟨before, x, between, y, after ++ [e], key, by simp, hdel, hput⟩
    · obtain ⟨before, between, rfl⟩ := List.append_of_mem hx
      exact ⟨before, x, between, e, [], key, by simp, hdel, hput⟩

theorem CasSound.snoc {m' : Metadata V} (h : CasSound log) (hgrown : Grown log m)
    (he : Effect m e m') (hfresh : ∀ key, Puts key e → ¬ Deleted log key) :
    CasSound (log ++ [e]) where
  swaps := by
    intro before x between y after key g hlog hshow hswap
    rcases split_snoc hlog with ⟨rfl, rfl⟩ | ⟨after', rfl⟩
    · -- the swap found the generation that was shown, so nothing has passed it
      have hcurrent := he.generation_of_swaps hswap
      have hnot : ¬ ∃ z ∈ between, Puts key z ∨ Deletes key z := by
        intro hchange
        rcases hgrown.passed before x between key g rfl hshow hchange with ⟨g', hg', hle⟩ | ⟨hn, -⟩
        · rw [hcurrent] at hg'
          cases hg'
          exact Nat.not_succ_le_self g hle
        · rw [hcurrent] at hn
          cases hn
      exact fun z hz => ⟨fun hp => hnot ⟨z, hz, .inl hp⟩, fun hd => hnot ⟨z, hz, .inr hd⟩⟩
    · exact h.swaps before x between y after' key g rfl hshow hswap
  unique := by
    intro key
    rw [List.filterMap_append, List.nodup_append]
    refine ⟨h.unique key, ?_, ?_⟩
    · cases hnew : handedOut key e <;> simp [hnew]
    · intro g hg g' hg' heq
      subst heq
      obtain ⟨x, hx, hgx⟩ := List.mem_filterMap.mp hg
      obtain ⟨x', hx', hge⟩ := List.mem_filterMap.mp hg'
      rw [List.mem_singleton.mp hx'] at hge
      -- the key is still there, and the new generation is beyond all shown before
      have hputs := (of_handedOut hge).1
      obtain ⟨g', hg', hnext, -⟩ := he.generation_of_puts hputs
      rw [hge] at hg'
      cases hg'
      rcases hgrown.shown x hx key g (of_handedOut hgx).2 with ⟨g₀, hg₀, hle⟩ | ⟨-, hdel⟩
      · rw [hg₀] at hnext
        have := nextGeneration_some hnext
        omega
      · exact hfresh key hputs hdel

theorem History.sound (h : History log m) (hnot : ¬ Recreated log) :
    CasSound log ∧ Grown log m := by
  induction h with
  | new =>
    refine ⟨⟨fun before x between y after _ _ h => ?_, fun _ => List.nodup_nil⟩, grown_new⟩
    simp at h
  | next h fault c ih =>
    rename_i log m
    rw [recreated_snoc, not_or] at hnot
    obtain ⟨hsound, hgrown⟩ := ih hnot.1
    have hfresh : ∀ key, Puts key (m.call fault c).1 → ¬ Deleted log key :=
      fun key hput hdel => hnot.2 ⟨key, hput, hdel⟩
    have he := effect_call m fault c
    exact ⟨hsound.snoc hgrown he hfresh, hgrown.snoc he hfresh⟩

/-- A key that is there, or was deleted, was given generation 1 once. -/
theorem History.first (h : History log m) (key : String)
    (hkey : m.generation key ≠ none ∨ Deleted log key) :
    1 ∈ log.filterMap (handedOut key) := by
  induction h with
  | new =>
    rcases hkey with hkey | ⟨e, he, -⟩
    · exact absurd (by rw [generation, Std.ExtTreeMap.getElem?_empty]; rfl) hkey
    · exact absurd he List.not_mem_nil
  | next h fault c ih =>
    rename_i log m
    have he := effect_call m fault c
    rw [List.filterMap_append, List.mem_append]
    by_cases hold : m.generation key ≠ none ∨ Deleted log key
    · exact .inl (ih hold)
    · rw [not_or, not_not] at hold
      refine .inr ?_
      -- the key was never there, so the call has just put it
      have hput : Puts key (m.call fault c).1 := by
        by_contra hnot
        have hdel : ¬ Deletes key (m.call fault c).1 := by
          intro hdel
          obtain ⟨⟨g, hg⟩, -⟩ := he.generation_of_deletes hdel
          rw [hold.1] at hg
          cases hg
        rcases hkey with hkey | ⟨e, hmem, hdel'⟩
        · exact hkey ((he.generation_of_not hnot hdel).trans hold.1)
        · rcases List.mem_append.mp hmem with hmem | hmem
          · exact hold.2 ⟨e, hmem, hdel'⟩
          · exact hdel (List.mem_singleton.mp hmem ▸ hdel')
      obtain ⟨g, hhand, hnext, -⟩ := he.generation_of_puts hput
      rw [hold.1] at hnext
      cases hnext
      exact List.mem_filterMap.mpr ⟨_, List.mem_singleton_self _, hhand⟩

/-- Once a deleted key is written again, generation 1 has been handed out twice. -/
theorem History.twice (h : History log m) (key : String) (hdel : Deleted log key)
    (hunique : (log.filterMap (handedOut key)).Nodup) : m.generation key = none := by
  induction h with
  | new =>
    obtain ⟨e, he, -⟩ := hdel
    exact absurd he List.not_mem_nil
  | next h fault c ih =>
    rename_i log m
    have he := effect_call m fault c
    rw [List.filterMap_append, List.nodup_append] at hunique
    by_cases hdeletes : Deletes key (m.call fault c).1
    · exact (he.generation_of_deletes hdeletes).2
    · have hold : Deleted log key := by
        obtain ⟨e, hmem, hdel⟩ := hdel
        rcases List.mem_append.mp hmem with hmem | hmem
        · exact ⟨e, hmem, hdel⟩
        · exact absurd (List.mem_singleton.mp hmem ▸ hdel) hdeletes
      have hnone := ih hold hunique.1
      by_cases hput : Puts key (m.call fault c).1
      · obtain ⟨g, hhand, hnext, -⟩ := he.generation_of_puts hput
        rw [hnone] at hnext
        cases hnext
        have hnew : 1 ∈ [(m.call fault c).1].filterMap (handedOut key) :=
          List.mem_filterMap.mpr ⟨_, List.mem_singleton_self _, hhand⟩
        exact absurd rfl (hunique.2.2 1 (h.first key (.inr hold)) 1 hnew)
      · exact (he.generation_of_not hput hdeletes).trans hnone

theorem History.not_recreated (h : History log m) (hsound : CasSound log) : ¬ Recreated log := by
  induction h with
  | new =>
    rintro ⟨before, x, between, y, after, key, hlog, -⟩
    simp at hlog
  | next h fault c ih =>
    rename_i log m
    have hearlier : CasSound log := by
      refine ⟨fun before x between y after key g hlog => ?_, fun key => ?_⟩
      · exact hsound.swaps before x between y (after ++ [(m.call fault c).1]) key g (by simp [hlog])
      · have := hsound.unique key
        rw [List.filterMap_append, List.nodup_append] at this
        exact this.1
    rw [recreated_snoc, not_or]
    refine ⟨ih hearlier, ?_⟩
    rintro ⟨key, hput, hdel⟩
    have hgone := (h.next fault c).twice key hdel.snoc (hsound.unique key)
    obtain ⟨g, -, -, hgen⟩ := (effect_call m fault c).generation_of_puts hput
    rw [hgone] at hgen
    cases hgen

/-- Over every history of calls, compare-and-swap is sound if and only if no key was written
again after it had been deleted. -/
theorem cas_sound_iff (log : List (Logged V)) (m : Metadata V) (h : History log m) :
    CasSound log ↔ ¬ Recreated log :=
  ⟨h.not_recreated, fun hnot => (h.sound hnot).1⟩

end Soundness

/-! ### A key that is created again -/

/-- A history without faults. -/
def ran : List (Logged V) × Metadata V → List (Call V) → List (Logged V) × Metadata V
  | s, [] => s
  | (log, m), c :: rest => ran (log ++ [(m.call none c).1], (m.call none c).2) rest

theorem History.ran {log : List (Logged V)} {m : Metadata V} (h : History log m)
    (cs : List (Call V)) : History (Metadata.ran (log, m) cs).1 (Metadata.ran (log, m) cs).2 := by
  induction cs generalizing log m with
  | nil => exact h
  | cons c rest ih => exact ih (h.next none c)

/-- Two writes, the second one on the generation the first one was given. -/
theorem cas_sound_iff_overwrite :
    CasSound [.put "key" 0 .createOnly (.ok 1), .put "key" 1 (.generation 1) (.ok 2)] := by
  have h : History [.put "key" 0 .createOnly (.ok 1), .put "key" 1 (.generation 1) (.ok 2)] _ :=
    History.new.ran [.put "key" 0 .createOnly, .put "key" 1 (.generation 1)]
  refine (cas_sound_iff _ _ h).mpr ?_
  rintro ⟨before, x, between, y, after, key, hlog, hdel, -⟩
  have hx : x ∈ before ++ x :: (between ++ y :: after) := by simp
  rw [← hlog] at hx
  rcases List.mem_cons.mp hx with rfl | hx
  · exact hdel
  · rw [List.mem_singleton.mp hx] at hdel
    exact hdel

/-- One client is given generation 1, another deletes the key and creates it again, and is
given generation 1 too; the first client's write on its generation goes through. -/
theorem cas_unsound :
    ∃ m, History [.put "key" 0 .createOnly (.ok 1), .delete "key" .unconditional (.ok ()),
        .put "key" 1 .createOnly (.ok 1), .put "key" 2 (.generation 1) (.ok 2)] m ∧
      ¬ CasSound [.put "key" 0 .createOnly (.ok 1), .delete "key" .unconditional (.ok ()),
        .put "key" 1 .createOnly (.ok 1), .put "key" 2 (.generation 1) (.ok 2)] := by
  refine ⟨_, History.new.ran [.put "key" 0 .createOnly, .delete "key" .unconditional,
    .put "key" 1 .createOnly, .put "key" 2 (.generation 1)], fun h => ?_⟩
  have hbetween := h.swaps [] _ [.delete "key" .unconditional (.ok ()),
    .put "key" 1 .createOnly (.ok 1)] _ [] "key" 1 rfl ⟨rfl, rfl⟩ ⟨rfl, rfl⟩
  exact (hbetween _ (List.mem_cons_self)).2 rfl

end Metadata
end Orchestrator.Services
