import Orchestrator.Fakes.SlotView
import Orchestrator.Lib.Collections
import Orchestrator.Simstate.Journal

/-! # Simstate — World

The four journaled services over one journal. A call holds its service's lock while it appends
its operation, applies it and appends the digest of the response; the journal's own lock is
held for one frame at a time, so frames of different services interleave. A kill may fall
between any two of these steps or inside a frame.

* `Books.replay`: re-invoking journaled operations passes every digest check.
* `Directory.reload_rebuilds`: along every run in which the first frame gets written and no
  record is too long, a reload gives each service the state its journaled operations lead to.
* `Directory.headerless_world`: a kill inside the very first frame makes a later reload fail.
-/

namespace Orchestrator.Simstate

open Lib
open Lib.Framing

inductive Service where
  | hypervisor | scorer | store | synth
deriving DecidableEq, Repr

/-- The four fakes, each a deterministic machine: its requests, its responses and its state up
to the watch cursor and the fault smallWorld. A second session reclaim finds no slot. -/
structure Fakes where
  Request : Service → Type
  Response : Service → Type
  State : Service → Type
  fresh : (s : Service) → State s
  invoke : (s : Service) → Request s → State s → Response s × State s
  reclaimSession : State .hypervisor → State .hypervisor
  /-- `digest_response` -/
  digest : (s : Service) → Response s → Nat
  reclaim_reclaim : ∀ st, reclaimSession (reclaimSession st) = reclaimSession st

namespace Fakes

variable (fakes : Fakes)

abbrev World := (s : Service) → fakes.State s

abbrev Call := (s : Service) × fakes.Request s

/-- A session reclaim concerns the hypervisor only. -/
def reclaimAt : (s : Service) → fakes.State s → fakes.State s
  | .hypervisor => fakes.reclaimSession
  | .scorer | .store | .synth => id

@[simp] theorem reclaimAt_reclaimAt (s : Service) (st : fakes.State s) :
    fakes.reclaimAt s (fakes.reclaimAt s st) = fakes.reclaimAt s st := by
  cases s with
  | hypervisor => exact fakes.reclaim_reclaim st
  | scorer | store | synth => rfl

/-- The digest of the response to a call made in a world. -/
def answer (w : fakes.World) (call : fakes.Call) : Nat :=
  fakes.digest call.1 (fakes.invoke call.1 call.2 (w call.1)).1

/-! ### Reloading -/

inductive ReloadPanic where
  | load (e : LoadPanic)
  /-- "replay digest mismatch" -/
  | digestMismatch (opId : Nat)
deriving DecidableEq, Repr

/-- What re-invoking a record does to the services. -/
def effect (w : fakes.World) : JournalRecord fakes.Call → fakes.World
  | .header _ | .applied _ _ => w
  | .reclaimSession _ => fun s => fakes.reclaimAt s (w s)
  | .op _ call =>
    Function.update w call.1 (fakes.invoke call.1 call.2 (w call.1)).2

/-- A record is re-invoked, and the response compared with the digest noted for it, if any. -/
def replayRecord (applied : Nat → Option Nat) (w : fakes.World) (r : JournalRecord fakes.Call) :
    Except ReloadPanic fakes.World :=
  match r with
  | .op opId call => match applied opId with
    | some expected =>
      if fakes.answer w call = expected then .ok (fakes.effect w r)
      else .error (.digestMismatch opId)
    | none => .ok (fakes.effect w r)
  | _ => .ok (fakes.effect w r)

def appliedDigest {Op : Type} : JournalRecord Op → Option (Nat × Nat)
  | .applied opId digest => some (opId, digest)
  | _ => none

/-- The digest noted for an operation: the last one, as in a map built in order. -/
def appliedOf {Op : Type} (records : List (JournalRecord Op)) (opId : Nat) : Option Nat :=
  (records.filterMap appliedDigest).reverse.lookup opId

def maxOpId {Op : Type} (records : List (JournalRecord Op)) : Nat :=
  records.foldl (fun most r => max most (r.opId?.getD 0)) 0

/-- The services a reload returns, and the operation id its session reclaim is journaled under. -/
structure Reloaded where
  world : fakes.World
  opId : Nat
  file : List UInt8
  stats : LoadStats

variable {fakes} in
/-- `reload_inner` up to the append of the session reclaim. -/
def reload (codec : Codec fakes.Call) (bytes : List UInt8) :
    Except ReloadPanic fakes.Reloaded :=
  match load codec bytes with
  | .error e => .error (.load e)
  | .ok loaded =>
    match loaded.records.foldlM (fakes.replayRecord (appliedOf loaded.records)) fakes.fresh with
    | .error e => .error e
    | .ok world => .ok
        { world := fun s => fakes.reclaimAt s (world s)
          opId := maxOpId loaded.records + 1
          file := loaded.file
          stats := loaded.stats }

/-! ### The running services -/

/-- How far a service's current call has come. -/
inductive Phase (s : Service) where
  | idle
  /-- The operation is in the journal and not yet applied. -/
  | journaled (opId : Nat) (request : fakes.Request s)
  /-- It is applied and its digest not yet in the journal. -/
  | applied (opId digest : Nat)

/-- What is being appended, and for whom. -/
inductive Entry where
  | header
  | reclaim (opId : Nat)
  | op (opId : Nat) (call : fakes.Call)
  | applied (s : Service) (opId digest : Nat)

variable {fakes} in
def Entry.record : fakes.Entry → JournalRecord fakes.Call
  | .header => .first
  | .reclaim opId => .reclaimSession opId
  | .op opId call => .op opId call
  | .applied _ opId digest => .applied opId digest

/-- A running process; `pen` is the frame being written and what is left of it. -/
structure Live where
  nextOpId : Nat
  world : fakes.World
  phase : (s : Service) → fakes.Phase s
  pen : Option (fakes.Entry × List UInt8)

/-- What was done to a service. -/
inductive Deed (s : Service) where
  | invoke (request : fakes.Request s)
  | reclaim

variable {fakes} in
def perform {s : Service} (st : fakes.State s) : fakes.Deed s → fakes.State s
  | .invoke request => (fakes.invoke s request st).2
  | .reclaim => fakes.reclaimAt s st

variable {fakes} in
/-- The state that deeds lead to from a fresh fake. -/
def performed {s : Service} (deeds : List (fakes.Deed s)) : fakes.State s :=
  deeds.foldl perform (fakes.fresh s)

variable {fakes} in
/-- The operation of a call that is journaled and not applied. -/
def Phase.unapplied {s : Service} : fakes.Phase s → List (fakes.Deed s)
  | .journaled _ request => [.invoke request]
  | _ => []

/-- A reload reclaims the hypervisor's sessions. -/
def reclaimDeed : (s : Service) → List (fakes.Deed s)
  | .hypervisor => [.reclaim]
  | .scorer | .store | .synth => []

/-- A state directory with the process that runs over it; `deeds` is the history of each
service, in the order its operations were applied, over all incarnations. An operation that a
kill left journaled and not applied counts as its service's last. -/
structure Directory where
  file : Option (List UInt8)
  live : Option fakes.Live
  deeds : (s : Service) → List (fakes.Deed s)

def Directory.empty : fakes.Directory := ⟨none, none, fun _ => []⟩

variable {fakes}

/-- The last byte of a frame releases the journal. -/
def Live.release (l : fakes.Live) : fakes.Entry → fakes.Live
  | .op opId call =>
    { l with pen := none, phase := Function.update l.phase call.1 (.journaled opId call.2) }
  | .applied s _ _ => { l with pen := none, phase := Function.update l.phase s .idle }
  | .header | .reclaim _ => { l with pen := none }

/-- `write_frame` panics on a payload whose length does not fit 32 bits. -/
def Writable (codec : Codec fakes.Call) (e : fakes.Entry) : Prop :=
  (codec.encode e.record).length < 2 ^ 32

/-- One step of the process over a state directory. A reload that panics is not a step:
`reload_rebuilds` speaks of the state before. -/
inductive Step (codec : Codec fakes.Call) : fakes.Directory → fakes.Directory → Prop where
  | create {deeds} :
      Step codec ⟨none, none, deeds⟩
        ⟨some [], some ⟨1, fakes.fresh, fun _ => .idle, some (.header, codec.format.frame .first)⟩,
          deeds⟩
  | reload {file deeds r} (h : reload codec file = .ok r)
      (hw : Writable codec (.reclaim r.opId)) :
      Step codec ⟨some file, none, deeds⟩
        ⟨some r.file, some ⟨r.opId + 1, r.world, fun _ => .idle,
            some (.reclaim r.opId, codec.format.frame (.reclaimSession r.opId))⟩,
          fun s => deeds s ++ fakes.reclaimDeed s⟩
  /-- A client's call gets its service's lock and the journal's. -/
  | call {file deeds n world phase c} (h : phase c.1 = .idle) (hw : Writable codec (.op n c)) :
      Step codec ⟨some file, some ⟨n, world, phase, none⟩, deeds⟩
        ⟨some file, some ⟨n + 1, world, phase, some (.op n c, codec.format.frame (.op n c))⟩,
          deeds⟩
  | write {file deeds n world phase e b pending} (h : pending ≠ []) :
      Step codec ⟨some file, some ⟨n, world, phase, some (e, b :: pending)⟩, deeds⟩
        ⟨some (file ++ [b]), some ⟨n, world, phase, some (e, pending)⟩, deeds⟩
  | finish {file deeds n world phase e b} :
      Step codec ⟨some file, some ⟨n, world, phase, some (e, [b])⟩, deeds⟩
        ⟨some (file ++ [b]), some (Live.release ⟨n, world, phase, none⟩ e), deeds⟩
  | apply {file deeds n world phase pen s opId request} (h : phase s = .journaled opId request) :
      Step codec ⟨file, some ⟨n, world, phase, pen⟩, deeds⟩
        ⟨file, some ⟨n, Function.update world s (fakes.invoke s request (world s)).2,
            Function.update phase s (.applied opId (fakes.answer world ⟨s, request⟩)), pen⟩,
          Function.update deeds s (deeds s ++ [.invoke request])⟩
  /-- The call begins the frame with its response's digest. -/
  | note {file deeds n world phase s opId digest} (h : phase s = .applied opId digest)
      (hw : Writable codec (.applied s opId digest)) :
      Step codec ⟨some file, some ⟨n, world, phase, none⟩, deeds⟩
        ⟨some file, some ⟨n, world, phase,
          some (.applied s opId digest, codec.format.frame (.applied opId digest))⟩, deeds⟩
  | kill {file l deeds} :
      Step codec ⟨file, some l, deeds⟩
        ⟨file, none, fun s => deeds s ++ (l.phase s).unapplied⟩

/-- The step begins no record longer than a load accepts, and no kill leaves the header frame
incomplete. -/
def Careful (codec : Codec fakes.Call) (d d' : fakes.Directory) : Prop :=
  (∀ l ∈ d'.live, ∀ p ∈ l.pen, (codec.encode p.1.record).length ≤ maxFrameLen) ∧
  (d'.live = none → ∀ file ∈ d.file, (codec.format.frame .first).length ≤ file.length)

/-! ### What a journal says -/

/-- The services after the records are re-invoked. -/
def stateAfter (records : List (JournalRecord fakes.Call)) : fakes.World :=
  records.foldl fakes.effect fakes.fresh

@[simp] theorem stateAfter_concat (records : List (JournalRecord fakes.Call))
    (r : JournalRecord fakes.Call) :
    stateAfter (records ++ [r]) = fakes.effect (stateAfter records) r := by
  simp [stateAfter]

variable {s : Service} {digest : Nat} {r : JournalRecord fakes.Call}

@[simp] theorem performed_concat (deeds : List (fakes.Deed s)) (x : fakes.Deed s) :
    performed (deeds ++ [x]) = perform (performed deeds) x := by
  simp [performed]

@[simp] theorem performed_reclaimDeed (s : Service) (deeds : List (fakes.Deed s)) :
    performed (deeds ++ fakes.reclaimDeed s) = fakes.reclaimAt s (performed deeds) := by
  cases s with
  | hypervisor => exact performed_concat deeds .reclaim
  | scorer | store | synth => simp [reclaimDeed, reclaimAt]

/-- The digest is that of the response the journaled operation gets when it is re-invoked. -/
def Justified (records : List (JournalRecord fakes.Call)) (opId digest : Nat) : Prop :=
  ∃ before call after, records = before ++ .op opId call :: after ∧
    digest = fakes.answer (stateAfter before) call

variable {opId : Nat}

theorem Justified.concat {records : List (JournalRecord fakes.Call)}
    (h : Justified records opId digest) (r : JournalRecord fakes.Call) :
    Justified (records ++ [r]) opId digest := by
  obtain ⟨before, call, after, rfl, hdigest⟩ := h
  exact ⟨before, call, after ++ [r], by simp, hdigest⟩

/-- The id of a journaled call. -/
def callId {Op : Type} : JournalRecord Op → Option Nat
  | .op opId _ => some opId
  | _ => none

/-- The records of a journal: the header first, one operation to an id, every digest
justified. -/
structure Books (codec : Codec fakes.Call) (records : List (JournalRecord fakes.Call)) :
    Prop where
  fits : ∀ r ∈ records, codec.format.Fits r
  first : records.head? = some .first
  justified : ∀ opId digest, .applied opId digest ∈ records → Justified records opId digest
  distinct : (records.filterMap callId).Nodup

variable {codec : Codec fakes.Call} {records : List (JournalRecord fakes.Call)}

theorem mem_of_appliedOf (h : appliedOf records opId = some digest) :
    .applied opId digest ∈ records := by
  obtain ⟨l₁, l₂, hl, -⟩ := List.lookup_eq_some_iff.mp h
  have hmem : (opId, digest) ∈ records.filterMap appliedDigest := by
    rw [← List.mem_reverse, hl]
    simp
  obtain ⟨r, hr, hsome⟩ := List.mem_filterMap.mp hmem
  cases r with
  | applied opId' digest' =>
    cases hsome
    exact hr
  | header | reclaimSession | op => cases hsome

/-- **Re-invoking journaled operations passes every digest check**, from any point on. -/
theorem Books.replay (h : Books codec records) {before rest : List (JournalRecord fakes.Call)}
    (hsplit : records = before ++ rest) :
    rest.foldlM (fakes.replayRecord (appliedOf records)) (stateAfter before) =
      .ok (stateAfter records) := by
  induction rest generalizing before with
  | nil =>
    rw [List.append_nil] at hsplit
    rw [hsplit]
    rfl
  | cons r rest ih =>
    have hrecord : fakes.replayRecord (appliedOf records) (stateAfter before) r =
        .ok (stateAfter (before ++ [r])) := by
      rw [stateAfter_concat]
      cases r with
      | header | applied | reclaimSession => rfl
      | op opId call =>
        cases happlied : appliedOf records opId with
        | none => simp [replayRecord, happlied]
        | some expected =>
          obtain ⟨before', call', after, hsplit', hexpected⟩ :=
            h.justified _ _ (mem_of_appliedOf happlied)
          -- The operation the digest belongs to is this one, since its id is taken once.
          obtain ⟨rfl, hcall⟩ := split_unique_of_nodup h.distinct rfl rfl hsplit' hsplit
          cases hcall
          simp [replayRecord, happlied, hexpected]
    rw [List.foldlM_cons, hrecord]
    exact ih (by simpa using hsplit)

theorem le_maxOpId (hr : r ∈ records) (hid : r.opId? = some opId) : opId ≤ maxOpId records := by
  have hgrows : ∀ (l : List (JournalRecord fakes.Call)) (most : Nat),
      most ≤ l.foldl (fun most r => max most (r.opId?.getD 0)) most := by
    intro l
    induction l with
    | nil => exact fun _ => Nat.le_refl _
    | cons r l ih => exact fun most => Nat.le_trans (Nat.le_max_left _ _) (ih _)
  obtain ⟨l₁, l₂, rfl⟩ := List.append_of_mem hr
  unfold maxOpId
  rw [List.foldl_append, List.foldl_cons, hid]
  exact Nat.le_trans (Nat.le_max_right _ _) (hgrows l₂ _)

/-- A reload of whole frames and a cut one. -/
theorem Books.reload (h : Books codec records) {tail : List UInt8}
    (htail : tail = [] ∨ codec.format.Cut tail) :
    Fakes.reload codec (codec.format.frames records ++ tail) = .ok
      { world := fun s => fakes.reclaimAt s (stateAfter records s)
        opId := maxOpId records + 1
        file := codec.format.frames records
        stats := ⟨records.length, tail.length⟩ } := by
  have hfirst : ∀ r ∈ records.head?, r = .first := by simp [h.first]
  have hreplay : records.foldlM (fakes.replayRecord (appliedOf records)) fakes.fresh = _ :=
    h.replay (List.nil_append records).symm
  rw [Fakes.reload, load_frames h.fits hfirst htail]
  dsimp only
  rw [hreplay]

/-- A reload of a journal whose header frame is incomplete. -/
theorem reload_heading {part pending : List UInt8} (hpending : pending ≠ [])
    (h : part ++ pending = codec.format.frame .first) :
    Fakes.reload codec part = .ok
      { world := fun s => fakes.reclaimAt s (fakes.fresh s)
        opId := 1
        file := []
        stats := ⟨0, part.length⟩ } := by
  have hnone : ∀ r ∈ ([] : List (JournalRecord fakes.Call)), codec.format.Fits r := nofun
  have hload := load_frames hnone (by simp) (.inr ⟨_, _, first_fits codec, hpending, h⟩)
  rw [Format.frames_nil, List.nil_append] at hload
  rw [Fakes.reload, hload]
  rfl

theorem Books.concat (h : Books codec records) (hfits : codec.format.Fits r)
    (hfresh : ∀ opId ∈ callId r, opId ∉ records.filterMap callId)
    (hjust : ∀ opId digest, r = .applied opId digest → Justified records opId digest) :
    Books codec (records ++ [r]) where
  fits := by
    intro r' hr'
    rcases List.mem_append.mp hr' with hmem | hmem
    · exact h.fits r' hmem
    · exact List.mem_singleton.mp hmem ▸ hfits
  first := by
    rw [List.head?_append, h.first]
    rfl
  justified := by
    intro opId digest hmem
    rcases List.mem_append.mp hmem with hmem | hmem
    · exact (h.justified opId digest hmem).concat r
    · exact (hjust opId digest (List.mem_singleton.mp hmem).symm).concat r
  distinct := by
    rw [List.filterMap_append]
    cases hid : callId r with
    | none => simpa [hid] using h.distinct
    | some opId =>
      rw [List.filterMap_cons_some hid, List.filterMap_nil]
      rw [List.nodup_append]
      refine ⟨h.distinct, List.nodup_singleton _, ?_⟩
      rintro id hmem _ hid' rfl
      exact hfresh opId hid (List.mem_singleton.mp hid' ▸ hmem)

/-! ### The process and its journal -/

/-- What the journal holds of a call in progress: the operation, with the state it is applied
to, and then the justification of its digest. -/
def Phase.Noted (records : List (JournalRecord fakes.Call)) (world : fakes.World) {s : Service} :
    fakes.Phase s → Prop
  | .idle => True
  | .journaled opId request => ∃ before after,
      records = before ++ .op opId ⟨s, request⟩ :: after ∧ stateAfter before s = world s
  | .applied opId digest => Justified records opId digest

theorem Phase.Noted.concat {world : fakes.World} {phase : fakes.Phase s}
    (h : phase.Noted records world) (r : JournalRecord fakes.Call) :
    phase.Noted (records ++ [r]) world := by
  cases phase with
  | idle => trivial
  | journaled opId request =>
    obtain ⟨before, after, rfl, hstate⟩ := h
    exact ⟨before, after ++ [r], by simp, hstate⟩
  | applied opId digest => exact Justified.concat h r

/-- The whole records of the journal against the memory of the process and the history. -/
structure Kept (codec : Codec fakes.Call) (records : List (JournalRecord fakes.Call))
    (n : Nat) (world : fakes.World) (phase : (s : Service) → fakes.Phase s)
    (deeds : (s : Service) → List (fakes.Deed s)) : Prop where
  books : Books codec records
  ids : ∀ r ∈ records, ∀ opId, r.opId? = some opId → opId < n
  memory : ∀ s, world s = performed (deeds s)
  noted : ∀ s, (phase s).Noted records world

/-- The journal leads to the history, with the operations that are still to be applied. -/
def Settled (records : List (JournalRecord fakes.Call)) (phase : (s : Service) → fakes.Phase s)
    (deeds : (s : Service) → List (fakes.Deed s)) : Prop :=
  ∀ s, stateAfter records s = performed (deeds s ++ (phase s).unapplied)

/-- What holds of an entry while it is written. -/
def Entry.Sound (records : List (JournalRecord fakes.Call)) (n : Nat)
    (phase : (s : Service) → fakes.Phase s) (deeds : (s : Service) → List (fakes.Deed s)) :
    fakes.Entry → Prop
  | .header => False
  | .reclaim opId => opId < n ∧ (∀ s, phase s = .idle) ∧
      ∀ s, fakes.reclaimAt s (stateAfter records s) = performed (deeds s)
  | .op opId call => opId < n ∧ opId ∉ records.filterMap callId ∧ phase call.1 = .idle ∧
      Settled records phase deeds
  | .applied s opId digest => phase s = .applied opId digest ∧ Settled records phase deeds

/-- The states of a directory along a careful run. -/
inductive Directory.Sound (codec : Codec fakes.Call) : fakes.Directory → Prop where
  | absent : Sound codec (Directory.empty fakes)
  | heading {part pending : List UInt8} (h : part ++ pending = codec.format.frame .first)
      (hpending : pending ≠ []) :
      Sound codec ⟨some part, some ⟨1, fakes.fresh, fun _ => .idle, some (.header, pending)⟩,
        fun _ => []⟩
  | quiet {records n world phase deeds} (hkept : Kept codec records n world phase deeds)
      (hsettled : Settled records phase deeds) :
      Sound codec ⟨some (codec.format.frames records), some ⟨n, world, phase, none⟩, deeds⟩
  | writing {records n world phase deeds e} {part pending : List UInt8}
      (hkept : Kept codec records n world phase deeds) (he : e.Sound records n phase deeds)
      (hfits : codec.format.Fits e.record) (h : part ++ pending = codec.format.frame e.record)
      (hpending : pending ≠ []) :
      Sound codec ⟨some (codec.format.frames records ++ part),
        some ⟨n, world, phase, some (e, pending)⟩, deeds⟩
  | dead {records deeds} {tail : List UInt8} (hbooks : Books codec records)
      (htail : tail = [] ∨ codec.format.Cut tail)
      (h : ∀ s, fakes.reclaimAt s (stateAfter records s) =
        fakes.reclaimAt s (performed (deeds s))) :
      Sound codec ⟨some (codec.format.frames records ++ tail), none, deeds⟩

section Steps

variable {n : Nat} {world : fakes.World} {phase : (s : Service) → fakes.Phase s}
  {deeds : (s : Service) → List (fakes.Deed s)}

theorem ids_concat {r : JournalRecord fakes.Call}
    (h : ∀ r ∈ records, ∀ opId, r.opId? = some opId → opId < n)
    (hr : ∀ opId, r.opId? = some opId → opId < n) :
    ∀ r' ∈ records ++ [r], ∀ opId, r'.opId? = some opId → opId < n := by
  intro r' hr'
  rcases List.mem_append.mp hr' with hmem | hmem
  · exact h r' hmem
  · exact List.mem_singleton.mp hmem ▸ hr

variable {opId digest : Nat}

/-- An operation whose frame is whole waits to be applied. -/
theorem Kept.op {call : fakes.Call} (h : Kept codec records n world phase deeds)
    (he : (Entry.op opId call).Sound records n phase deeds)
    (hfits : codec.format.Fits (.op opId call)) :
    Kept codec (records ++ [.op opId call]) n world
        (Function.update phase call.1 (.journaled opId call.2)) deeds ∧
      Settled (records ++ [.op opId call])
        (Function.update phase call.1 (.journaled opId call.2)) deeds := by
  obtain ⟨hlt, hfresh, hidle, hsettled⟩ := he
  have hstate : stateAfter records call.1 = performed (deeds call.1) := by
    rw [hsettled, hidle]
    simp [Phase.unapplied]
  refine ⟨⟨?_, ?_, h.memory, ?_⟩, ?_⟩
  · refine h.books.concat hfits ?_ nofun
    intro id hid
    cases hid
    exact hfresh
  · refine ids_concat h.ids ?_
    rintro _ ⟨rfl⟩
    exact hlt
  · intro s
    by_cases hs : s = call.1
    · subst hs
      rw [Function.update_self]
      exact ⟨records, [], rfl, by rw [hstate, h.memory]⟩
    · rw [Function.update_of_ne hs]
      exact (h.noted s).concat _
  · intro s
    rw [stateAfter_concat, effect]
    by_cases hs : s = call.1
    · subst hs
      rw [Function.update_self, Function.update_self, hstate]
      exact (performed_concat (deeds call.1) (.invoke call.2)).symm
    · rw [Function.update_of_ne hs, Function.update_of_ne hs]
      exact hsettled s

/-- A digest whose frame is whole ends its call. -/
theorem Kept.applied {s : Service} (h : Kept codec records n world phase deeds)
    (he : (Entry.applied s opId digest).Sound records n phase deeds)
    (hfits : codec.format.Fits (.applied opId digest)) :
    Kept codec (records ++ [.applied opId digest]) n world
        (Function.update phase s .idle) deeds ∧
      Settled (records ++ [.applied opId digest]) (Function.update phase s .idle) deeds := by
  obtain ⟨hphase, hsettled⟩ := he
  have hjust : Justified records opId digest := by
    have := h.noted s
    rwa [hphase] at this
  have hlt : opId < n := by
    obtain ⟨before, call, after, hsplit, -⟩ := hjust
    exact h.ids (.op opId call) (by rw [hsplit]; simp) opId rfl
  refine ⟨⟨?_, ?_, h.memory, ?_⟩, ?_⟩
  · refine h.books.concat hfits nofun ?_
    rintro _ _ ⟨rfl, rfl⟩
    exact hjust
  · refine ids_concat h.ids ?_
    rintro _ ⟨rfl⟩
    exact hlt
  · intro s'
    by_cases hs : s' = s
    · subst hs
      rw [Function.update_self]
      trivial
    · rw [Function.update_of_ne hs]
      exact (h.noted s').concat _
  · intro s'
    rw [stateAfter_concat]
    by_cases hs : s' = s
    · subst hs
      have := hsettled s'
      rw [hphase] at this
      rw [Function.update_self]
      exact this
    · rw [Function.update_of_ne hs]
      exact hsettled s'

/-- The reclaim of a reload whose frame is whole. -/
theorem Kept.reclaim (h : Kept codec records n world phase deeds)
    (he : (Entry.reclaim opId : fakes.Entry).Sound records n phase deeds)
    (hfits : codec.format.Fits (.reclaimSession opId)) :
    Kept codec (records ++ [.reclaimSession opId]) n world phase deeds ∧
      Settled (records ++ [.reclaimSession opId]) phase deeds := by
  obtain ⟨hlt, hidle, hstate⟩ := he
  refine ⟨⟨h.books.concat hfits nofun nofun, ?_, h.memory, fun s => (h.noted s).concat _⟩, ?_⟩
  · refine ids_concat h.ids ?_
    rintro _ ⟨rfl⟩
    exact hlt
  · intro s
    rw [stateAfter_concat, hidle s]
    simpa [Phase.unapplied, effect] using hstate s

/-- A journaled operation is applied to the state that the journal leads to before it. -/
theorem Kept.apply {s : Service} {request : fakes.Request s}
    (h : Kept codec records n world phase deeds) (hphase : phase s = .journaled opId request) :
    Kept codec records n (Function.update world s (fakes.invoke s request (world s)).2)
      (Function.update phase s (.applied opId (fakes.answer world ⟨s, request⟩)))
      (Function.update deeds s (deeds s ++ [.invoke request])) := by
  refine ⟨h.books, h.ids, ?_, ?_⟩
  · intro s'
    by_cases hs : s' = s
    · subst hs
      rw [Function.update_self, Function.update_self, performed_concat, ← h.memory]
      rfl
    · rw [Function.update_of_ne hs, Function.update_of_ne hs]
      exact h.memory s'
  · intro s'
    by_cases hs : s' = s
    · subst hs
      have hnoted := h.noted s'
      rw [hphase] at hnoted
      obtain ⟨before, after, hsplit, hstate⟩ := hnoted
      rw [Function.update_self]
      refine ⟨before, ⟨s', request⟩, after, hsplit, ?_⟩
      simp only [answer]
      rw [hstate]
    · rw [Function.update_of_ne hs]
      have hnoted := h.noted s'
      cases hp : phase s' with
      | idle => trivial
      | journaled opId' request' =>
        rw [hp] at hnoted
        obtain ⟨before, after, hsplit, hstate⟩ := hnoted
        exact ⟨before, after, hsplit, by rw [Function.update_of_ne hs]; exact hstate⟩
      | applied opId' digest' =>
        rw [hp] at hnoted
        exact hnoted

theorem Settled.apply {s : Service} {request : fakes.Request s} (h : Settled records phase deeds)
    (hphase : phase s = .journaled opId request) :
    Settled records (Function.update phase s (.applied opId digest))
      (Function.update deeds s (deeds s ++ [.invoke request])) := by
  intro s'
  by_cases hs : s' = s
  · subst hs
    have := h s'
    rw [hphase] at this
    rw [Function.update_self, Function.update_self]
    simpa [Phase.unapplied] using this
  · rw [Function.update_of_ne hs, Function.update_of_ne hs]
    exact h s'

variable {e : fakes.Entry}

/-- Applying an operation of one service leaves what another is writing as it was. -/
theorem Entry.Sound.apply {s : Service} {request : fakes.Request s}
    (he : e.Sound records n phase deeds) (hphase : phase s = .journaled opId request) :
    e.Sound records n (Function.update phase s (.applied opId digest))
      (Function.update deeds s (deeds s ++ [.invoke request])) := by
  cases e with
  | header => exact he
  | reclaim opId' =>
    have := he.2.1 s
    rw [hphase] at this
    cases this
  | op opId' call =>
    obtain ⟨hlt, hfresh, hidle, hsettled⟩ := he
    refine ⟨hlt, hfresh, ?_, hsettled.apply hphase⟩
    rw [Function.update_of_ne]
    · exact hidle
    · rintro rfl
      rw [hphase] at hidle
      cases hidle
  | applied s' opId' digest' =>
    obtain ⟨happlied, hsettled⟩ := he
    refine ⟨?_, hsettled.apply hphase⟩
    rw [Function.update_of_ne]
    · exact happlied
    · rintro rfl
      rw [hphase] at happlied
      cases happlied

/-- A kill keeps what the journal leads to, once the next reload reclaims the sessions. -/
theorem Entry.Sound.kill (he : e.Sound records n phase deeds) (s : Service) :
    fakes.reclaimAt s (stateAfter records s) =
      fakes.reclaimAt s (performed (deeds s ++ (phase s).unapplied)) := by
  cases e with
  | header => exact he.elim
  | reclaim opId =>
    obtain ⟨-, hidle, hstate⟩ := he
    -- The reclaim of this reload may be lost: the next one does it again.
    rw [hidle s]
    simp only [Phase.unapplied, List.append_nil]
    rw [← hstate s, reclaimAt_reclaimAt]
  | op opId call => rw [he.2.2.2 s]
  | applied s' opId digest => rw [he.2 s]

end Steps

namespace Directory

variable {d d' : fakes.Directory}

variable {n : Nat} {world : fakes.World} {phase : (s : Service) → fakes.Phase s}
  {deeds : (s : Service) → List (fakes.Deed s)}

variable {e : fakes.Entry} {file : List UInt8}

/-- The last byte of an entry makes its frame whole. -/
theorem Sound.release (hkept : Kept codec records n world phase deeds)
    (he : e.Sound records n phase deeds) (hfits : codec.format.Fits e.record) :
    Sound codec ⟨some (codec.format.frames (records ++ [e.record])),
      some (Live.release ⟨n, world, phase, none⟩ e), deeds⟩ := by
  cases e with
  | header => exact he.elim
  | reclaim opId => exact .quiet (hkept.reclaim he hfits).1 (hkept.reclaim he hfits).2
  | op opId call => exact .quiet (hkept.op he hfits).1 (hkept.op he hfits).2
  | applied s opId digest => exact .quiet (hkept.applied he hfits).1 (hkept.applied he hfits).2

/-- A frame begins with nothing of it in the file. -/
theorem Sound.begins (e : fakes.Entry) (hkept : Kept codec records n world phase deeds)
    (he : e.Sound records n phase deeds) (hfits : codec.format.Fits e.record) :
    Sound codec ⟨some (codec.format.frames records),
      some ⟨n, world, phase, some (e, codec.format.frame e.record)⟩, deeds⟩ := by
  have hwriting := Sound.writing hkept he hfits (List.nil_append _) (Format.frame_ne_nil _)
  rwa [List.append_nil] at hwriting

theorem Sound.step (h : d.Sound codec) (hs : Step codec d d') (hc : Careful codec d d') :
    d'.Sound codec := by
  cases h with
  | absent =>
    cases hs with
    | create => exact .heading (List.nil_append _) (Format.frame_ne_nil _)
  | @heading part pending h hpending =>
    cases hs with
    | write hmore =>
      refine .heading ?_ hmore
      rw [List.append_assoc]
      exact h
    | finish =>
      -- The header frame is whole: the journal has its first record and nothing happened yet.
      rename_i b
      have hframes : part ++ [b] = codec.format.frames [.first] := by
        rw [h, Format.frames_cons, Format.frames_nil, List.append_nil]
      rw [hframes]
      have hbooks : Books codec [.first] := by
        refine ⟨?_, rfl, ?_, List.nodup_nil⟩
        · exact fun r hr => List.mem_singleton.mp hr ▸ first_fits codec
        · intro opId digest hmem
          cases List.mem_singleton.mp hmem
      refine .quiet ⟨hbooks, ?_, fun _ => rfl, fun _ => trivial⟩ fun _ => rfl
      intro r hr opId hid
      cases List.mem_singleton.mp hr
      cases hid
    | apply hphase => cases hphase
    | kill =>
      have hlen := hc.2 rfl part rfl
      rw [← h, List.length_append] at hlen
      have := List.length_pos_iff.mpr hpending
      omega
  | quiet hkept hsettled =>
    cases hs with
    | call hidle hw =>
      have hfits := hc.1 _ rfl _ rfl
      have hnext : Kept codec _ _ _ _ _ :=
        { hkept with ids := fun r hr opId hid => Nat.lt_succ_of_lt (hkept.ids r hr opId hid) }
      refine .begins (.op _ _) hnext ⟨Nat.lt_succ_self _, ?_, hidle, hsettled⟩ hfits
      -- The id is new: those in the journal are smaller.
      intro hmem
      obtain ⟨r, hr, hid⟩ := List.mem_filterMap.mp hmem
      cases r with
      | op opId call =>
        cases hid
        exact Nat.lt_irrefl _ (hkept.ids _ hr _ rfl)
      | header | applied | reclaimSession => cases hid
    | apply hphase => exact .quiet (hkept.apply hphase) (hsettled.apply hphase)
    | note hphase hw =>
      exact .begins (.applied _ _ _) hkept ⟨hphase, hsettled⟩ (hc.1 _ rfl _ rfl)
    | kill =>
      have hdead := Sound.dead hkept.books (.inl (rfl : ([] : List UInt8) = []))
        fun s => congrArg (fakes.reclaimAt s) (hsettled s)
      rwa [List.append_nil] at hdead
  | @writing records n world phase deeds e part pending hkept he hfits h hpending =>
    cases hs with
    | write hmore =>
      rw [List.append_assoc]
      refine .writing hkept he hfits ?_ hmore
      rw [List.append_assoc]
      exact h
    | finish =>
      rename_i b
      have hframes : codec.format.frames (records ++ [e.record]) =
          codec.format.frames records ++ part ++ [b] := by
        rw [Format.frames_append, Format.frames_cons, Format.frames_nil, List.append_nil, ← h,
          List.append_assoc]
      rw [← hframes]
      exact .release hkept he hfits
    | apply hphase => exact .writing (hkept.apply hphase) (he.apply hphase) hfits h hpending
    | kill => exact .dead hkept.books (.inr ⟨_, _, hfits, hpending, h⟩) fun s => he.kill s
  | @dead records deeds tail hbooks htail h =>
    cases hs with
    | reload hreload hw =>
      rw [hbooks.reload htail] at hreload
      cases hreload
      have hfits := hc.1 _ rfl _ rfl
      have hkept : Kept codec records (maxOpId records + 1 + 1)
          (fun s => fakes.reclaimAt s (stateAfter records s)) (fun _ => .idle)
          (fun s => deeds s ++ fakes.reclaimDeed s) := by
        refine ⟨hbooks, ?_, ?_, fun _ => trivial⟩
        · intro r hr opId hid
          have := le_maxOpId hr hid
          omega
        · intro s
          rw [performed_reclaimDeed, h s]
      exact .begins (.reclaim _) hkept
        ⟨Nat.lt_succ_self _, fun _ => rfl, fun s => by rw [performed_reclaimDeed, h s]⟩ hfits

/-- What the journal holds of a service: its history, and the operation that is still to be
applied. -/
def journaled (d : fakes.Directory) (s : Service) : List (fakes.Deed s) :=
  match d.live with
  | some l => d.deeds s ++ (l.phase s).unapplied
  | none => d.deeds s

theorem Sound.reload (h : d.Sound codec) (hfile : d.file = some file) :
    ∃ r, Fakes.reload codec file = .ok r ∧
      ∀ s, r.world s = fakes.reclaimAt s (performed (d.journaled s)) := by
  cases h with
  | absent => cases hfile
  | heading h hpending =>
    cases hfile
    exact ⟨_, reload_heading hpending h, fun _ => rfl⟩
  | quiet hkept hsettled =>
    cases hfile
    have hreload := hkept.books.reload (.inl (rfl : ([] : List UInt8) = []))
    rw [List.append_nil] at hreload
    exact ⟨_, hreload, fun s => congrArg (fakes.reclaimAt s) (hsettled s)⟩
  | writing hkept he hfits h hpending =>
    cases hfile
    exact ⟨_, hkept.books.reload (.inr ⟨_, _, hfits, hpending, h⟩), fun s => he.kill s⟩
  | dead hbooks htail h =>
    cases hfile
    exact ⟨_, hbooks.reload htail, h⟩

/-- **A reload rebuilds the crashed world**: along every run of incarnations, killed anywhere
but inside the very first frame, that appends no record longer than a load accepts, it passes
every digest check and gives each service the state that its fully journaled operations lead
to from a fresh fake, in the order they were applied and with a session reclaim at each
reload. -/
theorem reload_rebuilds (codec : Codec fakes.Call) (d : fakes.Directory)
    (h : Relation.ReflTransGen (fun d d' => Step codec d d' ∧ Careful codec d d')
      (.empty fakes) d) (file : List UInt8) (hfile : d.file = some file) :
    ∃ r, Fakes.reload codec file = .ok r ∧
      ∀ s, r.world s = fakes.reclaimAt s (performed (d.journaled s)) := by
  have hsound : d.Sound codec := by
    clear hfile
    induction h with
    | refl => exact .absent
    | tail _ hstep ih => exact ih.step hstep.1 hstep.2
  exact hsound.reload hfile

/-! ### Runs on a concrete world -/

/-- The rest of a frame is written. -/
theorem runs_finish {C : fakes.Directory → fakes.Directory → Prop} {d₀ : fakes.Directory}
    {pending : List UInt8} (hpending : pending ≠ [])
    (hC : ∀ d d', d'.live.isSome → (∀ l ∈ d'.live, ∀ p ∈ l.pen, p.1 = e) → C d d')
    (h : Relation.ReflTransGen (fun d d' => Step codec d d' ∧ C d d') d₀
      ⟨some file, some ⟨n, world, phase, some (e, pending)⟩, deeds⟩) :
    Relation.ReflTransGen (fun d d' => Step codec d d' ∧ C d d') d₀
      ⟨some (file ++ pending), some (Live.release ⟨n, world, phase, none⟩ e), deeds⟩ := by
  induction pending generalizing file with
  | nil => exact absurd rfl hpending
  | cons b pending ih =>
    by_cases hlast : pending = []
    · subst hlast
      refine h.tail ⟨.finish, hC _ _ rfl ?_⟩
      rintro l ⟨⟩ p hp
      cases e <;> cases hp
    · have hnext := h.tail ⟨.write hlast, hC _ _ rfl ?_⟩
      · have hdone := ih hlast hnext
        rwa [List.append_assoc] at hdone
      · rintro l ⟨⟩ p ⟨⟩
        rfl

/-- The modelled worker, asked for machines, and three smallWorld, asked for their count. On the
states the worker comes to a session reclaim returns (`reclaimSession_ends`). -/
def smallWorld : Fakes where
  Request := fun _ => Unit
  Response := fun _ => Nat
  State
    | .hypervisor => Orchestrator.Fakes.FakeHypervisor Unit
    | .scorer | .store | .synth => Nat
  fresh
    | .hypervisor => .fresh 2
    | .scorer | .store | .synth => (0 : Nat)
  invoke
    | .hypervisor, _, w =>
      let created := w.createVm Orchestrator.Fakes.Session.still ⟨.none, none⟩ [] 0
      (okOr 0 (created.map (·.1.slotId)), w.after created)
    | .scorer, _, count | .store, _, count | .synth, _, count => (count, Nat.succ count)
  reclaimSession := fun w => w.reclaimSession.getD w
  digest := fun _ n => n
  reclaim_reclaim := by
    intro w
    cases h : w.reclaimSession with
    | none => simp [h]
    | some w' => simp [Orchestrator.Fakes.FakeHypervisor.reclaimSession_again h]

def smallCodec : Codec smallWorld.Call :=
  unaryCodec
    (fun
      | ⟨.hypervisor, _⟩ => 0
      | ⟨.scorer, _⟩ => 1
      | ⟨.store, _⟩ => 2
      | ⟨.synth, _⟩ => 3)
    (fun
      | 0 => some ⟨.hypervisor, ()⟩
      | 1 => some ⟨.scorer, ()⟩
      | 2 => some ⟨.store, ()⟩
      | _ => some ⟨.synth, ()⟩)
    (by rintro ⟨s, ⟨⟩⟩; cases s <;> rfl)

/-- A machine is asked for, and the process killed before it is created. After the reload its slot
id is taken and its slot is gone. -/
theorem reload_rebuilds_smallWorld : ∃ file r, Fakes.reload smallCodec file = .ok r ∧
    (r.world .hypervisor).nextSlotId = 2 ∧ (r.world .hypervisor).slots.size = 0 := by
  have hcreated : Relation.ReflTransGen
      (fun d d' => Step smallCodec d d' ∧ Careful smallCodec d d') (.empty smallWorld) _ :=
    .single ⟨.create, fun l hl p hp => by cases hl; cases hp; decide, nofun⟩
  have hheader := runs_finish (Format.frame_ne_nil _) (fun d d' hlive hentry =>
    ⟨fun l hl p hp => by rw [hentry l hl p hp]; decide, fun hnone => by simp [hnone] at hlive⟩)
    hcreated
  have hcalled := hheader.tail ⟨.call (c := ⟨.hypervisor, ()⟩) rfl (by unfold Writable; decide),
    fun l hl p hp => by cases hl; cases hp; decide, nofun⟩
  have hjournaled := runs_finish (Format.frame_ne_nil _) (fun d d' hlive hentry =>
    ⟨fun l hl p hp => by rw [hentry l hl p hp]; decide, fun hnone => by simp [hnone] at hlive⟩)
    hcalled
  have hkilled := hjournaled.tail ⟨.kill, nofun, fun _ file hfile => by cases hfile; decide⟩
  obtain ⟨r, hr, hworld⟩ := reload_rebuilds smallCodec _ hkilled _ rfl
  refine ⟨_, r, hr, ?_⟩
  rw [hworld .hypervisor]
  decide +kernel

/-- **A kill inside the very first frame loses the world**: the next incarnation works on an
empty journal, and the one after it cannot reload. -/
theorem headerless_world : ∃ (d : smallWorld.Directory) (file : List UInt8),
    Relation.ReflTransGen (Step smallCodec) (.empty smallWorld) d ∧ d.file = some file ∧
    Fakes.reload smallCodec file = .error (.load .versionHeader) := by
  have hempty : Fakes.reload smallCodec [] = .ok
      ⟨fun s => smallWorld.reclaimAt s (smallWorld.fresh s), 1, [], ⟨0, 0⟩⟩ := by
    rw [Fakes.reload, load_nil]
    rfl
  have hcreated : Relation.ReflTransGen
      (fun d d' => Step smallCodec d d' ∧ True) (.empty smallWorld) _ :=
    .single ⟨.create, trivial⟩
  have hkilled := hcreated.tail ⟨.kill, trivial⟩
  have hreloaded := hkilled.tail ⟨.reload hempty (by unfold Writable; decide), trivial⟩
  have hwritten := runs_finish (Format.frame_ne_nil _) (fun _ _ _ _ => trivial) hreloaded
  have hruns := Relation.ReflTransGen.mono (p := Step smallCodec) (fun _ _ h => h.1) _ _ hwritten
  refine ⟨_, _, hruns, rfl, ?_⟩
  have hload : load smallCodec (smallCodec.format.frame (.reclaimSession 1)) = _ :=
    load_headerless (by decide) nofun
  rw [List.nil_append, Fakes.reload, hload]

end Directory

end Fakes

end Orchestrator.Simstate
