import Orchestrator.Lib.Framing
import Orchestrator.Lib.Machine

/-! # Simstate — Journal

The operation journal of a state directory: its records, `load`, and the directory over whole
cycles of incarnations that create or reload the journal, append to it and are killed at any
byte.

* `load_cut`: a journal cut anywhere after its header frame loads as the records whose frames
  are whole, and goes on from there.
* `load_reopens`: along every run in which the first frame gets written and no record is too
  long, the next load succeeds.
* `headerless_journal`: a kill inside the very first frame makes the reload after the next one
  fail.
-/

namespace Orchestrator.Simstate

open Lib
open Lib.Framing

/-! ### Records and their frames -/

/-- `JOURNAL_VERSION` -/
def journalVersion : Nat := 1

/-- `MAX_FRAME_LEN` -/
def maxFrameLen : Nat := 64 * 1024 * 1024

/-- A record of the journal; `Op` is a mutating call on one of the services with its request. -/
inductive JournalRecord (Op : Type) where
  | header (version : Nat)
  /-- The digest of the response, advisory. -/
  | applied (opId digest : Nat)
  | reclaimSession (opId : Nat)
  | op (opId : Nat) (call : Op)
deriving DecidableEq, Repr

/-- `JournalRecord::op_id` -/
def JournalRecord.opId? {Op : Type} : JournalRecord Op → Option Nat
  | .header _ => none
  | .applied opId _ => some opId
  | .reclaimSession opId => some opId
  | .op opId _ => some opId

/-- The version header, the first frame of every journal. -/
abbrev JournalRecord.first {Op : Type} : JournalRecord Op := .header journalVersion

def JournalRecord.isFirst {Op : Type} : JournalRecord Op → Bool
  | .header version => version = journalVersion
  | _ => false

@[simp] theorem JournalRecord.isFirst_iff {Op : Type} {r : JournalRecord Op} :
    r.isFirst = true ↔ r = .first := by
  cases r <;> simp [isFirst, first]

/-- An encoding of the records that round-trips, and the checksum of a payload. -/
structure Codec (Op : Type) where
  encode : JournalRecord Op → List UInt8
  decode : List UInt8 → Option (JournalRecord Op)
  truncatedBlake3 : List UInt8 → UInt64
  decode_encode : ∀ r, decode (encode r) = some r
  first_fits : (encode .first).length ≤ maxFrameLen

variable {Op : Type}

/-- The frame format of the journal. -/
def Codec.format (codec : Codec Op) : Format (JournalRecord Op) where
  encode := codec.encode
  decode := codec.decode
  checksum := codec.truncatedBlake3
  maxLen := maxFrameLen
  decode_encode := codec.decode_encode
  maxLen_lt := by decide

/-! ### Loading -/

inductive LoadPanic where
  | scan (e : ScanError)
  /-- "unsupported or missing version header" -/
  | versionHeader
deriving DecidableEq, Repr

structure LoadStats where
  frames : Nat
  truncatedBytes : Nat
deriving DecidableEq, Repr

/-- What `load` returns, and the file it leaves behind. -/
structure Loaded (Op : Type) where
  records : List (JournalRecord Op)
  stats : LoadStats
  file : List UInt8

/-- `Journal::load` -/
def load (codec : Codec Op) (bytes : List UInt8) : Except LoadPanic (Loaded Op) :=
  match codec.format.scan bytes 0 [] with
  | .error e => .error (.scan e)
  | .ok (records, tornAt) =>
    let file := match tornAt with
      | some tornAt => bytes.take tornAt
      | none => bytes
    let stats := ⟨records.length, bytes.length - file.length⟩
    match records with
    | [] => .ok ⟨records, stats, file⟩
    | first :: _ => if first.isFirst then .ok ⟨records, stats, file⟩ else .error .versionHeader

variable {codec : Codec Op}

/-- Loading whole frames and a cut one drops the cut one. -/
theorem load_frames {rs : List (JournalRecord Op)} (hrs : ∀ r ∈ rs, codec.format.Fits r)
    (hfirst : ∀ r ∈ rs.head?, r = .first) {tail : List UInt8}
    (htail : tail = [] ∨ codec.format.Cut tail) :
    load codec (codec.format.frames rs ++ tail) =
      .ok ⟨rs, ⟨rs.length, tail.length⟩, codec.format.frames rs⟩ := by
  have hscan := Format.scan_frames hrs htail [] []
  simp only [List.nil_append, List.length_nil, Nat.zero_add] at hscan
  -- Where the scan stopped is where the whole frames end.
  have hfile : (match (if tail = [] then none else some (codec.format.frames rs).length) with
      | some tornAt => (codec.format.frames rs ++ tail).take tornAt
      | none => codec.format.frames rs ++ tail) = codec.format.frames rs := by
    by_cases hnil : tail = [] <;> simp [hnil]
  unfold load
  rw [hscan]
  dsimp only
  rw [hfile]
  have hlen : (codec.format.frames rs ++ tail).length - (codec.format.frames rs).length =
      tail.length := by simp
  rw [hlen]
  cases rs with
  | nil => rfl
  | cons r rs =>
    have hr : r.isFirst = true := JournalRecord.isFirst_iff.mpr (hfirst r (by simp))
    simp [hr]

theorem load_whole {rs : List (JournalRecord Op)} (hrs : ∀ r ∈ rs, codec.format.Fits r)
    (hfirst : ∀ r ∈ rs.head?, r = .first) :
    load codec (codec.format.frames rs) =
      .ok ⟨rs, ⟨rs.length, 0⟩, codec.format.frames rs⟩ := by
  have h := load_frames hrs hfirst (.inl (rfl : ([] : List UInt8) = []))
  rwa [List.append_nil] at h

theorem load_nil (codec : Codec Op) : load codec [] = .ok ⟨[], ⟨0, 0⟩, []⟩ :=
  (load_whole nofun nofun : load codec (codec.format.frames []) = _)

/-- A journal that begins with another record is refused. -/
theorem load_headerless {r : JournalRecord Op} (hr : codec.format.Fits r) (hne : r ≠ .first) :
    load codec (codec.format.frame r) = .error .versionHeader := by
  have hfits : ∀ r' ∈ [r], codec.format.Fits r' := by simpa using hr
  have hscan := Format.scan_frames hfits (.inl rfl) [] []
  simp only [List.nil_append, List.length_nil, Nat.zero_add, Format.frames_cons,
    Format.frames_nil, List.append_nil, if_true] at hscan
  have hfirst : r.isFirst = false := by
    rw [Bool.eq_false_iff]
    exact fun h => hne (JournalRecord.isFirst_iff.mp h)
  simp [load, hscan, hfirst]

theorem first_fits (codec : Codec Op) : codec.format.Fits .first := codec.first_fits

/-- **A journal survives any cut after its header frame**: the load returns the header and the
records whose frames are whole, leaves the file at the end of the last whole frame and counts
the bytes it removed; the file it leaves loads as it is, and goes on with whatever is appended. -/
theorem load_cut (codec : Codec Op) (rs : List (JournalRecord Op))
    (hrs : ∀ r ∈ rs, (codec.encode r).length ≤ maxFrameLen) (n : Nat)
    (hheader : (codec.format.frame .first).length ≤ n)
    (hn : n ≤ (codec.format.frames (.first :: rs)).length) :
    let kept := .first :: codec.format.whole (n - (codec.format.frame .first).length) rs
    let file := codec.format.frames kept
    file <+: codec.format.frames (.first :: rs) ∧
    load codec ((codec.format.frames (.first :: rs)).take n) =
      .ok ⟨kept, ⟨kept.length, n - file.length⟩, file⟩ ∧
    load codec file = .ok ⟨kept, ⟨kept.length, 0⟩, file⟩ ∧
    ∀ more, (∀ r ∈ more, (codec.encode r).length ≤ maxFrameLen) →
      load codec (file ++ codec.format.frames more) =
        .ok ⟨kept ++ more, ⟨kept.length + more.length, 0⟩, file ++ codec.format.frames more⟩ := by
  intro kept file
  have hall : ∀ r ∈ (.first :: rs), codec.format.Fits r :=
    List.forall_mem_cons.mpr ⟨first_fits codec, hrs⟩
  have hkept : codec.format.whole n (.first :: rs) = kept := by
    rw [Format.whole, if_pos hheader]
  have hfits : ∀ r ∈ kept, codec.format.Fits r := by
    intro r hr
    exact hall r (Format.whole_subset r (hkept ▸ hr))
  have hfirst : ∀ r ∈ kept.head?, r = .first := by simp [kept]
  obtain ⟨tail, htake, htail⟩ := Format.take_frames hall n
  rw [hkept] at htake
  have hlen : tail.length = n - file.length := by
    have hsum : n = file.length + tail.length := by
      rw [← List.length_append, ← htake, List.length_take, Nat.min_eq_left hn]
    omega
  refine ⟨?_, ?_, ?_, ?_⟩
  · exact ((List.prefix_append file tail).trans (htake ▸ List.take_prefix n _))
  · rw [htake, load_frames hfits hfirst htail, hlen]
  · exact load_whole hfits hfirst
  · intro more hmore
    have hboth : ∀ r ∈ kept ++ more, codec.format.Fits r := by
      intro r hr
      rcases List.mem_append.mp hr with h | h
      · exact hfits r h
      · exact hmore r h
    have hload := load_whole hboth (by simp [kept])
    rwa [Format.frames_append, List.length_append] at hload

/-! ### A codec for evaluation -/

/-- A number as so many ones and a zero. -/
def unary (n : Nat) : List UInt8 := List.replicate n 1 ++ [0]

def readUnary : List UInt8 → Option (Nat × List UInt8)
  | [] => none
  | b :: bs => if b = 0 then some (0, bs) else (readUnary bs).map fun (n, rest) => (n + 1, rest)

theorem readUnary_unary (n : Nat) (rest : List UInt8) :
    readUnary (unary n ++ rest) = some (n, rest) := by
  induction n with
  | zero => simp [unary, readUnary]
  | succ n ih =>
    have hcons : unary (n + 1) ++ rest = 1 :: (unary n ++ rest) := by
      simp [unary, List.replicate_succ]
    rw [hcons, readUnary, ih]
    simp

/-- Each number of a record in unary, given a number for each call. -/
def unaryCodec (code : Op → Nat) (call : Nat → Option Op) (h : ∀ o, call (code o) = some o) :
    Codec Op where
  encode
    | .header version => 0 :: unary version
    | .applied opId digest => 1 :: (unary opId ++ unary digest)
    | .reclaimSession opId => 2 :: unary opId
    | .op opId o => 3 :: (unary opId ++ unary (code o))
  decode
    | [] => none
    | tag :: bytes => match readUnary bytes with
      | none => none
      | some (n, rest) =>
        if tag = 0 then some (.header n)
        else if tag = 1 then (readUnary rest).map fun (digest, _) => .applied n digest
        else if tag = 2 then some (.reclaimSession n)
        else (readUnary rest).bind fun (c, _) => (call c).map (.op n)
  truncatedBlake3 := fun bytes => UInt64.ofNat bytes.length
  decode_encode := by
    intro r
    cases r with
    | header version =>
      have h := readUnary_unary version []
      simp_all
    | applied opId digest =>
      have h := readUnary_unary opId (unary digest)
      have h' := readUnary_unary digest []
      simp_all
    | reclaimSession opId =>
      have h := readUnary_unary opId []
      simp_all
    | op opId o =>
      have h₁ := readUnary_unary opId (unary (code o))
      have h₂ := readUnary_unary (code o) []
      simp_all
  first_fits := by simp [unary, journalVersion, maxFrameLen]

/-- One service with one call. -/
def unitCodec : Codec Unit := unaryCodec (fun _ => 0) (fun _ => some ()) fun _ => rfl

theorem load_cut_unary :
    (unitCodec.encode (.op 1 ())).length ≤ maxFrameLen ∧
    ∃ loaded, load unitCodec
        ((unitCodec.format.frames [.first, .op 1 (), .op 2 ()]).take 40) = .ok loaded ∧
      loaded.records = [.first, .op 1 ()] := by
  refine ⟨by decide, _, (load_cut unitCodec [.op 1 (), .op 2 ()] (by decide) 40 (by decide)
    (by decide)).2.1, by decide⟩

/-! ### Cycles of incarnations -/

/-- A state directory: the journal file, and what the running incarnation still has to write of
the frame it is appending. -/
structure StateDir where
  file : Option (List UInt8)
  writing : Option (List UInt8)

inductive Action (Op : Type) where
  /-- An incarnation creates the journal if there is none and loads it otherwise. -/
  | start
  | append (r : JournalRecord Op)
  /-- One more byte reaches the file. -/
  | write
  | kill

/-- A start whose load panics is not a step: `StateDir.Reopens` speaks of the state before. -/
def StateDir.step (codec : Codec Op) (d : StateDir) : Action Op → Option StateDir
  | .start => match d.writing, d.file with
    | none, none => some ⟨some [], some (codec.format.frame .first)⟩
    | none, some file => match load codec file with
      | .ok loaded => some ⟨some loaded.file, some []⟩
      | .error _ => none
    | some _, _ => none
  | .append r =>
    -- A payload whose length does not fit 32 bits panics before anything is written.
    if d.writing = some [] ∧ (codec.encode r).length < 2 ^ 32 then
      some { d with writing := some (codec.format.frame r) }
    else none
  | .write => match d.writing, d.file with
    | some (b :: pending), some file => some ⟨some (file ++ [b]), some pending⟩
    | _, _ => none
  | .kill => if d.writing.isSome then some { d with writing := none } else none

/-- A directory without a journal. -/
def StateDir.empty : StateDir := ⟨none, none⟩

/-- The next load succeeds. -/
def StateDir.Reopens (codec : Codec Op) (d : StateDir) : Prop :=
  ∀ file, d.file = some file → ∃ loaded, load codec file = .ok loaded

/-- No record is longer than a load accepts, and no kill leaves the header frame incomplete. -/
def Careful (codec : Codec Op) (d : StateDir) : Action Op → Prop
  | .append r => (codec.encode r).length ≤ maxFrameLen
  | .kill => ∀ file ∈ d.file, (codec.format.frame .first).length ≤ file.length
  | _ => True

/-- The file is whole frames, the header first, and a part of one more; a running incarnation
is writing the rest of that one. -/
inductive StateDir.Sound (codec : Codec Op) : StateDir → Prop where
  | absent : Sound codec ⟨none, none⟩
  | heading {part pending : List UInt8} (h : part ++ pending = codec.format.frame .first)
      (hpending : pending ≠ []) : Sound codec ⟨some part, some pending⟩
  | idle {rs : List (JournalRecord Op)} (hrs : ∀ r ∈ rs, codec.format.Fits r) :
      Sound codec ⟨some (codec.format.frames (.first :: rs)), some []⟩
  | writing {rs : List (JournalRecord Op)} {r : JournalRecord Op} {part pending : List UInt8}
      (hrs : ∀ r ∈ rs, codec.format.Fits r) (hr : codec.format.Fits r)
      (h : part ++ pending = codec.format.frame r) (hpending : pending ≠ []) :
      Sound codec ⟨some (codec.format.frames (.first :: rs) ++ part), some pending⟩
  | dead {rs : List (JournalRecord Op)} {tail : List UInt8}
      (hrs : ∀ r ∈ rs, codec.format.Fits r) (htail : tail = [] ∨ codec.format.Cut tail) :
      Sound codec ⟨some (codec.format.frames (.first :: rs) ++ tail), none⟩

namespace StateDir

variable {d d' : StateDir}

theorem Sound.reopens (h : d.Sound codec) : d.Reopens codec := by
  have hfirst (rs : List (JournalRecord Op)) :
      ∀ r ∈ (JournalRecord.first :: rs).head?, r = .first := by simp
  have hfits {rs : List (JournalRecord Op)} (hrs : ∀ r ∈ rs, codec.format.Fits r) :
      ∀ r ∈ (JournalRecord.first :: rs), codec.format.Fits r :=
    List.forall_mem_cons.mpr ⟨first_fits codec, hrs⟩
  intro file hfile
  cases h with
  | absent => cases hfile
  | heading h hpending =>
    cases hfile
    -- No whole frame yet, so the load finds no record at all.
    have hnone : ∀ r ∈ ([] : List (JournalRecord Op)), codec.format.Fits r := nofun
    exact ⟨_, load_frames hnone (by simp) (.inr ⟨_, _, first_fits codec, hpending, h⟩)⟩
  | idle hrs =>
    cases hfile
    exact ⟨_, load_whole (hfits hrs) (hfirst _)⟩
  | writing hrs hr h hpending =>
    cases hfile
    exact ⟨_, load_frames (hfits hrs) (hfirst _) (.inr ⟨_, _, hr, hpending, h⟩)⟩
  | dead hrs htail =>
    cases hfile
    exact ⟨_, load_frames (hfits hrs) (hfirst _) htail⟩

theorem Sound.start (h : d.Sound codec) (hs : d.step codec .start = some d') :
    d'.Sound codec := by
  cases h with
  | absent =>
    cases hs
    exact .heading (List.nil_append _) (Format.frame_ne_nil _)
  | heading | idle | writing => cases hs
  | @dead rs tail hrs htail =>
    have hload : load codec (codec.format.frames (.first :: rs) ++ tail) = _ :=
      load_frames (List.forall_mem_cons.mpr ⟨first_fits codec, hrs⟩) (by simp) htail
    simp only [step, hload, Option.some.injEq] at hs
    subst hs
    exact .idle hrs

theorem Sound.append {r : JournalRecord Op} (h : d.Sound codec)
    (hr : (codec.encode r).length ≤ maxFrameLen)
    (hs : d.step codec (.append r) = some d') : d'.Sound codec := by
  simp only [step] at hs
  split at hs
  case isFalse => cases hs
  case isTrue hidle =>
    cases hs
    cases h with
    | absent | dead => cases hidle.1
    | heading _ hpending | writing _ _ _ hpending =>
      exact absurd (Option.some.inj hidle.1) hpending
    | @idle rs hrs =>
      have hw : Sound codec ⟨some (codec.format.frames (.first :: rs) ++ []), _⟩ :=
        .writing hrs hr (List.nil_append _) (Format.frame_ne_nil r)
      rwa [List.append_nil] at hw

/-- The last byte of a frame makes it whole. -/
theorem Sound.write (h : d.Sound codec) (hs : d.step codec .write = some d') :
    d'.Sound codec := by
  cases h with
  | absent | idle | dead => cases hs
  | @heading part pending h hpending =>
    obtain ⟨b, pending, rfl⟩ := List.exists_cons_of_ne_nil hpending
    cases hs
    have h' : (part ++ [b]) ++ pending = codec.format.frame .first := by
      rw [List.append_assoc]
      exact h
    by_cases hdone : pending = []
    · subst hdone
      rw [List.append_nil] at h'
      have hidle : Sound codec ⟨some (codec.format.frames [.first]), _⟩ := .idle nofun
      rwa [Format.frames_cons, Format.frames_nil, List.append_nil, ← h'] at hidle
    · exact .heading h' hdone
  | @writing rs r part pending hrs hr h hpending =>
    obtain ⟨b, pending, rfl⟩ := List.exists_cons_of_ne_nil hpending
    cases hs
    have h' : (part ++ [b]) ++ pending = codec.format.frame r := by
      rw [List.append_assoc]
      exact h
    rw [List.append_assoc]
    by_cases hdone : pending = []
    · subst hdone
      rw [List.append_nil] at h'
      have hall : ∀ r' ∈ rs ++ [r], codec.format.Fits r' := by
        intro r' hr'
        rcases List.mem_append.mp hr' with hmem | hmem
        · exact hrs r' hmem
        · exact List.mem_singleton.mp hmem ▸ hr
      have hidle := Sound.idle hall
      rwa [← List.cons_append, Format.frames_append, Format.frames_cons r [],
        Format.frames_nil, List.append_nil, ← h'] at hidle
    · exact .writing hrs hr h' hdone

theorem Sound.kill (h : d.Sound codec)
    (hheader : ∀ file ∈ d.file, (codec.format.frame .first).length ≤ file.length)
    (hs : d.step codec .kill = some d') : d'.Sound codec := by
  cases h with
  | absent | dead => cases hs
  | @heading part pending h hpending =>
    -- The header frame is incomplete, which the condition excludes.
    have hlen := hheader part rfl
    rw [← h, List.length_append] at hlen
    have := List.length_pos_iff.mpr hpending
    omega
  | @idle rs hrs =>
    cases hs
    have hdead := Sound.dead hrs (.inl (rfl : ([] : List UInt8) = []))
    rwa [List.append_nil] at hdead
  | writing hrs hr h hpending =>
    cases hs
    exact .dead hrs (.inr ⟨_, _, hr, hpending, h⟩)

theorem Sound.step {a : Action Op} (h : d.Sound codec) (hc : Careful codec d a)
    (hs : d.step codec a = some d') : d'.Sound codec := by
  cases a with
  | start => exact h.start hs
  | append r => exact h.append hc hs
  | write => exact h.write hs
  | kill => exact h.kill hc hs

/-- **A state directory can be reopened** along every run of incarnations, killed at any byte
but in the very first frame, that appends no record longer than a load accepts. -/
theorem load_reopens (codec : Codec Op) (d : StateDir)
    (h : Runs (StateDir.step codec) (Careful codec) .empty d) : d.Reopens codec :=
  (h.invariant Sound.absent fun _ _ _ hI hc hs => hI.step hc hs).reopens

instance instDecidableCareful (codec : Codec Op) (d : StateDir) :
    DecidablePred (Careful codec d)
  | .append r => inferInstanceAs (Decidable ((codec.encode r).length ≤ maxFrameLen))
  | .kill => inferInstanceAs (Decidable (∀ file ∈ d.file, _))
  | .start | .write => isTrue trivial

/-- An incarnation appends a record and writes all of its frame. -/
def written (r : JournalRecord Unit) : List (Action Unit) :=
  .append r :: List.replicate (unitCodec.format.frame r).length .write

/-- The first incarnation is killed three bytes into the frame of a record, the second cuts it
off and appends another record. -/
def cutAndGoOn : List (Action Unit) :=
  .start :: List.replicate (unitCodec.format.frame .first).length .write ++
    [.append (.op 1 ()), .write, .write, .write, .kill, .start] ++ written (.op 2 ()) ++ [.kill]

theorem load_reopens_cutAndGoOn :
    ∃ d, exec (StateDir.step unitCodec) (Careful unitCodec) cutAndGoOn .empty = some d ∧
      d.file = some (unitCodec.format.frames [.first, .op 2 ()]) ∧ d.Reopens unitCodec := by
  have hrun : (exec (StateDir.step unitCodec) (Careful unitCodec) cutAndGoOn .empty).any fun d =>
      d.file = some (unitCodec.format.frames [.first, .op 2 ()]) := by
    decide +kernel
  obtain ⟨d, hd, hfile⟩ := (Option.any_eq_true _ _).mp hrun
  exact ⟨d, hd, of_decide_eq_true hfile, load_reopens unitCodec d (runs_exec hd)⟩

/-- **A kill inside the very first frame loses the directory**: the next incarnation finds an
empty journal and appends its session reclaim to it, and the one after that refuses to load a
journal without a version header. -/
theorem headerless_journal : ∃ d,
    Runs (StateDir.step unitCodec) Any .empty d ∧ d.writing = none ∧
    d.file = some (unitCodec.format.frame (.reclaimSession 1)) ∧ ¬ d.Reopens unitCodec := by
  have hrun : (exec (StateDir.step unitCodec) Any
      ([.start, .kill, .start] ++ written (.reclaimSession 1) ++ [.kill]) .empty).any fun d =>
        d.writing = none ∧ d.file = some (unitCodec.format.frame (.reclaimSession 1)) := by
    decide +kernel
  obtain ⟨d, hd, hfile⟩ := (Option.any_eq_true _ _).mp hrun
  obtain ⟨hwriting, hfile⟩ := of_decide_eq_true hfile
  refine ⟨d, runs_exec hd, hwriting, hfile, fun hopen => ?_⟩
  obtain ⟨loaded, hloaded⟩ := hopen _ hfile
  rw [load_headerless (by decide) (by decide)] at hloaded
  cases hloaded

end StateDir

end Orchestrator.Simstate
