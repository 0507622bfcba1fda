import Mathlib.Data.List.Basic
import Mathlib.Tactic.Ring

/-! # Lib — Framing

An append-only file of length-prefixed, checksummed frames, and the scan that recovers its
records. A frame is the length of its payload in four bytes, the checksum of the payload in
eight, and the payload; numbers are little-endian. The file may end inside a frame.

* `Format.parse_frame`, `Format.parse_cut`: a whole frame reads back as its record wherever it
  stands, and a frame that the file ends in reads as torn, whatever its bytes are.
* `Format.scan_frames`: the scan of whole frames and a cut one.
* `Format.take_frames`: a file of whole frames cut anywhere is of that shape.
-/

namespace Orchestrator.Lib

/-! ### Little-endian numbers -/

/-- The low `n` bytes of a number, the lowest first. -/
def leBytes : Nat → Nat → List UInt8
  | 0, _ => []
  | n + 1, v => UInt8.ofNat v :: leBytes n (v / 256)

def ofLe : List UInt8 → Nat
  | [] => 0
  | b :: bs => b.toNat + 256 * ofLe bs

@[simp] theorem length_leBytes (n v : Nat) : (leBytes n v).length = n := by
  induction n generalizing v with
  | zero => rfl
  | succ n ih => simp [leBytes, ih]

theorem ofLe_leBytes {n v : Nat} (h : v < 256 ^ n) : ofLe (leBytes n v) = v := by
  induction n generalizing v with
  | zero =>
    have : v = 0 := by simpa using h
    simp [leBytes, ofLe, this]
  | succ n ih =>
    have hdiv : v / 256 < 256 ^ n := by
      rw [Nat.pow_succ] at h
      exact Nat.div_lt_of_lt_mul (by rw [Nat.mul_comm]; exact h)
    simp only [leBytes, ofLe, ih hdiv]
    have hlow : (UInt8.ofNat v).toNat = v % 256 := by simp
    omega

theorem leBytes_inj {n v w : Nat} (hv : v < 256 ^ n) (hw : w < 256 ^ n)
    (h : leBytes n v = leBytes n w) : v = w := by
  rw [← ofLe_leBytes hv, h, ofLe_leBytes hw]

namespace Framing

/-- The bytes before a payload. -/
def headerLen : Nat := 4 + 8

/-- How records become payloads and back, the checksum, and the longest payload a reader
accepts. -/
structure Format (R : Type) where
  encode : R → List UInt8
  decode : List UInt8 → Option R
  checksum : List UInt8 → UInt64
  maxLen : Nat
  decode_encode : ∀ r, decode (encode r) = some r
  maxLen_lt : maxLen < 2 ^ 32

inductive Parse (R : Type) where
  | ok (record : R) (next : Nat)
  /-- The frame runs past the end of the file. -/
  | torn
  /-- The length field is implausible. -/
  | corruptLen (len : Nat)
  /-- A frame of complete length whose checksum or payload is wrong. -/
  | corrupt (next : Nat)

inductive ScanError where
  | implausibleLength (len offset : Nat)
  | corruptMidFile (offset : Nat)
deriving DecidableEq, Repr

variable {R : Type}

namespace Format

variable (fmt : Format R)

def frame (r : R) : List UInt8 :=
  leBytes 4 (fmt.encode r).length ++ leBytes 8 (fmt.checksum (fmt.encode r)).toNat ++
    fmt.encode r

def frames (rs : List R) : List UInt8 := rs.flatMap fmt.frame

/-- A reader accepts the length of the record's payload. -/
def Fits (r : R) : Prop := (fmt.encode r).length ≤ fmt.maxLen

instance (r : R) : Decidable (fmt.Fits r) := inferInstanceAs (Decidable (_ ≤ _))

def parse (bytes : List UInt8) (offset : Nat) : Parse R :=
  let remaining := bytes.drop offset
  if remaining.length < headerLen then .torn
  else
    let len := ofLe (remaining.take 4)
    let checksum := ofLe ((remaining.drop 4).take 8)
    if fmt.maxLen < len then .corruptLen len
    else if remaining.length < headerLen + len then .torn
    else
      let payload := (remaining.drop headerLen).take len
      let next := offset + headerLen + len
      if (fmt.checksum payload).toNat ≠ checksum then .corrupt next
      else match fmt.decode payload with
        | some record => .ok record next
        | none => .corrupt next

variable {fmt} {bytes : List UInt8} {offset : Nat}

/-- Where the reader goes on is past the frame it read. -/
theorem parse_next {next : Nat}
    (h : (∃ r, fmt.parse bytes offset = .ok r next) ∨ fmt.parse bytes offset = .corrupt next) :
    offset < next := by
  have hnext : next = offset + headerLen + ofLe ((bytes.drop offset).take 4) := by
    unfold parse at h
    dsimp only at h
    split at h
    · simp at h
    · split at h
      · simp at h
      · split at h
        · simp at h
        · split at h
          · simpa [eq_comm] using h
          · split at h
            · simpa [eq_comm] using h
            · simpa [eq_comm] using h
  rw [hnext]
  unfold headerLen
  omega

variable (fmt)

/-- Looks for a readable frame after a bad one. -/
def probe (bad : Nat) (bytes : List UInt8) (position : Nat) : Except ScanError Unit :=
  if position < bytes.length then
    match _hp : fmt.parse bytes position with
    | .ok _ _ => .error (.corruptMidFile bad)
    | .corruptLen len => .error (.implausibleLength len position)
    | .corrupt next => probe bad bytes next
    | .torn => .ok ()
  else .ok ()
termination_by bytes.length - position
decreasing_by
  have := parse_next (.inr _hp)
  omega

/-- Reads frames from an offset to the end of the file or to the first one that is not whole,
and says where that is. -/
def scan (bytes : List UInt8) (offset : Nat) (records : List R) :
    Except ScanError (List R × Option Nat) :=
  if offset < bytes.length then
    match _hp : fmt.parse bytes offset with
    | .ok record next => scan bytes next (records ++ [record])
    | .torn => .ok (records, some offset)
    | .corruptLen len => .error (.implausibleLength len offset)
    | .corrupt next =>
      match fmt.probe offset bytes next with
      | .ok () => .ok (records, some offset)
      | .error e => .error e
  else .ok (records, none)
termination_by bytes.length - offset
decreasing_by
  have := parse_next (.inl ⟨_, _hp⟩)
  omega

variable {fmt}

variable {r : R} {tail : List UInt8} {rs : List R}

theorem scan_ok {next : Nat} (hlt : offset < bytes.length) (h : fmt.parse bytes offset = .ok r next)
    (acc : List R) : fmt.scan bytes offset acc = fmt.scan bytes next (acc ++ [r]) := by
  rw [scan, if_pos hlt]
  split <;> simp_all

theorem scan_torn (hlt : offset < bytes.length) (h : fmt.parse bytes offset = .torn)
    (acc : List R) : fmt.scan bytes offset acc = .ok (acc, some offset) := by
  rw [scan, if_pos hlt]
  split <;> simp_all

/-! ### Whole and cut frames -/

@[simp] theorem frames_nil : fmt.frames [] = [] := rfl

@[simp] theorem frames_cons (r : R) (rs : List R) :
    fmt.frames (r :: rs) = fmt.frame r ++ fmt.frames rs := rfl

@[simp] theorem frames_append (rs rs' : List R) :
    fmt.frames (rs ++ rs') = fmt.frames rs ++ fmt.frames rs' := by
  simp [frames]

theorem length_frame (fmt : Format R) (r : R) :
    (fmt.frame r).length = headerLen + (fmt.encode r).length := by
  simp [frame, headerLen]
  omega

theorem frame_ne_nil (r : R) : fmt.frame r ≠ [] := by
  intro h
  have := congrArg List.length h
  rw [length_frame] at this
  simp [headerLen] at this

/-- What the reader sees of a frame once its twelve bytes are there. -/
theorem take_header {rest : List UInt8} (hr : fmt.Fits r) (htail : tail ++ rest = fmt.frame r)
    (hlen : headerLen ≤ tail.length) :
    ofLe (tail.take 4) = (fmt.encode r).length ∧
      ofLe ((tail.drop 4).take 8) = (fmt.checksum (fmt.encode r)).toNat := by
  have hpre : ∀ n ≤ tail.length, tail.take n = (fmt.frame r).take n := by
    intro n hn
    rw [← htail, List.take_append_of_le_length hn]
  unfold headerLen at hlen
  constructor
  · rw [hpre 4 (by omega), frame, List.append_assoc,
      List.take_append_of_le_length (by simp), List.take_of_length_le (by simp)]
    refine ofLe_leBytes (Nat.lt_of_le_of_lt hr (Nat.lt_of_lt_of_le fmt.maxLen_lt ?_))
    decide
  · rw [List.take_drop, hpre (4 + 8) (by omega), frame,
      List.take_append_of_le_length (by simp), List.take_of_length_le (by simp),
      List.drop_append_of_le_length (by simp), List.drop_of_length_le (by simp),
      List.nil_append]
    exact ofLe_leBytes (fmt.checksum (fmt.encode r)).toNat_lt

theorem parse_frame (hr : fmt.Fits r) (pre post : List UInt8) :
    fmt.parse (pre ++ (fmt.frame r ++ post)) pre.length =
      .ok r (pre.length + (fmt.frame r).length) := by
  have hdrop : (pre ++ (fmt.frame r ++ post)).drop pre.length = fmt.frame r ++ post := by simp
  have hlen := fmt.length_frame r
  have hhead := take_header hr (List.append_nil (fmt.frame r)) (by omega)
  have htake : (fmt.frame r ++ post).take 4 = (fmt.frame r).take 4 :=
    List.take_append_of_le_length (by unfold headerLen at hlen; omega)
  have hsum : ((fmt.frame r ++ post).drop 4).take 8 = ((fmt.frame r).drop 4).take 8 := by
    rw [List.take_drop, List.take_drop,
      List.take_append_of_le_length (by unfold headerLen at hlen; omega)]
  have hpayload : ((fmt.frame r ++ post).drop headerLen).take (fmt.encode r).length =
      fmt.encode r := by
    have : fmt.frame r ++ post = (leBytes 4 (fmt.encode r).length ++
        leBytes 8 (fmt.checksum (fmt.encode r)).toNat) ++ (fmt.encode r ++ post) := by
      simp [frame]
    rw [this, List.drop_append_of_le_length (by simp [headerLen]),
      List.drop_of_length_le (by simp [headerLen]), List.nil_append]
    simp
  unfold parse
  dsimp only
  rw [hdrop, if_neg (by simp [hlen]; omega), htake, hhead.1, if_neg (Nat.not_lt.mpr hr),
    if_neg (by simp [hlen]), hsum, hhead.2, hpayload, if_neg (by simp), fmt.decode_encode, hlen,
    Nat.add_assoc]

/-- What a file that ends inside a frame holds of it, possibly nothing. -/
def Cut (fmt : Format R) (tail : List UInt8) : Prop :=
  ∃ r rest, fmt.Fits r ∧ rest ≠ [] ∧ tail ++ rest = fmt.frame r

theorem parse_cut (h : fmt.Cut tail) (pre : List UInt8) :
    fmt.parse (pre ++ tail) pre.length = .torn := by
  obtain ⟨r, rest, hr, hrest, htail⟩ := h
  have hdrop : (pre ++ tail).drop pre.length = tail := by simp
  have hlen : tail.length < headerLen + (fmt.encode r).length := by
    rw [← length_frame, ← htail, List.length_append]
    have := List.length_pos_iff.mpr hrest
    omega
  unfold parse
  dsimp only
  rw [hdrop]
  by_cases hshort : tail.length < headerLen
  · rw [if_pos hshort]
  · have hhead := take_header hr htail (by omega)
    rw [if_neg hshort, hhead.1, if_neg (Nat.not_lt.mpr hr), if_pos hlen]

/-- **The scan of whole frames and a cut one** returns their records and where the cut frame
begins. -/
theorem scan_frames (hrs : ∀ r ∈ rs, fmt.Fits r) (htail : tail = [] ∨ fmt.Cut tail)
    (pre : List UInt8) (acc : List R) :
    fmt.scan (pre ++ (fmt.frames rs ++ tail)) pre.length acc =
      .ok (acc ++ rs, if tail = [] then none else some (pre.length + (fmt.frames rs).length)) := by
  induction rs generalizing pre acc with
  | nil =>
    by_cases hnil : tail = []
    · subst hnil
      rw [scan]
      simp
    · have hpos := List.length_pos_iff.mpr hnil
      have hparse := parse_cut (htail.resolve_left hnil) pre
      have hscan := scan_torn (by simp; omega) hparse acc
      simpa [hnil] using hscan
  | cons r rs ih =>
    have hparse := parse_frame (hrs r (by simp)) pre (fmt.frames rs ++ tail)
    have hlen := fmt.length_frame r
    have hscan := scan_ok (by simp [hlen, headerLen]) hparse acc
    have hrest := ih (fun r' h => hrs r' (by simp [h])) (pre ++ fmt.frame r) (acc ++ [r])
    simp only [List.append_assoc, List.length_append] at hrest
    rw [frames_cons, List.append_assoc, hscan, hrest]
    simp [Nat.add_assoc]

/-- The records whose frames lie whole in the first `n` bytes. -/
def whole (fmt : Format R) : Nat → List R → List R
  | _, [] => []
  | n, r :: rs =>
    if (fmt.frame r).length ≤ n then r :: fmt.whole (n - (fmt.frame r).length) rs else []

theorem whole_subset {n : Nat} : ∀ r ∈ fmt.whole n rs, r ∈ rs := by
  induction rs generalizing n with
  | nil => simp [whole]
  | cons r rs ih =>
    intro r' hr'
    rw [whole] at hr'
    split at hr'
    · rcases List.mem_cons.mp hr' with rfl | h
      · simp
      · exact List.mem_cons_of_mem _ (ih _ h)
    · simp at hr'

/-- A file of whole frames cut anywhere holds the whole ones before the cut and a part of the
next. -/
theorem take_frames (hrs : ∀ r ∈ rs, fmt.Fits r) (n : Nat) :
    ∃ tail, (fmt.frames rs).take n = fmt.frames (fmt.whole n rs) ++ tail ∧
      (tail = [] ∨ fmt.Cut tail) := by
  induction rs generalizing n with
  | nil => exact ⟨[], by simp [whole], .inl rfl⟩
  | cons r rs ih =>
    by_cases hn : (fmt.frame r).length ≤ n
    · obtain ⟨tail, htail, hcut⟩ := ih (fun r' h => hrs r' (by simp [h]))
        (n - (fmt.frame r).length)
      refine ⟨tail, ?_, hcut⟩
      rw [frames_cons, List.take_append, List.take_of_length_le hn, whole, if_pos hn,
        frames_cons, htail, List.append_assoc]
    · refine ⟨(fmt.frame r).take n, ?_, .inr ⟨r, (fmt.frame r).drop n, hrs r (by simp), ?_, ?_⟩⟩
      · rw [frames_cons, List.take_append_of_le_length (by omega), whole, if_neg hn]
        rfl
      · intro hnil
        have := congrArg List.length hnil
        simp at this
        omega
      · exact List.take_append_drop _ _

end Format

end Framing

end Orchestrator.Lib
