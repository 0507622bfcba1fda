import Mathlib.Data.Finset.Lattice.Lemmas
import Orchestrator.Lib.Outline
import Orchestrator.Lib.Text
import Orchestrator.Services.Types

/-! # Driver — Required macro packs

`parse_required_macro_pack_ids`: the ids of the macro packs an experiment's synthesizer document
asks for, read line by line with two flags, for the macro section and for a pack list, and the
indentations they were set at.

* `Reads`: what a line is read for, said by the keys that are open before it.
* `Tracks.stepRow`: the flags say which keys are open, and a line gives what it is read for.
* `foldlM_stepRow_ok`: what a whole document gives.
-/

namespace Orchestrator.Driver

open Lib Services

def invalidRequest (detail : String) : ClientError := .new .invalidRequest detail

/-! ### Values and items -/

/-- `strip_comment`. -/
def stripComment (line : Str) : Str := Str.trimEnd (line.takeWhile (· ≠ '#'))

def doubleQuote : Char := .ofNat 34

def singleQuote : Char := .ofNat 39

/-- Removes a pair of quotes around a text. -/
def unquote (quote : Char) (value : Str) : Option Str :=
  match value with
  | [] => none
  | c :: rest => if c = quote ∧ rest.getLast? = some quote then some rest.dropLast else none

/-- `parse_pack_item`. -/
def parsePackItem (value : Str) : Except ClientError Str :=
  let trimmed := value.trim.rdropWhile (· = ',')
  if trimmed = [] then .ok []
  else
    let unquoted := (unquote doubleQuote trimmed <|> unquote singleQuote trimmed).getD trimmed
    if unquoted.trim = [] then .error (invalidRequest "macro.packs contains an empty pack id")
    else .ok unquoted.trim

/-- The ids that are inserted for an item: the item, unless it is empty. -/
def readItem (value : Str) : Except ClientError (List Str) :=
  (fun item => if item = [] then [] else [item]) <$> parsePackItem value

/-- `parse_pack_value`: the ids it inserts. -/
def parsePackValue (rest : Str) : Except ClientError (List Str) :=
  match rest.trim with
  | [] => .ok []
  | '[' :: tail =>
    if tail.getLast? = some ']' then
      List.flatten <$> (tail.dropLast.splitOn ',').mapM fun item => readItem (Str.trim item)
    else .error (invalidRequest "macro.packs inline list must close with ']'")
  | value => readItem value

def packsWord : Str := ['p', 'a', 'c', 'k', 's']

/-- The text from the first place on where a word stands. -/
def findWord (word : Str) : Str → Option Str
  | [] => if word.isPrefixOf [] then some [] else none
  | c :: s => if word.isPrefixOf (c :: s) then some (c :: s) else findWord word s

/-- `parse_inline_object_packs`: the ids it inserts. -/
def parseInlineObjectPacks (rest : Str) : Except ClientError (List Str) :=
  match findWord packsWord rest with
  | none => .ok []
  | some found =>
    match found.dropWhile (· ≠ ':') with
    | [] => .ok []
    | _ :: value =>
      match value.dropWhile (· ≠ '[') with
      | [] => .ok []
      | list =>
        if ']' ∈ list then parsePackValue (list.takeWhile (· ≠ ']') ++ [']'])
        else .error (invalidRequest "macro.packs inline object list must close with ']'")

/-! ### The lines -/

def macroPacksKey : Str := ['m', 'a', 'c', 'r', 'o', '.', 'p', 'a', 'c', 'k', 's', ':']

def macroKey : Str := ['m', 'a', 'c', 'r', 'o', ':']

def packsKey : Str := ['p', 'a', 'c', 'k', 's', ':']

/-- What a line says, without its comment, and how far it is indented. -/
structure Row where
  indent : Nat
  text : Str
deriving DecidableEq

/-- What a line starts with, and the rest of it. -/
inductive Start where
  | macroPacks (rest : Str)
  | macroKey (rest : Str)
  | packs (rest : Str)
  | dash (rest : Str)
  | other

namespace Row

variable (r : Row)

-- The source makes the four tests in this order, the last two under a flag. No text passes two
-- of them, so they can be made at once.
def start : Start :=
  match macroPacksKey.isPrefixOf? r.text, macroKey.isPrefixOf? r.text,
    packsKey.isPrefixOf? r.text, ['-'].isPrefixOf? r.text with
  | some rest, _, _, _ => .macroPacks rest
  | none, some rest, _, _ => .macroKey rest
  | none, none, some rest, _ => .packs rest
  | none, none, none, some rest => .dash rest
  | none, none, none, none => .other

def isMacro : Bool := r.start matches .macroKey _

def isPacks : Bool := r.start matches .packs _

def isItem : Bool := r.start matches .dash _

end Row

/-- The variables of the loop. -/
structure Scan where
  ids : Finset Str
  inMacro : Bool
  macroIndent : Nat
  inPacks : Bool
  packsIndent : Nat
deriving DecidableEq

namespace Scan

def new : Scan := ⟨∅, false, 0, false, 0⟩

/-- A line at the left of a pack list or of the macro section ends it, but for items and for
`packs` keys. -/
def settle (s : Scan) (r : Row) : Scan :=
  { s with
    inPacks := s.inPacks && !(decide (r.indent ≤ s.packsIndent) && !r.isItem)
    inMacro := s.inMacro && !(decide (r.indent ≤ s.macroIndent) && !r.isPacks) }

def insert (s : Scan) (read : Except ClientError (List Str)) : Except ClientError Scan :=
  (fun got => { s with ids := s.ids ∪ got.toFinset }) <$> read

/-- The value of a pack key, and whether a list follows it. -/
def packs (s : Scan) (r : Row) (rest : Str) : Except ClientError Scan :=
  { s with inPacks := rest.trim.isEmpty, packsIndent := r.indent }.insert (parsePackValue rest)

end Scan

def isObject (rest : Str) : Bool :=
  rest.trim.head? = some '{' && (findWord packsWord rest).isSome

/-- The loop body, once a line is known to say something. -/
def stepRow (s : Scan) (r : Row) : Except ClientError Scan :=
  let s := s.settle r
  match r.start with
  | .macroPacks rest => s.packs r rest
  | .macroKey rest =>
    let s := { s with inMacro := true, macroIndent := r.indent }
    if isObject rest then s.insert (parseInlineObjectPacks rest) else .ok s
  | .packs rest => if s.inMacro then s.packs r rest else .ok s
  | .dash rest => if s.inPacks then s.insert (readItem rest.trim) else .ok s
  | .other => .ok s

/-- The loop body. -/
def step (s : Scan) (raw : Str) : Except ClientError Scan :=
  let line := stripComment raw
  let trimmed := line.trim
  if trimmed = [] then .ok s
  else stepRow s ⟨line.width - line.trimStart.width, trimmed⟩

/-- `parse_required_macro_pack_ids`. -/
def parseRequiredMacroPackIds (configYaml : ByteArray) : Except ClientError (Finset Str) :=
  match String.fromUTF8? configYaml with
  | none => .error (invalidRequest "experiment synth config is not valid UTF-8")
  | some text => Scan.ids <$> (Str.lines text.toList).foldlM step Scan.new

theorem parseRequiredMacroPackIds_utf8 (text : Str) :
    parseRequiredMacroPackIds (String.ofList text).toUTF8 =
      Scan.ids <$> text.lines.foldlM step Scan.new := by
  have h : String.fromUTF8? (String.ofList text).toUTF8 = some (String.ofList text) :=
    dif_pos (String.ofList text).isValidUTF8
  simp only [parseRequiredMacroPackIds, h, String.toList_ofList]

/-! ### What a line is read for -/

/-- The macro sections: a macro key is open as long as the lines stand at its right or are `packs`
keys. -/
def macroOutline : Outline Row :=
  ⟨Row.indent, Row.isPacks, fun _ r => r.isMacro = true, fun _ => True⟩

/-- A line that is taken for a pack key. -/
def IsPackKey (pre : List Row) (r : Row) : Prop :=
  match r.start with
  | .macroPacks _ => True
  | .packs _ => macroOutline.Under pre r
  | _ => False

/-- A list can follow a pack key that has no value. -/
def Row.NoValue (r : Row) : Prop :=
  match r.start with
  | .macroPacks rest | .packs rest => rest.trim = []
  | _ => False

/-- The pack lists: a pack key is open as long as the lines stand at its right or are items. -/
def packsOutline : Outline Row := ⟨Row.indent, Row.isItem, IsPackKey, Row.NoValue⟩

/-- What the line after some others is read for: the ids it gives, or an error. -/
def Reads (pre : List Row) (r : Row) (x : Except ClientError (List Str)) : Prop :=
  match r.start with
  | .macroPacks rest => x = parsePackValue rest
  | .macroKey rest => isObject rest = true ∧ x = parseInlineObjectPacks rest
  | .packs rest => macroOutline.Under pre r ∧ x = parsePackValue rest
  | .dash rest => packsOutline.Under pre r ∧ x = readItem rest.trim
  | .other => False

/-- What some lines are read for that follow others. -/
def ReadIn (pre rows : List Row) (x : Except ClientError (List Str)) : Prop :=
  Somewhere (fun before r => Reads before r x) pre rows

/-- The flags say which keys are open. -/
structure Tracks (pre : List Row) (s : Scan) : Prop where
  macros : macroOutline.Marks pre s.inMacro s.macroIndent
  packs : packsOutline.Marks pre s.inPacks s.packsIndent

section

variable {pre : List Row} {s : Scan} {r : Row} {x : Except ClientError (List Str)}

theorem Tracks.withIds (h : Tracks pre s) (ids : Finset Str) : Tracks pre { s with ids := ids } :=
  ⟨h.macros, h.packs⟩

theorem insert_nil (s : Scan) : Except.ok s = s.insert (.ok []) := by
  show _ = Except.ok { s with ids := s.ids ∪ ∅ }
  rw [Finset.union_empty]

/-- A line that is no key leaves the flags settled. -/
theorem Tracks.settle (h : Tracks pre s) (hother : r.isMacro = false) (hkey : ¬ IsPackKey pre r) :
    Tracks (pre ++ [r]) (s.settle r) :=
  ⟨h.macros.pass (Bool.eq_false_iff.mp hother), h.packs.pass hkey⟩

/-- A pack key opens its list. -/
theorem Tracks.key {rest : Str} (h : Tracks pre s) (hother : r.isMacro = false)
    (hkey : IsPackKey pre r) (hvalue : r.NoValue ↔ rest.trim = []) : Tracks (pre ++ [r])
      { s.settle r with inPacks := rest.trim.isEmpty, packsIndent := r.indent } :=
  ⟨h.macros.pass (Bool.eq_false_iff.mp hother),
    Outline.marks_key hkey (List.isEmpty_iff.trans hvalue.symm)⟩

/-- **One line.** It is read for one thing at most, gives what it is read for, and leaves flags
that say which keys are open after it. -/
theorem Tracks.stepRow (h : Tracks pre s) (r : Row) :
    ∃ x s', stepRow s r = s'.insert x ∧ s'.ids = s.ids ∧ Tracks (pre ++ [r]) s' ∧
      (∀ y, Reads pre r y → y = x) ∧ (Reads pre r x ∨ x = .ok []) := by
  have hsection := h.macros.under_iff r
  have hpacks := h.packs.under_iff r
  unfold Driver.stepRow Reads
  cases hstart : r.start with
  | macroPacks rest =>
    have hr : r.isMacro = false := by rw [Row.isMacro, hstart]
    exact ⟨_, _, rfl, rfl, h.key hr (by simp [IsPackKey, hstart]) (by simp [Row.NoValue, hstart]),
      fun _ hy => hy, .inl rfl⟩
  | macroKey rest =>
    have hr : r.isMacro = true := by rw [Row.isMacro, hstart]
    have hkey : ¬ IsPackKey pre r := by simp [IsPackKey, hstart]
    have htracks : Tracks (pre ++ [r])
        { s.settle r with inMacro := true, macroIndent := r.indent } :=
      ⟨Outline.marks_key hr (by simp [macroOutline]), h.packs.pass hkey⟩
    by_cases hobject : isObject rest = true
    · simp only [hobject, if_true]
      exact ⟨_, _, rfl, rfl, htracks, fun _ hy => hy.2, .inl ⟨trivial, rfl⟩⟩
    · simp only [hobject]
      exact ⟨.ok [], _, insert_nil _, rfl, htracks, fun _ hy => absurd hy.1 nofun, .inr rfl⟩
  | packs rest =>
    have hr : r.isMacro = false := by rw [Row.isMacro, hstart]
    by_cases hin : (s.settle r).inMacro = true
    · have hunder := hsection.mp hin
      have hkey : IsPackKey pre r := by simpa [IsPackKey, hstart] using hunder
      simp only [hin, if_true]
      exact ⟨_, _, rfl, rfl, h.key hr hkey (by simp [Row.NoValue, hstart]), fun _ hy => hy.2,
        .inl ⟨hunder, rfl⟩⟩
    · have hunder : ¬ macroOutline.Under pre r := fun hu => hin (hsection.mpr hu)
      have hkey : ¬ IsPackKey pre r := by simpa [IsPackKey, hstart] using hunder
      simp only [hin]
      exact ⟨.ok [], _, insert_nil _, rfl, h.settle hr hkey,
        fun _ hy => absurd hy.1 hunder, .inr rfl⟩
  | dash rest =>
    have hr : r.isMacro = false := by rw [Row.isMacro, hstart]
    have hkey : ¬ IsPackKey pre r := by simp [IsPackKey, hstart]
    by_cases hin : (s.settle r).inPacks = true
    · simp only [hin, if_true]
      exact ⟨_, _, rfl, rfl, h.settle hr hkey, fun _ hy => hy.2, .inl ⟨hpacks.mp hin, rfl⟩⟩
    · simp only [hin]
      exact ⟨.ok [], _, insert_nil _, rfl, h.settle hr hkey,
        fun _ hy => absurd (hpacks.mpr hy.1) hin, .inr rfl⟩
  | other =>
    have hr : r.isMacro = false := by rw [Row.isMacro, hstart]
    have hkey : ¬ IsPackKey pre r := by simp [IsPackKey, hstart]
    exact ⟨.ok [], _, insert_nil _, rfl, h.settle hr hkey, nofun, .inr rfl⟩

/-- The loop over the lines that follow others. -/
theorem Tracks.foldlM_ok (h : Tracks pre s) (rows : List Row) (ids : Finset Str) :
    Scan.ids <$> rows.foldlM Driver.stepRow s = .ok ids ↔
      (∀ x, ReadIn pre rows x → ∃ got, x = .ok got) ∧
        ∀ id, id ∈ ids ↔ id ∈ s.ids ∨ ∃ got, ReadIn pre rows (.ok got) ∧ id ∈ got := by
  induction rows generalizing pre s with
  | nil =>
    have hnone : ∀ x, ¬ ReadIn pre [] x := fun x => not_somewhere_nil
    show Except.ok s.ids = .ok ids ↔ _
    simp [hnone, Finset.ext_iff, iff_comm]
  | cons r rows ih =>
    obtain ⟨x, s', hstep, hids, htracks, hone, hread⟩ := h.stepRow r
    have hcons : ∀ y, ReadIn pre (r :: rows) y ↔ Reads pre r y ∨ ReadIn (pre ++ [r]) rows y :=
      fun y => somewhere_cons
    rw [List.foldlM_cons, hstep]
    cases x with
    | error e =>
      refine iff_of_false nofun fun hall => ?_
      obtain ⟨got, hgot⟩ := hall.1 _ ((hcons _).mpr (.inl (hread.resolve_right nofun)))
      cases hgot
    | ok got =>
      show Scan.ids <$> rows.foldlM Driver.stepRow { s' with ids := s'.ids ∪ got.toFinset } = _ ↔ _
      rw [ih (htracks.withIds _), hids]
      refine and_congr ⟨fun hrest y hy => ?_, fun hall y hy => hall y ((hcons y).mpr (.inr hy))⟩
        (forall_congr' fun id => iff_congr Iff.rfl ?_)
      · rcases (hcons y).mp hy with hy | hy
        · exact ⟨got, hone y hy⟩
        · exact hrest y hy
      · rw [Finset.mem_union, List.mem_toFinset, or_assoc]
        refine or_congr_right ⟨?_, ?_⟩
        · rintro (hid | ⟨got', hgot', hid⟩)
          · refine ⟨got, (hcons _).mpr (.inl (hread.resolve_right ?_)), hid⟩
            rintro ⟨⟩
            cases hid
          · exact ⟨got', (hcons _).mpr (.inr hgot'), hid⟩
        · rintro ⟨got', hgot', hid⟩
          refine ((hcons _).mp hgot').imp (fun hr => ?_) fun hr => ⟨got', hr, hid⟩
          exact Except.ok.inj (hone _ hr) ▸ hid

end

/-- **What a document gives.** Its lines are accepted exactly if everything read in them is well
formed, and the ids are then those of what is read. -/
theorem foldlM_stepRow_ok (rows : List Row) (ids : Finset Str) :
    Scan.ids <$> rows.foldlM stepRow Scan.new = .ok ids ↔
      (∀ x, ReadIn [] rows x → ∃ got, x = .ok got) ∧
        ∀ id, id ∈ ids ↔ ∃ got, ReadIn [] rows (.ok got) ∧ id ∈ got := by
  have hnew : Tracks [] Scan.new := ⟨Outline.marks_nil, Outline.marks_nil⟩
  rw [hnew.foldlM_ok]
  simp only [Scan.new, Finset.notMem_empty, false_or]

end Orchestrator.Driver
