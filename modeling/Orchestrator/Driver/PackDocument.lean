import Orchestrator.Driver.MacroPacks

/-! # Driver — Documents with macro packs

A synthesizer document is a list of top-level keys with their blocks, laid out in lines with
comments and blank lines between them. The macro packs are listed at the key `macro.packs` or at
the key `packs` of the macro section.

The parser looks at one line after the other, so a key in another block can pass for one of
these: `macro` and `macro.packs` do so at any depth, `packs` anywhere inside the macro section,
and a top-level `packs` key right after it. And a `macro` key further down in the macro section
takes the place of the section's own, so that the section is over where that key's block is.

* `parse_layout`: comments, blank lines and indentation, down to the rows.
* `Document.Heard`: the listed ids that are read where they are listed.
* `Document.Strays`: what is read elsewhere.
* `required_packs_exact_iff`: the documents that are read exactly.
-/

namespace Orchestrator.Driver

open Lib Services

/-! ### Layout -/

/-- A row as it stands in a line. -/
def Row.line (r : Row) : Str := List.replicate r.indent ' ' ++ r.text

/-- A text that can stand in a line, up to its comment. -/
def Row.InLine (r : Row) : Prop := r.text ≠ [] ∧ Str.Trimmed r.text ∧ '#' ∉ r.text

instance instDecidableInLine (r : Row) : Decidable r.InLine :=
  inferInstanceAs (Decidable (_ ∧ _ ∧ _))

def lineText (row : Option Row) (blanks : Str) (comment : Option Str) : Str :=
  row.elim [] Row.line ++ blanks ++ comment.elim [] ('#' :: ·)

/-- A line: a row or nothing, then blanks and maybe a comment. -/
structure Line where
  row : Option Row
  blanks : Str
  comment : Option Str
  inLine : ∀ r ∈ row, r.InLine
  blank : ∀ c ∈ blanks, isWhite c = true
  single : '\n' ∉ lineText row blanks comment

def Line.text (l : Line) : Str := lineText l.row l.blanks l.comment

/-- The bytes of a document in a layout. -/
def layoutBytes (layout : List Line) : ByteArray :=
  (String.ofList (['\n'].intercalate (layout.map Line.text))).toUTF8

/-- The comment of a line is gone, and so is what is blank before it. -/
theorem stripComment_text {s blanks : Str} {comment : Option Str} (hs : '#' ∉ s)
    (hend : Str.trimEnd s = s) (hblank : Str.Blank blanks) :
    stripComment (s ++ blanks ++ comment.elim [] ('#' :: ·)) = s := by
  have hkept : ∀ c ∈ s ++ blanks, decide (c ≠ '#') = true := by
    intro c hc
    rw [decide_eq_true_iff]
    rintro rfl
    rcases List.mem_append.mp hc with hc | hc
    · exact hs hc
    · exact absurd (hblank _ hc) (by decide)
  have hcomment : (comment.elim [] ('#' :: ·)).takeWhile (· ≠ '#') = [] := by
    cases comment with
    | none => rfl
    | some text => exact List.takeWhile_cons_of_neg (by decide)
  rw [stripComment, List.takeWhile_append_of_pos hkept, hcomment, List.append_nil,
    Str.trimEnd_append_blank hblank, hend]

/-- A line is its row, and a blank line is nothing. -/
theorem step_line (s : Scan) (l : Line) : step s l.text = l.row.elim (.ok s) (stepRow s) := by
  obtain ⟨row, blanks, comment, hinLine, hblank, -⟩ := l
  cases row with
  | none =>
    have hline : stripComment (lineText none blanks comment) = [] :=
      stripComment_text List.not_mem_nil rfl hblank
    have htrim : Str.trim (stripComment (lineText none blanks comment)) = [] := by
      rw [hline]
      rfl
    exact if_pos htrim
  | some r =>
    obtain ⟨hsaid, htrimmed, hcomment⟩ := hinLine r rfl
    have hnone : '#' ∉ r.line := by
      intro h
      rcases List.mem_append.mp h with h | h
      · exact absurd (List.eq_of_mem_replicate h) (by decide)
      · exact hcomment h
    have hline : stripComment (lineText (some r) blanks comment) = r.line :=
      stripComment_text hnone (htrimmed.trimEnd_append hsaid _) hblank
    have htrim : Str.trim r.line = r.text :=
      Str.trim_indented (Str.blank_replicate r.indent) htrimmed hsaid
    have hwidth : Str.width r.line - Str.width (Str.trimStart r.line) = r.indent := by
      rw [Row.line, Str.trimStart_blank_append (Str.blank_replicate _), htrimmed.trimStart,
        Str.width_append, Str.width_replicate, Nat.add_sub_cancel]
    rw [step, Line.text, hline, htrim, if_neg hsaid, hwidth]
    rfl

theorem stripComment_stripCr (l : Str) : stripComment (Str.stripCr l) = stripComment l := by
  unfold Str.stripCr
  split
  · rename_i hcr
    obtain ⟨l', rfl⟩ : ∃ l', l = l' ++ ['\r'] := List.getLast?_eq_some_iff.mp hcr
    rw [List.dropLast_concat, stripComment, stripComment, List.takeWhile_append]
    split
    · rename_i hlen
      rw [(List.takeWhile_prefix _).eq_of_length hlen]
      have hblank : Str.Blank ['\r'] := fun c hc => by
        rw [List.mem_singleton.mp hc]
        rfl
      exact (Str.trimEnd_append_blank hblank).symm
    · rfl
  · rfl

/-- **Layout.** The parser sees the rows of a document, whatever comments, blank lines and line
endings it is laid out with. -/
theorem parse_layout (layout : List Line) :
    parseRequiredMacroPackIds (layoutBytes layout) =
      Scan.ids <$> (layout.filterMap Line.row).foldlM stepRow Scan.new := by
  have hlines : ∀ l ∈ layout.map Line.text, '\n' ∉ l := by
    intro l hl
    obtain ⟨line, -, rfl⟩ := List.mem_map.mp hl
    exact line.single
  have hcr : ∀ s l, step s (Str.stripCr l) = step s l := fun s l => by
    simp only [step, stripComment_stripCr]
  have hrows : ∀ s, (layout.map Line.text).foldlM step s =
      (layout.filterMap Line.row).foldlM stepRow s := by
    clear hlines
    intro s
    induction layout generalizing s with
    | nil => rfl
    | cons l layout ih =>
      rw [List.map_cons, List.foldlM_cons, step_line, List.filterMap_cons]
      cases l.row with
      | none => exact ih s
      | some r =>
        rw [List.foldlM_cons]
        exact bind_congr ih
  rw [layoutBytes, parseRequiredMacroPackIds_utf8, Str.foldlM_lines (fun s => rfl) hcr hlines,
    hrows]

/-! ### Pack lists -/

/-- A plain identifier. -/
structure PackId where
  text : Str
  said : text ≠ []
  plain : ∀ c ∈ text, isWhite c = false ∧ c ≠ ',' ∧ c ≠ doubleQuote ∧ c ≠ singleQuote

/-- An entry of an inline list. -/
structure InlineId where
  left : Nat
  id : PackId
  right : Nat

def InlineId.text (x : InlineId) : Str :=
  List.replicate x.left ' ' ++ x.id.text ++ List.replicate x.right ' '

/-- An item of a block list: how much further it is indented than its key, and the blanks after
the dash. -/
structure BlockId where
  shift : Nat
  gap : Nat
  id : PackId

def BlockId.row (indent : Nat) (x : BlockId) : Row :=
  ⟨indent + x.shift, '-' :: (List.replicate x.gap ' ' ++ x.id.text)⟩

inductive PackList where
  | inline (lead : Nat) (ids : List InlineId)
  | block (ids : List BlockId)

namespace PackList

/-- What stands after the key. -/
def value : PackList → Str
  | .inline lead ids =>
    List.replicate lead ' ' ++ ('[' :: ([','].intercalate (ids.map InlineId.text) ++ [']']))
  | .block _ => []

/-- The rows under the key. -/
def rows (indent : Nat) : PackList → List Row
  | .inline _ _ => []
  | .block ids => ids.map (BlockId.row indent)

def ids : PackList → List Str
  | .inline _ ids => ids.map (·.id.text)
  | .block ids => ids.map (·.id.text)

end PackList

theorem PackId.trimmed (id : PackId) : Str.Trimmed id.text :=
  ⟨fun c hc => (id.plain c (List.mem_of_mem_head? hc)).1,
    fun c hc => (id.plain c (List.mem_of_mem_getLast? hc)).1⟩

theorem PackId.trim (id : PackId) : Str.trim id.text = id.text :=
  Str.trim_indented (List.forall_mem_nil _) id.trimmed id.said

theorem unquote_plain {quote : Char} {s : Str} (h : quote ∉ s) : unquote quote s = none := by
  unfold unquote
  split
  · rfl
  · rename_i c rest
    rw [if_neg]
    rintro ⟨rfl, -⟩
    exact h List.mem_cons_self

theorem readItem_id (id : PackId) : readItem id.text = .ok [id.text] := by
  have hcomma : id.text.rdropWhile (· = ',') = id.text := by
    refine List.rdropWhile_eq_self_iff.mpr fun hne => ?_
    rw [decide_eq_true_iff]
    exact (id.plain _ (List.getLast_mem hne)).2.1
  have hdouble : doubleQuote ∉ id.text := fun h => (id.plain _ h).2.2.1 rfl
  have hsingle : singleQuote ∉ id.text := fun h => (id.plain _ h).2.2.2 rfl
  have hitem : parsePackItem id.text = .ok id.text := by
    unfold parsePackItem
    simp only [id.trim, hcomma, unquote_plain hdouble, unquote_plain hsingle]
    rw [if_neg id.said]
    show (if Str.trim id.text = [] then _ else _) = _
    rw [id.trim, if_neg id.said]
    exact congrArg Except.ok id.trim
  rw [readItem, hitem]
  exact congrArg Except.ok (if_neg id.said)

theorem InlineId.trim_text (x : InlineId) : Str.trim x.text = x.id.text :=
  Str.trim_padded (Str.blank_replicate _) x.id.trimmed x.id.said (Str.blank_replicate _)

theorem InlineId.comma_notMem (x : InlineId) : ',' ∉ x.text := by
  intro h
  rcases List.mem_append.mp h with h | h
  · rcases List.mem_append.mp h with h | h
    · exact absurd (List.eq_of_mem_replicate h) (by decide)
    · exact (x.id.plain _ h).2.1 rfl
  · exact absurd (List.eq_of_mem_replicate h) (by decide)

theorem mapM_readItem (ids : List InlineId) :
    (ids.map InlineId.text).mapM (fun item => readItem (Str.trim item)) =
      .ok (ids.map fun x => [x.id.text]) := by
  induction ids with
  | nil => rfl
  | cons x ids ih =>
    rw [List.map_cons, List.mapM_cons, x.trim_text, readItem_id, ih]
    rfl

/-- The value of a pack key gives the ids of an inline list. -/
theorem parsePackValue_inline (lead : Nat) (ids : List InlineId) :
    parsePackValue (PackList.inline lead ids).value = .ok (PackList.inline lead ids).ids := by
  have htrim : Str.trim (PackList.inline lead ids).value =
      '[' :: ([','].intercalate (ids.map InlineId.text) ++ [']']) := by
    have htrimmed : Str.Trimmed ('[' :: ([','].intercalate (ids.map InlineId.text) ++ [']'])) := by
      refine ⟨fun c hc => ?_, fun c hc => ?_⟩
      · cases hc
        rfl
      · rw [← List.cons_append, List.getLast?_concat] at hc
        cases hc
        rfl
    exact Str.trim_indented (Str.blank_replicate lead) htrimmed (by simp)
  rw [parsePackValue, htrim]
  show (if ([','].intercalate (ids.map InlineId.text) ++ [']']).getLast? = some ']' then _
    else _) = _
  rw [if_pos List.getLast?_concat, List.dropLast_concat]
  cases ids with
  | nil => rfl
  | cons x ids =>
    have hcomma : ∀ t ∈ (x :: ids).map InlineId.text, ',' ∉ t := by
      intro t ht
      obtain ⟨y, -, rfl⟩ := List.mem_map.mp ht
      exact y.comma_notMem
    rw [List.splitOn_intercalate _ hcomma (by simp), mapM_readItem]
    exact congrArg Except.ok List.map_eq_flatMap.symm

/-! ### What is read in a pack list -/

/-- What a key and its list are read for. -/
def PackList.results : PackList → List (Except ClientError (List Str))
  | .inline _ ids => [.ok (ids.map (·.id.text))]
  | .block ids => .ok [] :: ids.map fun x => .ok [x.id.text]

section

variable {pre : List Row} {r : Row} {x : Except ClientError (List Str)} {list : PackList}

/-- The items after a key without a value are read one by one. -/
theorem readIn_items {ids : List BlockId} {indent : Nat} (hopen : packsOutline.Opened pre r)
    (hvalue : r.NoValue) :
    ReadIn pre (ids.map (BlockId.row indent)) x ↔ x ∈ ids.map fun x => .ok [x.id.text] := by
  induction ids generalizing pre with
  | nil => exact iff_of_false not_somewhere_nil nofun
  | cons item ids ih =>
    have hunder : packsOutline.Under pre (item.row indent) := ⟨r, hopen, hvalue, .inr rfl⟩
    have hread : Reads pre (item.row indent) x ↔ x = .ok [item.id.text] := by
      have htrim : Str.trim (List.replicate item.gap ' ' ++ item.id.text) = item.id.text :=
        Str.trim_indented (Str.blank_replicate item.gap) item.id.trimmed item.id.said
      rw [← readItem_id, ← htrim]
      exact and_iff_right hunder
    rw [List.map_cons, ReadIn, somewhere_cons, hread, List.map_cons, List.mem_cons]
    exact or_congr_right (ih (.line hopen (fun h => h) (.inr rfl)))

/-- Whatever is read at a pack key and in its list is one of their ids, and each id is read. -/
theorem PackList.readIn (hkey : IsPackKey pre r) (hvalue : list.value = [] → r.NoValue)
    (hreads : Reads pre r x ↔ x = parsePackValue list.value) :
    ReadIn pre (r :: list.rows r.indent) x ↔ x ∈ list.results := by
  rw [ReadIn, somewhere_cons, hreads]
  cases list with
  | inline lead ids =>
    rw [parsePackValue_inline, rows, or_iff_left not_somewhere_nil]
    exact List.mem_singleton.symm
  | block ids =>
    rw [results, List.mem_cons]
    exact or_congr_right (readIn_items (.key hkey) (hvalue rfl))

theorem PackList.results_ok (h : x ∈ list.results) : ∃ got, x = .ok got ∧ got ⊆ list.ids := by
  cases list with
  | inline lead ids => exact ⟨_, List.mem_singleton.mp h, List.Subset.refl _⟩
  | block ids =>
    rcases List.mem_cons.mp h with rfl | h
    · exact ⟨[], rfl, List.nil_subset _⟩
    · obtain ⟨item, hitem, rfl⟩ := List.mem_map.mp h
      exact ⟨_, rfl, List.cons_subset.mpr ⟨List.mem_map_of_mem hitem, List.nil_subset _⟩⟩

theorem PackList.exists_results {id : Str} (h : id ∈ list.ids) :
    ∃ got, .ok got ∈ list.results ∧ id ∈ got := by
  cases list with
  | inline lead ids => exact ⟨_, List.mem_singleton_self _, h⟩
  | block ids =>
    obtain ⟨item, hitem, rfl⟩ := List.mem_map.mp h
    exact ⟨_, List.mem_cons_of_mem _ (List.mem_map_of_mem hitem), List.mem_singleton_self _⟩

end

/-! ### Documents -/

/-- An entry of the macro section, with the rows below it. -/
inductive Entry where
  | packs (list : PackList)
  | other (text : Str) (below : List Row)

/-- A top-level key with its block. -/
inductive Section where
  | macroPacks (list : PackList)
  | macroSection (scalar : Str) (indent : Nat) (entries : List Entry)
  | other (text : Str) (block : List Row)

/-- The rows below an entry stand at its right, the items of a list also straight below it. -/
def Entry.WellFormed (indent : Nat) : Entry → Prop
  | .packs _ => True
  | .other text below =>
    ((⟨indent, text⟩ : Row).isItem = false ∧ (⟨indent, text⟩ : Row).isPacks = false) ∧
      ∀ r ∈ below, indent < r.indent ∨ r.isItem = true ∧ indent ≤ r.indent

instance instDecidableEntry (indent : Nat) : (e : Entry) → Decidable (e.WellFormed indent)
  | .packs _ => isTrue trivial
  | .other _ _ => inferInstanceAs (Decidable (_ ∧ ∀ r ∈ _, _ ∨ _))

def Section.WellFormed : Section → Prop
  | .macroPacks _ => True
  | .macroSection scalar indent entries => 0 < indent ∧ (Str.trim scalar).head? ≠ some '{' ∧
      ∀ entry ∈ entries, entry.WellFormed indent
  | .other text block => ((⟨0, text⟩ : Row).start matches .packs _ | .other) = true ∧
      ∀ r ∈ block, 0 < r.indent ∨ r.isItem = true

instance instDecidableSection : (s : Section) → Decidable s.WellFormed
  | .macroPacks _ => isTrue trivial
  | .macroSection _ _ _ => inferInstanceAs (Decidable (_ ∧ _ ∧ ∀ entry ∈ _, _))
  | .other _ _ => inferInstanceAs (Decidable (_ ∧ ∀ r ∈ _, _ ∨ _))

/-- A synthesizer document. -/
structure Document where
  sections : List Section
  wellFormed : ∀ s ∈ sections, s.WellFormed

/-- The parts of a document: the lists of macro packs with their keys, and the other rows. -/
inductive Part where
  | macroPacks (list : PackList)
  | packs (indent : Nat) (list : PackList)
  | row (r : Row)

namespace Part

def rows : Part → List Row
  | .macroPacks list => ⟨0, macroPacksKey ++ list.value⟩ :: list.rows 0
  | .packs indent list => ⟨indent, packsKey ++ list.value⟩ :: list.rows indent
  | .row r => [r]

/-- The ids a part lists for macro packs. -/
def ids : Part → List Str
  | .macroPacks list | .packs _ list => list.ids
  | .row _ => []

/-- A list of macro packs that the parser finds: at the key `macro.packs`, or where a macro key is
open. -/
def Heard (pre : List Row) : Part → Prop
  | .macroPacks _ => True
  | .packs indent list => macroOutline.Under pre ⟨indent, packsKey ++ list.value⟩
  | .row _ => False

end Part

def Entry.parts (indent : Nat) : Entry → List Part
  | .packs list => [.packs indent list]
  | .other text below => .row ⟨indent, text⟩ :: below.map .row

def Section.parts : Section → List Part
  | .macroPacks list => [.macroPacks list]
  | .macroSection scalar indent entries =>
    .row ⟨0, macroKey ++ scalar⟩ :: entries.flatMap (Entry.parts indent)
  | .other text block => .row ⟨0, text⟩ :: block.map .row

namespace Document

variable (doc : Document)

def parts : List Part := doc.sections.flatMap Section.parts

def rows : List Row := doc.parts.flatMap Part.rows

/-- The ids listed for macro packs. -/
def listed : Finset Str := (doc.parts.flatMap Part.ids).toFinset

/-- An id that is listed where the parser finds it. -/
def Heard (id : Str) : Prop :=
  Somewhere (fun before part => part.Heard (before.flatMap Part.rows) ∧ id ∈ part.ids) [] doc.parts

/-- What is read in a document apart from the lists that the parser finds. -/
def Strays (x : Except ClientError (List Str)) : Prop :=
  Somewhere (fun before part => ¬ part.Heard (before.flatMap Part.rows) ∧
    ReadIn (before.flatMap Part.rows) part.rows x) [] doc.parts

end Document

/-- A list that is found is read for its ids. -/
theorem Part.Heard.readIn {part : Part} {pre : List Row} (h : part.Heard pre) :
    ∃ list : PackList, part.ids = list.ids ∧ ∀ x, ReadIn pre part.rows x ↔ x ∈ list.results := by
  cases part with
  | macroPacks list =>
    exact ⟨list, rfl, fun x => PackList.readIn (r := ⟨0, _⟩) trivial
      (fun hvalue => by rw [hvalue]; rfl) Iff.rfl⟩
  | packs indent list =>
    exact ⟨list, rfl, fun x => PackList.readIn (r := ⟨indent, _⟩) h
      (fun hvalue => by rw [hvalue]; rfl) (and_iff_right h)⟩
  | row r => exact h.elim

section

variable {doc : Document} {x : Except ClientError (List Str)}

theorem Document.readIn_rows : ReadIn [] doc.rows x ↔
    Somewhere (fun before part => ReadIn (before.flatMap Part.rows) part.rows x) [] doc.parts := by
  show Somewhere _ (([] : List Part).flatMap Part.rows) _ ↔ _
  exact somewhere_flatMap

theorem Document.Strays.readIn (h : doc.Strays x) : ReadIn [] doc.rows x := by
  obtain ⟨before, part, after, hparts, -, hread⟩ := h
  exact Document.readIn_rows.mpr ⟨before, part, after, hparts, hread⟩

/-- Whatever is read is astray, or gives ids that are listed where it is read. -/
theorem Document.reads (h : ReadIn [] doc.rows x) :
    doc.Strays x ∨ ∃ got, x = .ok got ∧ ∀ id ∈ got, doc.Heard id := by
  obtain ⟨before, part, after, hparts, hread⟩ := Document.readIn_rows.mp h
  by_cases hheard : part.Heard (before.flatMap Part.rows)
  · obtain ⟨list, hids, hreads⟩ := hheard.readIn
    obtain ⟨got, hgot, hsub⟩ := PackList.results_ok ((hreads x).mp hread)
    exact .inr ⟨got, hgot, fun id hid =>
      ⟨before, part, after, hparts, hheard, hids ▸ hsub hid⟩⟩
  · exact .inl ⟨before, part, after, hparts, hheard, hread⟩

theorem Document.Heard.readIn {id : Str} (h : doc.Heard id) :
    ∃ got, ReadIn [] doc.rows (.ok got) ∧ id ∈ got := by
  obtain ⟨before, part, after, hparts, hheard, hid⟩ := h
  obtain ⟨list, hids, hreads⟩ := Part.Heard.readIn hheard
  obtain ⟨got, hgot, hmem⟩ := PackList.exists_results (hids ▸ hid)
  exact ⟨got, Document.readIn_rows.mpr ⟨before, part, after, hparts, (hreads _).mpr hgot⟩, hmem⟩

theorem Document.Heard.listed {id : Str} (h : doc.Heard id) : id ∈ doc.listed := by
  obtain ⟨before, part, after, hparts, -, hid⟩ := h
  exact List.mem_toFinset.mpr (List.mem_flatMap.mpr ⟨part, by simp [hparts], hid⟩)

end

/-- **Required macro packs.** A document in any layout is read exactly if whatever the parser
takes for a pack key, an inline macro object or a pack item elsewhere is well formed and names
no other ids, and every id is listed where a macro key is open, or named elsewhere too. -/
theorem required_packs_exact_iff (doc : Document) (layout : List Line)
    (h : layout.filterMap Line.row = doc.rows) :
    parseRequiredMacroPackIds (layoutBytes layout) = .ok doc.listed ↔
      (∀ x, doc.Strays x → ∃ got, x = .ok got ∧ ∀ id ∈ got, id ∈ doc.listed) ∧
        ∀ id ∈ doc.listed, doc.Heard id ∨ ∃ got, doc.Strays (.ok got) ∧ id ∈ got := by
  rw [parse_layout, h, foldlM_stepRow_ok]
  constructor
  · rintro ⟨hlegible, hids⟩
    refine ⟨fun x hx => ?_, fun id hid => ?_⟩
    · obtain ⟨got, rfl⟩ := hlegible x hx.readIn
      exact ⟨got, rfl, fun id hid => (hids id).mpr ⟨got, hx.readIn, hid⟩⟩
    · obtain ⟨got, hread, hmem⟩ := (hids id).mp hid
      rcases Document.reads hread with hstray | ⟨_, ⟨⟩, hheard⟩
      · exact .inr ⟨got, hstray, hmem⟩
      · exact .inl (hheard id hmem)
  · rintro ⟨hstrays, hheard⟩
    have hall : ∀ x, ReadIn [] doc.rows x → ∃ got, x = .ok got ∧ ∀ id ∈ got, id ∈ doc.listed := by
      intro x hx
      rcases Document.reads hx with hstray | ⟨got, hgot, hids⟩
      · exact hstrays x hstray
      · exact ⟨got, hgot, fun id hid => (hids id hid).listed⟩
    refine ⟨fun x hx => (hall x hx).imp fun _ => And.left, fun id => ⟨fun hid => ?_, ?_⟩⟩
    · rcases hheard id hid with hid | ⟨got, hstray, hmem⟩
      · exact hid.readIn
      · exact ⟨got, hstray.readIn, hmem⟩
    · rintro ⟨got, hread, hmem⟩
      obtain ⟨_, ⟨⟩, hids⟩ := hall _ hread
      exact hids id hmem

/-! ### Three documents -/

/-- Rows in lines without blanks and comments. -/
def bare (rows : List Row) (h : ∀ r ∈ rows, r.InLine ∧ '\n' ∉ lineText (some r) [] none) :
    List Line :=
  rows.pmap (fun r h => ⟨some r, [], none, fun _ hr => Option.some.inj hr ▸ h.1, nofun, h.2⟩) h

/-- Macro packs in both forms, and lists and a `packs` key under other keys. -/
def plainDocument : Document where
  sections :=
    [.other "notes:".toList [⟨2, "packs: [z]".toList⟩, ⟨0, "- w".toList⟩],
      .macroPacks (.block [⟨0, 1, ⟨['a'], by decide, by decide⟩⟩]),
      .macroSection [] 2 [.other "seeds:".toList [⟨4, "- s".toList⟩],
        .packs (.inline 1 [⟨1, ⟨['b'], by decide, by decide⟩, 0⟩,
          ⟨1, ⟨['a'], by decide, by decide⟩, 1⟩])]]
  wellFormed := by decide +kernel

/-- The document with comments, a blank line and carriage returns. -/
def plainLayout : List Line :=
  ⟨none, [], some " packs".toList, nofun, nofun, by decide +kernel⟩ ::
    bare (plainDocument.rows.take 5) (by decide +kernel) ++
    ⟨none, [' ', '\r'], none, nofun, by decide, by decide +kernel⟩ ::
    ⟨some ⟨0, "macro:".toList⟩, [' '], some "\r".toList, by decide +kernel, by decide,
      by decide +kernel⟩ ::
    bare (plainDocument.rows.drop 6) (by decide +kernel)

/-- The document is read exactly in this layout. -/
theorem required_packs_plain :
    parseRequiredMacroPackIds (layoutBytes plainLayout) = .ok plainDocument.listed ∧
      plainDocument.listed = {['a'], ['b']} ∧ ∀ id ∈ plainDocument.listed,
        plainDocument.Heard id ∨ ∃ got, plainDocument.Strays (.ok got) ∧ id ∈ got := by
  have hrows : plainLayout.filterMap Line.row = plainDocument.rows := by decide +kernel
  have hread : Scan.ids <$> (plainLayout.filterMap Line.row).foldlM stepRow Scan.new =
      .ok plainDocument.listed := by rfl
  have hparse := (parse_layout plainLayout).trans hread
  exact ⟨hparse, by decide +kernel,
    ((required_packs_exact_iff plainDocument plainLayout hrows).mp hparse).2⟩

/-- A top-level `packs` key after the macro section, and a macro section inside another key. -/
def mistaken : Document where
  sections :=
    [.macroSection [] 2 [.other "seed: s".toList []],
      .other "packs:".toList [⟨2, "- x".toList⟩],
      .other "notes:".toList [⟨2, "macro:".toList⟩, ⟨4, "packs: [y]".toList⟩]]
  wellFormed := by decide +kernel

/-- A macro key further down in the macro section. -/
def missed : Document where
  sections :=
    [.macroSection [] 2 [.other "a:".toList [⟨4, "macro:".toList⟩, ⟨6, "b: 1".toList⟩],
      .other "c: 2".toList [], .packs (.inline 1 [⟨0, ⟨['x'], by decide, by decide⟩, 0⟩])]]
  wellFormed := by decide +kernel

/-- Two macro packs are required that are not listed, and one is not required that is listed. -/
theorem required_packs_mistaken :
    (mistaken.listed = ∅ ∧ parseRequiredMacroPackIds
      (layoutBytes (bare mistaken.rows (by decide +kernel))) = .ok {['x'], ['y']}) ∧
    missed.listed = {['x']} ∧ parseRequiredMacroPackIds
      (layoutBytes (bare missed.rows (by decide +kernel))) = .ok ∅ := by
  refine ⟨⟨by decide +kernel, (parse_layout _).trans ?_⟩, by decide +kernel,
    (parse_layout _).trans ?_⟩
  · rfl
  · rfl

end Orchestrator.Driver
