import Mathlib.Data.List.Basic

/-! # Lib — Outlines

Lines that are nested by their indentation, read from top to bottom: a key stays open until a
line comes that does not stand beneath it, or the next key.

* `Outline.opened_snoc`: what one more line does to the open key.
* `Outline.Marks`: a flag and a column that stand for the open key, and how they move on.
* `somewhere_flatMap`: places in a text that is put together from parts.
-/

namespace Orchestrator.Lib

variable {α β : Type}

/-- Where keys stand, what may stand left of a key without closing it, and the keys that lines
can belong to. Whether a line is a key may depend on the lines before it. -/
structure Outline (α : Type) where
  indent : α → Nat
  exempt : α → Bool
  IsKey : List α → α → Prop
  Kept : α → Prop

namespace Outline

variable (o : Outline α)

/-- A line stands beneath a key: it is further right, or of a kind that may stand at the left. -/
def Beneath (key line : α) : Prop := o.indent key < o.indent line ∨ o.exempt line = true

/-- The key that is open after some lines: the last key, if every line since stands beneath it. -/
inductive Opened : List α → α → Prop where
  | key {lines key} (h : o.IsKey lines key) : Opened (lines ++ [key]) key
  | line {lines line key} (h : Opened lines key) (hnot : ¬ o.IsKey lines line)
      (hbeneath : o.Beneath key line) : Opened (lines ++ [line]) key

/-- The line after some others belongs to the open key. -/
def Under (lines : List α) (line : α) : Prop :=
  ∃ key, o.Opened lines key ∧ o.Kept key ∧ o.Beneath key line

/-- A flag and a column say whether an open key has lines that belong to it, and where it is. -/
structure Marks (lines : List α) (flag : Bool) (column : Nat) : Prop where
  flag : flag = true ↔ ∃ key, o.Opened lines key ∧ o.Kept key
  column : ∀ key, o.Opened lines key → o.indent key = column

variable {o} {lines : List α} {line : α} {flag : Bool} {column : Nat}

theorem not_opened_nil (key : α) : ¬ o.Opened [] key := by
  generalize hnil : ([] : List α) = lines
  rintro (h | h)
  · exact absurd hnil (by simp)
  · exact absurd hnil (by simp)

/-- One more line opens itself, or is neither a key nor in the way of the open one. -/
theorem opened_snoc {key : α} : o.Opened (lines ++ [line]) key ↔
    o.IsKey lines line ∧ line = key ∨
      ¬ o.IsKey lines line ∧ o.Opened lines key ∧ o.Beneath key line := by
  constructor
  · generalize hsnoc : lines ++ [line] = all
    intro h
    cases h with
    | key h =>
      obtain ⟨rfl, ⟨⟩⟩ := List.append_inj' hsnoc rfl
      exact .inl ⟨h, rfl⟩
    | line h hnot hbeneath =>
      obtain ⟨rfl, ⟨⟩⟩ := List.append_inj' hsnoc rfl
      exact .inr ⟨hnot, h, hbeneath⟩
  · rintro (⟨h, rfl⟩ | ⟨hnot, h, hbeneath⟩)
    · exact .key h
    · exact .line h hnot hbeneath

theorem marks_nil : o.Marks [] false 0 :=
  ⟨⟨nofun, fun ⟨key, h, _⟩ => absurd h (not_opened_nil key)⟩,
    fun key h => absurd h (not_opened_nil key)⟩

/-- The flag that is kept beneath the column says what the next line belongs to. -/
theorem Marks.under_iff (h : o.Marks lines flag column) (line : α) :
    (flag && !(decide (o.indent line ≤ column) && !o.exempt line)) = true ↔
      o.Under lines line := by
  have hbeneath : ∀ key, o.Opened lines key →
      ((!(decide (o.indent line ≤ column) && !o.exempt line)) = true ↔ o.Beneath key line) := by
    intro key hkey
    simp [Beneath, h.column key hkey, Decidable.or_iff_not_imp_left]
  rw [Bool.and_eq_true, h.flag]
  constructor
  · rintro ⟨⟨key, hkey, hkept⟩, hline⟩
    exact ⟨key, hkey, hkept, (hbeneath key hkey).mp hline⟩
  · rintro ⟨key, hkey, hkept, hline⟩
    exact ⟨⟨key, hkey, hkept⟩, (hbeneath key hkey).mpr hline⟩

theorem Marks.pass (h : o.Marks lines flag column) (hnot : ¬ o.IsKey lines line) :
    o.Marks (lines ++ [line]) (flag && !(decide (o.indent line ≤ column) && !o.exempt line))
      column := by
  have hopened : ∀ key, o.Opened (lines ++ [line]) key ↔
      o.Opened lines key ∧ o.Beneath key line := fun key => by
    rw [opened_snoc, or_iff_right (fun h => hnot h.1), and_iff_right hnot]
  refine ⟨(h.under_iff line).trans (exists_congr fun key => ?_), fun key hkey => ?_⟩
  · rw [hopened, and_assoc, and_comm (a := o.Kept key)]
  · exact h.column key ((hopened key).mp hkey).1

theorem marks_key (hkey : o.IsKey lines line) (hflag : flag = true ↔ o.Kept line) :
    o.Marks (lines ++ [line]) flag (o.indent line) := by
  have hopened : ∀ key, o.Opened (lines ++ [line]) key ↔ line = key := fun key => by
    rw [opened_snoc, or_iff_left (fun h => h.1 hkey), and_iff_right hkey]
  refine ⟨?_, fun key h => ?_⟩
  · simp [hopened, hflag]
  · rw [← (hopened key).mp h]

end Outline

/-! ### Places -/

/-- A property of a line and the lines before it holds somewhere in a text, where the text
follows other lines. -/
def Somewhere (P : List α → α → Prop) (pre text : List α) : Prop :=
  ∃ before line after, text = before ++ line :: after ∧ P (pre ++ before) line

section

variable {P : List α → α → Prop} {pre text : List α}

theorem not_somewhere_nil : ¬ Somewhere P pre [] := by
  rintro ⟨before, line, after, h, -⟩
  cases before <;> cases h

theorem somewhere_cons {line : α} :
    Somewhere P pre (line :: text) ↔ P pre line ∨ Somewhere P (pre ++ [line]) text := by
  constructor
  · rintro ⟨before, found, after, h, hP⟩
    cases before with
    | nil =>
      obtain ⟨rfl, -⟩ := List.cons.inj h
      exact .inl (by rwa [List.append_nil] at hP)
    | cons first before =>
      obtain ⟨rfl, rfl⟩ := List.cons.inj h
      exact .inr ⟨before, found, after, rfl, by rwa [List.append_assoc]⟩
  · rintro (hP | ⟨before, found, after, rfl, hP⟩)
    · exact ⟨[], line, text, rfl, by rwa [List.append_nil]⟩
    · exact ⟨line :: before, found, after, rfl, by rwa [List.append_assoc] at hP⟩

theorem somewhere_append {more : List α} :
    Somewhere P pre (text ++ more) ↔ Somewhere P pre text ∨ Somewhere P (pre ++ text) more := by
  induction text generalizing pre with
  | nil => rw [List.nil_append, List.append_nil, or_iff_right not_somewhere_nil]
  | cons line text ih =>
    rw [List.cons_append, somewhere_cons, ih, somewhere_cons, or_assoc, List.append_assoc]
    rfl

theorem somewhere_flatMap {f : β → List α} {before parts : List β} :
    Somewhere P (before.flatMap f) (parts.flatMap f) ↔
      Somewhere (fun before part => Somewhere P (before.flatMap f) (f part)) before parts := by
  induction parts generalizing before with
  | nil => exact iff_of_false not_somewhere_nil not_somewhere_nil
  | cons part parts ih =>
    rw [List.flatMap_cons, somewhere_append, somewhere_cons, ← ih, List.flatMap_append,
      List.flatMap_cons, List.flatMap_nil, List.append_nil]

end

end Orchestrator.Lib
