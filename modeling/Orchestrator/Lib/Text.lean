import Mathlib.Algebra.Ring.Nat
import Mathlib.Data.List.DropRight

/-! # Lib — Text

Lines, blanks and padding of texts that are lists of characters.

* `trim_padded`, `trimEnd_padded`: blanks around a trimmed text.
* `foldlM_lines`: reading the lines of a joined text one after the other.
-/

namespace Orchestrator.Lib

abbrev Str := List Char

/-- The Unicode property `White_Space`. -/
def isWhite (c : Char) : Bool :=
  let n := c.toNat
  (0x9 ≤ n && n ≤ 0xD) || n == 0x20 || n == 0x85 || n == 0xA0 || n == 0x1680 ||
    (0x2000 ≤ n && n ≤ 0x200A) || n == 0x2028 || n == 0x2029 || n == 0x202F || n == 0x205F ||
    n == 0x3000

namespace Str

-- The characters of a text are checked, not all characters there are.
instance (priority := high) decidableForall (p : Char → Prop) [DecidablePred p] (s : Str) :
    Decidable (∀ c ∈ s, p c) := s.decidableBAll p

instance (priority := high) decidableForallOption (p : Char → Prop) [DecidablePred p]
    (c : Option Char) : Decidable (∀ x ∈ c, p x) := c.decidableForallMem

def trimStart (s : Str) : Str := s.dropWhile isWhite

def trimEnd (s : Str) : Str := s.rdropWhile isWhite

def trim (s : Str) : Str := trimEnd (trimStart s)

/-- The length in bytes. -/
def width (s : Str) : Nat := (s.map Char.utf8Size).sum

/-- Removes a carriage return from the end. -/
def stripCr (s : Str) : Str := if s.getLast? = some '\r' then s.dropLast else s

/-- The lines of a text: an ending is a line feed, with or without a carriage return before it,
and the text after the last ending is a line if there is any. -/
def lines (s : Str) : List Str :=
  let pieces := s.splitOn '\n'
  pieces.dropLast.map stripCr ++ pieces.getLast?.toList.filter (· ≠ [])

/-- Nothing blank at either end. -/
def Trimmed (s : Str) : Prop :=
  (∀ c ∈ s.head?, isWhite c = false) ∧ ∀ c ∈ s.getLast?, isWhite c = false

instance (s : Str) : Decidable s.Trimmed :=
  inferInstanceAs (Decidable (_ ∧ _))

def Blank (s : Str) : Prop := ∀ c ∈ s, isWhite c = true

theorem width_append (s t : Str) : width (s ++ t) = width s + width t := by
  rw [width, List.map_append, List.sum_append]
  rfl

theorem width_replicate (n : Nat) : width (List.replicate n ' ') = n := by
  rw [width, List.map_replicate, List.sum_replicate_nat]
  exact Nat.mul_one n

theorem blank_replicate (n : Nat) : Blank (List.replicate n ' ') := by
  intro c hc
  rw [List.eq_of_mem_replicate hc]
  rfl

theorem trimStart_blank_append {pad s : Str} (h : Blank pad) :
    trimStart (pad ++ s) = trimStart s :=
  List.dropWhile_append_of_pos h

theorem trimEnd_append_blank {s pad : Str} (h : Blank pad) : trimEnd (s ++ pad) = trimEnd s := by
  induction pad using List.reverseRecOn with
  | nil => rw [List.append_nil]
  | append_singleton pad c ih =>
    rw [← List.append_assoc, trimEnd, List.rdropWhile_concat_pos _ _ _ (h c (by simp))]
    exact ih fun c hc => h c (List.mem_append_left _ hc)

theorem Trimmed.trimEnd_append {s : Str} (h : Trimmed s) (hs : s ≠ []) (left : Str) :
    trimEnd (left ++ s) = left ++ s := by
  refine List.rdropWhile_eq_self_iff.mpr fun hne => ?_
  rw [List.getLast_append_of_ne_nil _ hs, h.2 _ (List.getLast?_eq_some_getLast hs)]
  nofun

theorem Trimmed.trimStart {s : Str} (h : Trimmed s) : trimStart s = s := by
  cases s with
  | nil => rfl
  | cons c s => exact List.dropWhile_cons_of_neg (by rw [h.1 c rfl]; nofun)

theorem trimEnd_padded {left s pad : Str} (h : Trimmed s) (hs : s ≠ []) (hpad : Blank pad) :
    trimEnd (left ++ s ++ pad) = left ++ s := by
  rw [trimEnd_append_blank hpad, h.trimEnd_append hs]

theorem trim_padded {left s pad : Str} (hleft : Blank left) (h : Trimmed s) (hs : s ≠ [])
    (hpad : Blank pad) : trim (left ++ s ++ pad) = s := by
  have hstart : trimStart (s ++ pad) = s ++ pad := by
    cases s with
    | nil => exact absurd rfl hs
    | cons c s => exact List.dropWhile_cons_of_neg (by rw [h.1 c rfl]; nofun)
  rw [trim, List.append_assoc, trimStart_blank_append hleft, hstart]
  exact @trimEnd_padded [] s pad h hs hpad

theorem trim_indented {left s : Str} (hleft : Blank left) (h : Trimmed s) (hs : s ≠ []) :
    trim (left ++ s) = s := by
  have htrim := @trim_padded left s [] hleft h hs nofun
  rwa [List.append_nil] at htrim

/-- Reading the lines of a joined text: an empty last line and the carriage returns before the
line feeds make no difference to a reader that skips empty lines and trims the others. -/
theorem foldlM_lines {σ ε : Type} {f : σ → Str → Except ε σ} (hempty : ∀ s, f s [] = .ok s)
    (hcr : ∀ s l, f s (stripCr l) = f s l) {ls : List Str} (hls : ∀ l ∈ ls, '\n' ∉ l) (s : σ) :
    (lines (['\n'].intercalate ls)).foldlM f s = ls.foldlM f s := by
  obtain rfl | ⟨ls, last, rfl⟩ := ls.eq_nil_or_concat'
  · rfl
  · have hmap : ∀ s, (ls.map stripCr).foldlM f s = ls.foldlM f s := fun s => by
      rw [List.foldlM_map]
      simp only [hcr]
    rw [lines, List.splitOn_intercalate _ hls (by simp), List.dropLast_concat,
      List.getLast?_concat, List.foldlM_append, List.foldlM_append, hmap]
    congr 1
    funext s
    by_cases hlast : last = []
    · subst hlast
      show Except.ok s = f s [] >>= pure
      rw [hempty]
      rfl
    · simp [hlast]

end Str
end Orchestrator.Lib
