import FlatCode.Text.CodePoint

/-!
# Blank characters and words

Unicode white space, and the cuts at it that the text formats use: trimming a line and splitting
off its first word. Core's `Char.isWhitespace` knows ASCII only; every character of it is blank
here (`isBlank_of_isWhitespace`).
-/

namespace FlatCode.Text

/-- White space: the Unicode property, with the four ASCII separators `U+001C` to `U+001F`. -/
def isBlank (c : CodePoint) : Bool :=
  let n := c.toNat
  (0x9 ≤ n && n ≤ 0xD) || (0x1C ≤ n && n ≤ 0x20) || n == 0x85 || n == 0xA0 || n == 0x1680
    || (0x2000 ≤ n && n ≤ 0x200A) || n == 0x2028 || n == 0x2029 || n == 0x202F || n == 0x205F
    || n == 0x3000

theorem isBlank_of_isWhitespace {c : Char} (h : c.isWhitespace = true) :
    isBlank (.char c) = true := by
  simp only [Char.isWhitespace, Bool.or_eq_true, decide_eq_true_eq] at h
  rcases h with ((rfl | rfl) | rfl) | rfl <;> decide

/-- No surrogate is white space. -/
theorem isBlank_surrogate (n : Fin 0x800) : isBlank (.surrogate n) = false := by
  have hn : (CodePoint.surrogate n).toNat = 0xD800 + n := rfl
  unfold isBlank
  rw [hn]
  simp only [Bool.or_eq_false_iff, Bool.and_eq_false_iff, decide_eq_false_iff_not,
    beq_eq_false_iff_ne]
  omega

/-- The text without its leading blanks. -/
def dropBlanks (s : Text) : Text := s.dropWhile isBlank

/-- The text without its trailing blanks. -/
def dropBlanksEnd (s : Text) : Text := (s.reverse.dropWhile isBlank).reverse

/-- The text without the blanks at both ends. -/
def trim (s : Text) : Text := dropBlanksEnd (dropBlanks s)

/-- The characters up to the first blank. -/
def firstWord (s : Text) : Text := s.takeWhile fun c => !isBlank c

/-- What is left after the first word and the blanks behind it. -/
def afterWord (s : Text) : Text := dropBlanks (s.dropWhile fun c => !isBlank c)

theorem length_dropBlanks_le (s : Text) : (dropBlanks s).length ≤ s.length :=
  (List.dropWhile_sublist _).length_le

theorem length_dropBlanksEnd_le (s : Text) : (dropBlanksEnd s).length ≤ s.length := by
  have h := (List.dropWhile_sublist isBlank (l := s.reverse)).length_le
  simpa [dropBlanksEnd] using h

theorem length_trim_le (s : Text) : (trim s).length ≤ s.length :=
  Nat.le_trans (length_dropBlanksEnd_le _) (length_dropBlanks_le s)

end FlatCode.Text
