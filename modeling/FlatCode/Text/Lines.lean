import FlatCode.Text.CodePoint

/-!
# Lines

Text is cut at ten kinds of line break; a carriage return with a line feed behind it is one break.
A break ends a line, so text that ends in one has no empty line after it, and the empty text has
no line.

Breaks also tell where a position is (`position`): there only the line feed counts.

## Termination

`splitLines` recurses on the text: the line break, or the first character of a line, is gone.
-/

namespace FlatCode.Text

/-- The characters that end a line. -/
def isLineBreak (c : CodePoint) : Bool :=
  let n := c.toNat
  (0xA ≤ n && n ≤ 0xD) || (0x1C ≤ n && n ≤ 0x1E) || n == 0x85 || n == 0x2028 || n == 0x2029

/-- A character put in front of the first line. -/
def extendFirst (c : CodePoint) : List Text → List Text
  | [] => [[c]]
  | line :: lines => (c :: line) :: lines

/-- The lines of a text, without their breaks. -/
def splitLines : Text → List Text
  | [] => []
  | .char '\r' :: .char '\n' :: rest => [] :: splitLines rest
  | c :: rest => if isLineBreak c then [] :: splitLines rest else extendFirst c (splitLines rest)

theorem splitLines_nil : splitLines [] = [] := rfl

theorem splitLines_crlf (rest : Text) :
    splitLines (.char '\r' :: .char '\n' :: rest) = [] :: splitLines rest := by
  simp [splitLines]

/-- A character that is no break belongs to the first line. -/
theorem splitLines_cons {c : CodePoint} (h : isLineBreak c = false) (rest : Text) :
    splitLines (c :: rest) = extendFirst c (splitLines rest) := by
  have hc : c ≠ .char '\r' := by rintro rfl; exact absurd h (by decide)
  rw [splitLines]
  · simp [h]
  · intro r hr _; exact hc hr

/-- The place of a character in a text: line and column count from one, lines end at line feeds. -/
structure Position where
  line : Nat
  column : Nat
  offset : Nat
  deriving DecidableEq, Repr

/-- The position behind the given leading part of a text. -/
def position (before : Text) : Position where
  line := before.count (.char '\n') + 1
  column := (before.reverse.takeWhile (· != .char '\n')).length + 1
  offset := before.length

end FlatCode.Text
