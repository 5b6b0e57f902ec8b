import FlatCode.Text.Lines

/-!
# What is wrong with a JSON text

A reader reports a fault with the number of characters that were left at the faulty place. That
number does not depend on where the reader started, so readers of parts need not know the whole
text; `locate` turns it into a place of the whole text.

An integer with very many digits is no fault of the text: it is refused for its size, with an error
of its own.
-/

namespace FlatCode.Json

open Text

/-- The kinds of fault. -/
inductive Fault where
  | expectingValue
  | expectingName
  | expectingColon
  | expectingComma
  | extraData
  | unterminatedString
  | controlCharacter
  | badEscape
  | badUnicodeEscape
  | byteOrderMark
  deriving DecidableEq, Repr

/-- The wording of a fault. -/
def Fault.message : Fault → String
  | .expectingValue => "Expecting value"
  | .expectingName => "Expecting property name enclosed in double quotes"
  | .expectingColon => "Expecting ':' delimiter"
  | .expectingComma => "Expecting ',' delimiter"
  | .extraData => "Extra data"
  | .unterminatedString => "Unterminated string starting at"
  | .controlCharacter => "Invalid control character at"
  | .badEscape => "Invalid \\escape"
  | .badUnicodeEscape => "Invalid \\uXXXX escape"
  | .byteOrderMark => "Unexpected UTF-8 BOM (decode using utf-8-sig)"

/-- Why a part of a text is not read. -/
inductive ReadError where
  /-- A fault, with the number of characters from its place to the end. -/
  | malformed (fault : Fault) (remaining : Nat)
  /-- An integer of more than `maxDigits` digits. -/
  | tooManyDigits (count : Nat)
  deriving DecidableEq, Repr

/-- Why a whole text is not read. -/
inductive TextError where
  | malformed (fault : Fault) (place : Position)
  | tooManyDigits (count : Nat)
  deriving DecidableEq, Repr

/-- The error of a part, placed in the whole text. -/
def ReadError.locate (text : Text) : ReadError → TextError
  | .malformed fault remaining =>
    .malformed fault (position (text.take (text.length - remaining)))
  | .tooManyDigits count => .tooManyDigits count

/-- The number of digits that an integer may have in a text. -/
def maxDigits : Nat := 4300

/-- The wording for an integer of too many digits. -/
def tooManyDigitsMessage (count : Nat) : String :=
  s!"Exceeds the limit ({maxDigits} digits) for integer string conversion: value has {count} "
    ++ "digits; use sys.set_int_max_str_digits() to increase the limit"

/-- The wording of an error of a whole text. -/
def TextError.message : TextError → String
  | .malformed fault ⟨line, column, offset⟩ =>
    s!"{fault.message}: line {line} column {column} (char {offset})"
  | .tooManyDigits count => tooManyDigitsMessage count

end FlatCode.Json
