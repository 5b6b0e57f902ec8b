import FlatCode.Json.Value
import FlatCode.Number.Layout

/-!
# Writing JSON

A style says what stands between the parts of a value; the parts themselves have one form. Text is
ASCII: every character outside the printable ASCII ones is escaped, above `U+FFFF` as a pair of
code units. Doubles have their shortest decimal, so that an integer and a double never look alike.

The styles of this library are values of one record: `Style.compact` on lines of a program,
`Style.spaced` in listings, `Style.canonical` for digests, `Style.indented` for files.
-/

namespace FlatCode.Json

open Number

/-- How the parts of a value are set apart. -/
structure Style where
  /-- Between two items, in front of the line break if there is one. -/
  itemSeparator : List Char
  /-- Between a name and its value. -/
  nameSeparator : List Char
  /-- The spaces of one level, each part on its own line; none for all on one line. -/
  indent : Option Nat
  /-- Whether fields are ordered by name. -/
  sorted : Bool

/-- Without spaces. -/
def Style.compact : Style := ⟨[','], [':'], none, false⟩

/-- On one line, with a space behind each separator. -/
def Style.spaced : Style := ⟨[',', ' '], [':', ' '], none, false⟩

/-- On one line with the fields in order, so that equal objects have one text. -/
def Style.canonical : Style := { Style.spaced with sorted := true }

/-- A line for each part, two spaces a level. -/
def Style.indented : Style := ⟨[','], [':', ' '], some 2, false⟩

/-! ## Leaves -/

/-- A hexadecimal digit in lower case. -/
def hexDigit (n : Nat) : Char := Char.ofNat (if n < 10 then 0x30 + n else 0x61 + n - 10)

/-- The escape of a code unit. -/
def writeUnit (unit : Nat) : List Char :=
  ['\\', 'u', hexDigit (unit / 0x1000 % 16), hexDigit (unit / 0x100 % 16),
    hexDigit (unit / 0x10 % 16), hexDigit (unit % 16)]

/-- A character of a string. -/
def writeChar (c : Char) : List Char :=
  let n := c.toNat
  if c = '"' then ['\\', '"']
  else if c = '\\' then ['\\', '\\']
  else if c = '\n' then ['\\', 'n']
  else if c = '\r' then ['\\', 'r']
  else if c = '\t' then ['\\', 't']
  else if c = '\x08' then ['\\', 'b']
  else if c = '\x0c' then ['\\', 'f']
  else if 0x20 ≤ n ∧ n ≤ 0x7E then [c]
  else if n < 0x10000 then writeUnit n
  else writeUnit (0xD800 + (n - 0x10000) / 0x400) ++ writeUnit (0xDC00 + (n - 0x10000) % 0x400)

/-- A code point of a string. A surrogate is a code unit by itself. -/
def writeCodePoint : CodePoint → List Char
  | .char c => writeChar c
  | .surrogate n => writeUnit (0xD800 + n)

/-- A string in quotes. -/
def writeString (s : Text) : List Char := '"' :: (s.flatMap writeCodePoint ++ ['"'])

/-- An integer. -/
def writeInt (n : Int) : List Char :=
  if n < 0 then '-' :: Nat.toDigits 10 n.natAbs else Nat.toDigits 10 n.natAbs

/-- A sign where the number is negative. -/
def signed (negative : Bool) (s : List Char) : List Char := if negative then '-' :: s else s

/-- A double. -/
def writeFloat : Binary64 → List Char
  | .finite negative units _ => signed negative (Layout.standard.writeUnits units)
  | .infinite negative => signed negative ['I', 'n', 'f', 'i', 'n', 'i', 't', 'y']
  | .nan => ['N', 'a', 'N']

/-! ## Values -/

/-- The break in front of a part at a depth. -/
def Style.lineBreak (style : Style) (depth : Nat) : List Char :=
  match style.indent with
  | none => []
  | some width => '\n' :: List.replicate (width * depth) ' '

/-- Parts between two brackets; without parts the brackets stand together. -/
def Style.enclose (style : Style) (depth : Nat) (opening closing : Char) (parts : List (List Char)) :
    List Char :=
  if parts.isEmpty then [opening, closing]
  else
    opening :: (style.lineBreak (depth + 1)
      ++ List.intercalate (style.itemSeparator ++ style.lineBreak (depth + 1)) parts
      ++ style.lineBreak depth ++ [closing])

/-- Whether a field may stand in front of another: by name. -/
def fieldLe {α : Type} (a b : Text × α) : Bool :=
  Text.le a.1 b.1

/-- Fields in the order of a style. -/
def Style.order {α : Type} (style : Style) (fields : List (Text × α)) : List (Text × α) :=
  if style.sorted then fields.mergeSort fieldLe else fields

mutual

/-- A value at a depth. -/
def writeAt (style : Style) (depth : Nat) : Json → List Char
  | .null => ['n', 'u', 'l', 'l']
  | .bool true => ['t', 'r', 'u', 'e']
  | .bool false => ['f', 'a', 'l', 's', 'e']
  | .int n => writeInt n
  | .float x => writeFloat x
  | .string s => writeString s
  | .array items => style.enclose depth '[' ']' (writeItems style (depth + 1) items)
  | .object fields =>
    style.enclose depth '{' '}'
      ((style.order (writeFields style (depth + 1) fields)).map fun (name, value) =>
        writeString name ++ style.nameSeparator ++ value)

/-- The items of an array. -/
def writeItems (style : Style) (depth : Nat) : List Json → List (List Char)
  | [] => []
  | item :: rest => writeAt style depth item :: writeItems style depth rest

/-- The names of the fields of an object with the texts of their values. -/
def writeFields (style : Style) (depth : Nat) : List (Text × Json) → List (Text × List Char)
  | [] => []
  | (name, value) :: rest => (name, writeAt style depth value) :: writeFields style depth rest

end

/-- A value in a style. -/
def write (style : Style) (value : Json) : List Char := writeAt style 0 value

end FlatCode.Json
