import FlatCode.Text.CodePoint

/-!
# UTF-8

Text as bytes. Surrogates have no bytes, so a text with one is not written (`EncodeError`). Reading
is strict: it stops at the first byte that no character can start or go on with, and says which
bytes are to blame (`Utf8Error`). What is read has characters only.

## Termination

`decodeFrom` takes at least one byte for each character; it recurses on the bytes.
-/

namespace FlatCode.Text

/-! ## Writing -/

/-- The bytes of a character. -/
def encodeChar (c : Char) : List UInt8 :=
  let n := c.toNat
  if n < 0x80 then [UInt8.ofNat n]
  else if n < 0x800 then [UInt8.ofNat (0xC0 + n / 0x40), UInt8.ofNat (0x80 + n % 0x40)]
  else if n < 0x10000 then
    [UInt8.ofNat (0xE0 + n / 0x1000), UInt8.ofNat (0x80 + n / 0x40 % 0x40),
      UInt8.ofNat (0x80 + n % 0x40)]
  else
    [UInt8.ofNat (0xF0 + n / 0x40000), UInt8.ofNat (0x80 + n / 0x1000 % 0x40),
      UInt8.ofNat (0x80 + n / 0x40 % 0x40), UInt8.ofNat (0x80 + n % 0x40)]

/-- A surrogate in a text, its place, and how many surrogates stand there. -/
structure EncodeError where
  offset : Nat
  first : Fin 0x800
  count : Nat
  deriving DecidableEq, Repr

/-- The wording of an error. -/
def EncodeError.message (e : EncodeError) : String :=
  if e.count = 1 then
    let digits := String.ofList (Nat.toDigits 16 (0xD800 + e.first))
    s!"'utf-8' codec can't encode character '\\u{digits}' in position {e.offset}: "
      ++ "surrogates not allowed"
  else
    let last := e.offset + e.count - 1
    s!"'utf-8' codec can't encode characters in position {e.offset}-{last}: surrogates not allowed"

/-- Whether a code point is a surrogate. -/
def isSurrogate : CodePoint → Bool
  | .char _ => false
  | .surrogate _ => true

/-- The bytes of a text from an offset on. -/
def encodeFrom (offset : Nat) : Text → Except EncodeError (List UInt8)
  | [] => .ok []
  | .char c :: rest => (encodeFrom (offset + 1) rest).map (encodeChar c ++ ·)
  | .surrogate n :: rest => .error ⟨offset, n, (rest.takeWhile isSurrogate).length + 1⟩

/-- The bytes of a text. -/
def encode (s : Text) : Except EncodeError (List UInt8) := encodeFrom 0 s

/-! ## Reading -/

/-- What is wrong with a byte. -/
inductive Utf8Fault where
  | startByte
  | continuationByte
  | endOfData
  deriving DecidableEq, Repr

/-- The wording of a fault. -/
def Utf8Fault.message : Utf8Fault → String
  | .startByte => "invalid start byte"
  | .continuationByte => "invalid continuation byte"
  | .endOfData => "unexpected end of data"

/-- A fault, the place of the first byte that is to blame, that byte, and how many are to blame. -/
structure Utf8Error where
  fault : Utf8Fault
  offset : Nat
  byte : UInt8
  count : Nat
  deriving DecidableEq, Repr

/-- The wording of an error. -/
def Utf8Error.message (e : Utf8Error) : String :=
  if e.count = 1 then
    let digits := String.ofList [Nat.digitChar (e.byte.toNat / 16), Nat.digitChar (e.byte.toNat % 16)]
    s!"'utf-8' codec can't decode byte 0x{digits} in position {e.offset}: {e.fault.message}"
  else
    let last := e.offset + e.count - 1
    s!"'utf-8' codec can't decode bytes in position {e.offset}-{last}: {e.fault.message}"

/-- Whether a byte goes on with a character. -/
def isContinuation (b : UInt8) : Bool := 0x80 ≤ b && b ≤ 0xBF

/-- How many bytes a first byte asks for behind it, and the range that the first of them is in;
none if no character starts with the byte. -/
def lead? (b : UInt8) : Option (Nat × UInt8 × UInt8) :=
  if b ≤ 0x7F then some (0, 0, 0)
  else if b < 0xC2 then none
  else if b ≤ 0xDF then some (1, 0x80, 0xBF)
  else if b == 0xE0 then some (2, 0xA0, 0xBF)
  else if b == 0xED then some (2, 0x80, 0x9F)
  else if b ≤ 0xEF then some (2, 0x80, 0xBF)
  else if b == 0xF0 then some (3, 0x90, 0xBF)
  else if b ≤ 0xF3 then some (3, 0x80, 0xBF)
  else if b == 0xF4 then some (3, 0x80, 0x8F)
  else none

/-- The low bits of a byte. -/
def bits (b : UInt8) (width : Nat) : Nat := b.toNat % (1 <<< width)

/-- Decodes bytes from an offset on. -/
def decodeFrom (offset : Nat) : List UInt8 → Except Utf8Error (List Char)
  | [] => .ok []
  | a :: rest =>
    match lead? a, rest with
    | none, _ => .error ⟨.startByte, offset, a, 1⟩
    | some (0, _, _), rest => (decodeFrom (offset + 1) rest).map (Char.ofNat a.toNat :: ·)
    | some (_, _, _), [] => .error ⟨.endOfData, offset, a, 1⟩
    | some (more + 1, low, high), b :: rest =>
      if !(low ≤ b && b ≤ high) then .error ⟨.continuationByte, offset, a, 1⟩
      else
        match more, rest with
        | 0, rest =>
          (decodeFrom (offset + 2) rest).map (Char.ofNat (bits a 5 * 0x40 + bits b 6) :: ·)
        | _ + 1, [] => .error ⟨.endOfData, offset, a, 2⟩
        | more + 1, c :: rest =>
          if !isContinuation c then .error ⟨.continuationByte, offset, a, 2⟩
          else
            match more, rest with
            | 0, rest =>
              (decodeFrom (offset + 3) rest).map
                (Char.ofNat ((bits a 4 * 0x40 + bits b 6) * 0x40 + bits c 6) :: ·)
            | _ + 1, [] => .error ⟨.endOfData, offset, a, 3⟩
            | _ + 1, d :: rest =>
              if !isContinuation d then .error ⟨.continuationByte, offset, a, 3⟩
              else
                (decodeFrom (offset + 4) rest).map
                  (Char.ofNat
                    (((bits a 3 * 0x40 + bits b 6) * 0x40 + bits c 6) * 0x40 + bits d 6) :: ·)

/-- Decodes bytes. -/
def decode (bytes : List UInt8) : Except Utf8Error (List Char) := decodeFrom 0 bytes

end FlatCode.Text
