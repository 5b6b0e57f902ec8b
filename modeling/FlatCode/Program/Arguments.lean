import FlatCode.Json.Reader
import FlatCode.Json.Writer
import FlatCode.Json.Equal
import FlatCode.Text.Blank

/-!
# The text of arguments

Arguments stand on a line with blanks between them. Where a JSON value stands, up to a blank or the
end, the argument is that value, so strings and containers may hold blanks. Anything else is a bare
word: it goes up to the next blank and is a string. A quote never starts a bare word.

A string is written bare when it is read back as itself, and as JSON otherwise.

## Termination

An argument takes at least one character (`length_readArgument`), so the text behind it is shorter.
-/

namespace FlatCode

open Text

/-- Why a text of arguments is not read. -/
inductive ArgumentError where
  /-- A quote starts something that is no string argument; the column counts from one. -/
  | malformedString (column : Nat)
  /-- An integer has more digits than is allowed. -/
  | tooManyDigits (count : Nat)
  deriving DecidableEq, Repr

/-- The wording of an error. -/
def ArgumentError.message : ArgumentError → String
  | .malformedString column => s!"Malformed string argument at column {column}"
  | .tooManyDigits count => Json.tooManyDigitsMessage count

namespace Arguments

/-- Whether a text starts with a blank or is empty, so that an argument in front of it is over. -/
def atBoundary : Text → Bool
  | [] => true
  | c :: _ => isBlank c

/-- Reads a bare word, at a column that counts from zero. -/
def readBare (column : Nat) (s : Text) : Except ArgumentError (Json × Text) :=
  match s with
  | .char '"' :: _ => .error (.malformedString (column + 1))
  | _ => .ok (.string (firstWord s), s.dropWhile fun c => !isBlank c)

/-- Reads one argument, at a column that counts from zero. -/
def readArgument (column : Nat) (s : Text) : Except ArgumentError (Json × Text) :=
  match Json.readValue s with
  | .error (.tooManyDigits count) => .error (.tooManyDigits count)
  | .error (.malformed _ _) => readBare column s
  | .ok (value, rest) => if atBoundary rest then .ok (value, rest) else readBare column s

theorem length_readBare {column : Nat} {c : CodePoint} {s rest : Text} {value : Json}
    (hc : isBlank c = false) (h : readBare column (c :: s) = .ok (value, rest)) :
    rest.length ≤ s.length := by
  unfold readBare at h
  split at h
  · simp at h
  · obtain ⟨_, rfl⟩ := Prod.mk.inj (Except.ok.inj h)
    rw [List.dropWhile_cons_of_pos (by simp [hc])]
    exact (List.dropWhile_sublist _).length_le

/-- An argument takes at least one character. -/
theorem length_readArgument {column : Nat} {c : CodePoint} {s rest : Text} {value : Json}
    (hc : isBlank c = false) (h : readArgument column (c :: s) = .ok (value, rest)) :
    rest.length ≤ s.length := by
  unfold readArgument at h
  split at h
  · simp at h
  · exact length_readBare hc h
  · next value' rest' hvalue =>
    split at h
    · obtain ⟨rfl, rfl⟩ := Prod.mk.inj (Except.ok.inj h)
      have h1 := Json.weight_readValue hvalue
      have h2 := Json.one_le_weight value'
      simp only [List.length_cons] at h1
      omega
    · exact length_readBare hc h

/-- Reads the arguments of a text from a column on. -/
def readFrom (column : Nat) (s : Text) : Except ArgumentError (List Json) :=
  match s with
  | [] => .ok []
  | c :: rest =>
    if hc : isBlank c then readFrom (column + 1) rest
    else
      match _h : readArgument column (c :: rest) with
      | .error e => .error e
      | .ok (value, behind) =>
        match readFrom (column + ((c :: rest).length - behind.length)) behind with
        | .error e => .error e
        | .ok values => .ok (value :: values)
termination_by s.length
decreasing_by
  · simp
  · have := length_readArgument (Bool.not_eq_true _ ▸ hc) _h
    simp only [List.length_cons]
    omega

/-- Reads the arguments of a text. -/
def read (s : Text) : Except ArgumentError (List Json) := readFrom 0 s

/-- Whether a string may be written bare, as far as its characters tell. -/
def looksBare (s : Text) : Bool :=
  !s.isEmpty && s.head? != some (.char '"') && !s.any isBlank

/-- Writes an argument: a string bare if that reads back as the string, all else as JSON. -/
def write (value : Json) : Except ArgumentError Text :=
  match value with
  | .string s =>
    if looksBare s then
      match read s with
      | .error e => .error e
      | .ok values =>
        .ok (if Json.sameItems values [value] then s else .ofChars (Json.write .compact value))
    else .ok (.ofChars (Json.write .compact value))
  | _ => .ok (.ofChars (Json.write .compact value))

end Arguments

end FlatCode
