import FlatCode.Json.Value
import FlatCode.Json.Fault

/-!
# Reading JSON

A value is read from the front of a text and the rest is handed back (`readValue`); a whole text
holds one value and blanks around it (`read`). Beside the standard grammar there are `NaN`,
`Infinity` and `-Infinity`; a number without fraction and exponent is an integer of at most
`maxDigits` digits; a repeated key of an object keeps its first place and its last value.

## Termination

The value reader counts steps down (`valueWithin`): a character is worth two steps, one for the
value that starts at it and one for the list it stands in, so `2 * length + 1` steps are enough. The
string reader has a step for every character. The number of steps shows in no result.

## Main statements

* `weight_readValue`, `weight_read` — what is read is no heavier than the text that is gone, so the
  rest of a text is shorter than the text
-/

namespace FlatCode.Json

open Number

/-- The answer of a reader: what it read and the text behind it. -/
abbrev Reading (α : Type) := Except ReadError (α × Text)

/-- A fault in front of the given text. -/
def faultAt {α : Type} (fault : Fault) (rest : Text) : Except ReadError α :=
  .error (.malformed fault rest.length)

/-- The blanks that may stand between the parts of a value. -/
def isSpace (c : CodePoint) : Bool :=
  c == .char ' ' || c == .char '\t' || c == .char '\n' || c == .char '\r'

/-- The text behind its leading blanks. -/
def skipSpaces (s : Text) : Text := s.dropWhile isSpace

theorem length_skipSpaces_le (s : Text) : (skipSpaces s).length ≤ s.length :=
  (List.dropWhile_sublist _).length_le

/-! ## Strings -/

/-- The value of a hexadecimal digit. -/
def hexDigit? (c : CodePoint) : Option Nat :=
  let n := c.toNat
  if 0x30 ≤ n && n ≤ 0x39 then some (n - 0x30)
  else if 0x61 ≤ n && n ≤ 0x66 then some (n - 0x61 + 10)
  else if 0x41 ≤ n && n ≤ 0x46 then some (n - 0x41 + 10)
  else none

/-- The code unit that four hexadecimal digits give; the text must go on behind them. -/
def codeUnit? : Text → Option (Nat × Text)
  | a :: b :: c :: d :: next :: rest => do
    let a ← hexDigit? a
    let b ← hexDigit? b
    let c ← hexDigit? c
    let d ← hexDigit? d
    some (((a * 16 + b) * 16 + c) * 16 + d, next :: rest)
  | _ => none

theorem length_codeUnit? {s rest : Text} {unit : Nat} (h : codeUnit? s = some (unit, rest)) :
    rest.length + 4 = s.length := by
  unfold codeUnit? at h
  split at h
  · simp only [Option.bind_eq_bind, Option.bind_eq_some_iff] at h
    obtain ⟨_, _, _, _, _, _, _, _, h⟩ := h
    obtain ⟨_, rfl⟩ := Prod.mk.inj (Option.some.inj h)
    rfl
  · simp at h

/-- The first half of a pair of code units. -/
def isHighSurrogate (unit : Nat) : Bool := 0xD800 ≤ unit && unit ≤ 0xDBFF

/-- The second half of a pair of code units. -/
def isLowSurrogate (unit : Nat) : Bool := 0xDC00 ≤ unit && unit ≤ 0xDFFF

/-- The character of a pair of code units. -/
def joinSurrogates (high low : Nat) : CodePoint :=
  .char (Char.ofNat (0x10000 + (high - 0xD800) * 0x400 + (low - 0xDC00)))

/-- The code point of one code unit. -/
def codePointOfUnit (unit : Nat) : CodePoint :=
  if h : 0xD800 ≤ unit ∧ unit ≤ 0xDFFF then .surrogate ⟨unit - 0xD800, by omega⟩
  else .char (Char.ofNat unit)

/--
Reads the character behind `\u`. A first half of a pair takes the second half with it when another
escape follows that is complete.
-/
def readUnicodeEscape (s : Text) : Reading CodePoint :=
  match codeUnit? s with
  | none => .error (.malformed .badUnicodeEscape (s.length + 1))
  | some (unit, rest) =>
    match isHighSurrogate unit, rest with
    | true, .char '\\' :: .char 'u' :: more =>
      if more.length < 5 then .ok (codePointOfUnit unit, rest)
      else match codeUnit? more with
        | none => .error (.malformed .badUnicodeEscape (more.length + 1))
        | some (low, behind) =>
          if isLowSurrogate low then .ok (joinSurrogates unit low, behind)
          else .ok (codePointOfUnit unit, rest)
    | _, _ => .ok (codePointOfUnit unit, rest)

/-- The character that a letter behind a backslash stands for. -/
def escaped? (c : CodePoint) : Option CodePoint :=
  match c with
  | .char '"' => some (.char '"')
  | .char '\\' => some (.char '\\')
  | .char '/' => some (.char '/')
  | .char 'b' => some (.char '\x08')
  | .char 'f' => some (.char '\x0c')
  | .char 'n' => some (.char '\n')
  | .char 'r' => some (.char '\r')
  | .char 't' => some (.char '\t')
  | _ => none

/-- Reads one character of a string, or its closing quote (`none`). `opening` is the number of
characters from the opening quote on, for the error of a string that is never closed. -/
def readElement (opening : Nat) : Text → Reading (Option CodePoint)
  | [] => .error (.malformed .unterminatedString opening)
  | .char '"' :: rest => .ok (none, rest)
  | [.char '\\'] => .error (.malformed .unterminatedString opening)
  | .char '\\' :: .char 'u' :: rest => (readUnicodeEscape rest).map fun (c, rest) => (some c, rest)
  | .char '\\' :: c :: rest =>
    match escaped? c with
    | some d => .ok (some d, rest)
    | none => .error (.malformed .badEscape (rest.length + 2))
  | c :: rest =>
    if c.toNat ≤ 0x1F then .error (.malformed .controlCharacter (rest.length + 1))
    else .ok (some c, rest)

/-- Reads the characters of a string and its closing quote, in at most the given number of steps. -/
def stringWithin (opening : Nat) : Nat → Text → Reading Text
  | 0, _ => .error (.malformed .unterminatedString opening)
  | steps + 1, s =>
    match readElement opening s with
    | .error e => .error e
    | .ok (none, rest) => .ok ([], rest)
    | .ok (some c, rest) =>
      match stringWithin opening steps rest with
      | .error e => .error e
      | .ok (cs, rest) => .ok (c :: cs, rest)

/-- Reads a string from behind its opening quote. -/
def readString (s : Text) : Reading Text :=
  stringWithin (s.length + 1) (s.length + 1) s

/-! ## Numbers -/

/-- Whether a character is an ASCII digit, the only digits of a number. -/
def isDigit (c : Char) : Bool := 0x30 ≤ c.toNat && c.toNat ≤ 0x39

/-- The leading digits of a text, and the text behind them. -/
def takeDigits : Text → List Char × Text
  | .char c :: rest =>
    if isDigit c then
      let (digits, behind) := takeDigits rest
      (c :: digits, behind)
    else ([], .char c :: rest)
  | s => ([], s)

/-- The digits of the whole part: a zero alone, or digits that start with none. -/
def wholeDigits : Text → List Char × Text
  | .char '0' :: rest => (['0'], rest)
  | s => takeDigits s

/-- The digits behind a point, if there are any. -/
def fractionDigits : Text → List Char × Text
  | .char '.' :: rest =>
    match takeDigits rest with
    | ([], _) => ([], .char '.' :: rest)
    | (digits, rest) => (digits, rest)
  | s => ([], s)

/-- The sign in front of the digits of an exponent. -/
def exponentSign : Text → Bool × Text
  | .char '-' :: rest => (true, rest)
  | .char '+' :: rest => (false, rest)
  | s => (false, s)

/-- The exponent, if there is one with digits. -/
def exponentPart (s : Text) : Option Int × Text :=
  match s with
  | [] => (none, s)
  | c :: rest =>
    if c = .char 'e' || c = .char 'E' then
      let (negative, behind) := exponentSign rest
      match takeDigits behind with
      | ([], _) => (none, s)
      | (digits, behind) =>
        let n : Int := Nat.ofDigitChars 10 digits 0
        (some (if negative then -n else n), behind)
    else (none, s)

/-- The value of the parts of a number: an integer, unless it has a fraction or an exponent. -/
def numberOf (negative : Bool) (whole fraction : List Char) (exponent : Option Int) :
    Except ReadError Json :=
  if fraction.isEmpty && exponent.isNone then
    if maxDigits < whole.length then .error (.tooManyDigits whole.length)
    else
      let n : Int := Nat.ofDigitChars 10 whole 0
      .ok (.int (if negative then -n else n))
  else
    .ok (.float (.ofDecimal negative (Nat.ofDigitChars 10 (whole ++ fraction) 0)
      (exponent.getD 0 - fraction.length)))

/-- Reads a number. -/
def readNumber (s : Text) : Reading Json :=
  let (negative, behind) := match s with
    | .char '-' :: rest => (true, rest)
    | _ => (false, s)
  match wholeDigits behind with
  | ([], _) => faultAt .expectingValue s
  | (whole, behind) =>
    let (fraction, behind) := fractionDigits behind
    let (exponent, behind) := exponentPart behind
    (numberOf negative whole fraction exponent).map fun value => (value, behind)

/-! ## Values -/

/-- The text behind a word, if it starts with it. -/
def behindWord? : List Char → Text → Option Text
  | [], s => some s
  | _ :: _, [] => none
  | w :: word, c :: s => if c = .char w then behindWord? word s else none

/-- The words that stand for values. -/
def wordValues : List (List Char × Json) :=
  [(['n', 'u', 'l', 'l'], .null),
    (['t', 'r', 'u', 'e'], .bool true),
    (['f', 'a', 'l', 's', 'e'], .bool false),
    (['N', 'a', 'N'], .float .nan),
    (['I', 'n', 'f', 'i', 'n', 'i', 't', 'y'], .float (.infinite false)),
    (['-', 'I', 'n', 'f', 'i', 'n', 'i', 't', 'y'], .float (.infinite true))]

/-- Reads a value that is written as a word. -/
def readWord? (s : Text) : Option (Json × Text) :=
  wordValues.findSome? fun (word, value) => (behindWord? word s).map fun rest => (value, rest)

mutual

/-- Reads a value in at most the given number of steps. -/
def valueWithin : Nat → Text → Reading Json
  | 0, s => faultAt .expectingValue s
  | steps + 1, s =>
    match s with
    | .char '"' :: rest =>
      match readString rest with
      | .error e => .error e
      | .ok (s, rest) => .ok (.string s, rest)
    | .char '[' :: rest =>
      match skipSpaces rest with
      | .char ']' :: rest => .ok (.array [], rest)
      | rest =>
        match itemsWithin steps rest with
        | .error e => .error e
        | .ok (items, rest) => .ok (.array items, rest)
    | .char '{' :: rest =>
      match skipSpaces rest with
      | .char '}' :: rest => .ok (.object [], rest)
      | rest =>
        match fieldsWithin steps rest with
        | .error e => .error e
        | .ok (fields, rest) => .ok (.object (mergeFields fields), rest)
    | _ =>
      match readWord? s with
      | some reading => .ok reading
      | none => readNumber s

/-- Reads the items of an array and its closing bracket. -/
def itemsWithin : Nat → Text → Reading (List Json)
  | 0, s => faultAt .expectingValue s
  | steps + 1, s =>
    match valueWithin steps s with
    | .error e => .error e
    | .ok (item, rest) =>
      match skipSpaces rest with
      | .char ']' :: rest => .ok ([item], rest)
      | .char ',' :: rest =>
        match itemsWithin steps (skipSpaces rest) with
        | .error e => .error e
        | .ok (items, rest) => .ok (item :: items, rest)
      | rest => faultAt .expectingComma rest

/-- Reads the fields of an object and its closing brace. -/
def fieldsWithin : Nat → Text → Reading (List (Text × Json))
  | 0, s => faultAt .expectingName s
  | steps + 1, s =>
    match readField steps s with
    | .error e => .error e
    | .ok (field, rest) =>
      match skipSpaces rest with
      | .char '}' :: rest => .ok ([field], rest)
      | .char ',' :: rest =>
        match fieldsWithin steps (skipSpaces rest) with
        | .error e => .error e
        | .ok (fields, rest) => .ok (field :: fields, rest)
      | rest => faultAt .expectingComma rest

/-- Reads one field of an object: its name, a colon and its value. -/
def readField : Nat → Text → Reading (Text × Json)
  | 0, s => faultAt .expectingName s
  | steps + 1, s =>
    match s with
    | .char '"' :: rest =>
      match readString rest with
      | .error e => .error e
      | .ok (key, rest) =>
        match skipSpaces rest with
        | .char ':' :: rest =>
          match valueWithin steps (skipSpaces rest) with
          | .error e => .error e
          | .ok (value, rest) => .ok ((key, value), rest)
        | rest => faultAt .expectingColon rest
    | _ => faultAt .expectingName s

end

/-- Reads a value from the front of a text. -/
def readValue (s : Text) : Reading Json := valueWithin (2 * s.length + 1) s

/-- Reads a text that holds one value. -/
def read (text : Text) : Except TextError Json :=
  let reading : Except ReadError Json :=
    match text with
    | .char '\ufeff' :: _ => faultAt .byteOrderMark text
    | _ =>
      match readValue (skipSpaces text) with
      | .error e => .error e
      | .ok (value, rest) =>
        match skipSpaces rest with
        | [] => .ok value
        | rest => faultAt .extraData rest
  reading.mapError (·.locate text)

/-! ## The rest of a text is shorter -/

theorem length_readUnicodeEscape {s rest : Text} {c : CodePoint}
    (h : readUnicodeEscape s = .ok (c, rest)) : rest.length < s.length := by
  unfold readUnicodeEscape at h
  split at h
  · simp at h
  · next unit behind hunit =>
    have h0 := length_codeUnit? hunit
    split at h
    · next more _ _ =>
      split at h
      · obtain ⟨_, rfl⟩ := Prod.mk.inj (Except.ok.inj h)
        omega
      · split at h
        · simp at h
        · next low behind' hlow =>
          have h1 := length_codeUnit? hlow
          simp only [List.length_cons] at h0
          split at h
          · obtain ⟨_, rfl⟩ := Prod.mk.inj (Except.ok.inj h)
            omega
          · obtain ⟨_, rfl⟩ := Prod.mk.inj (Except.ok.inj h)
            simp only [List.length_cons]
            omega
    · obtain ⟨_, rfl⟩ := Prod.mk.inj (Except.ok.inj h)
      omega

theorem length_readElement {opening : Nat} {s rest : Text} {element : Option CodePoint}
    (h : readElement opening s = .ok (element, rest)) : rest.length < s.length := by
  unfold readElement at h
  split at h
  · simp at h
  · obtain ⟨_, rfl⟩ := Prod.mk.inj (Except.ok.inj h)
    simp
  · simp at h
  · next behind =>
    cases hc : readUnicodeEscape behind with
    | error e => simp [hc, Except.map] at h
    | ok reading =>
      obtain ⟨c, rest'⟩ := reading
      rw [hc] at h
      obtain ⟨_, rfl⟩ := Prod.mk.inj (Except.ok.inj h)
      have := length_readUnicodeEscape hc
      simp only [List.length_cons]
      omega
  · split at h
    · obtain ⟨_, rfl⟩ := Prod.mk.inj (Except.ok.inj h)
      simp only [List.length_cons]
      omega
    · simp at h
  · split at h
    · simp at h
    · obtain ⟨_, rfl⟩ := Prod.mk.inj (Except.ok.inj h)
      simp

theorem length_stringWithin {opening steps : Nat} {s cs rest : Text}
    (h : stringWithin opening steps s = .ok (cs, rest)) :
    cs.length + rest.length + 1 ≤ s.length := by
  induction steps generalizing s cs rest with
  | zero => simp [stringWithin] at h
  | succ steps ih =>
    rw [stringWithin] at h
    split at h
    · simp at h
    · next behind hel =>
      obtain ⟨rfl, rfl⟩ := Prod.mk.inj (Except.ok.inj h)
      have := length_readElement hel
      simp only [List.length_nil]
      omega
    · next c behind hel =>
      have h1 := length_readElement hel
      split at h
      · simp at h
      · next cs' rest' hrec =>
        obtain ⟨rfl, rfl⟩ := Prod.mk.inj (Except.ok.inj h)
        have := ih hrec
        simp only [List.length_cons]
        omega

/-- The characters of a string, its rest and the closing quote fit into the text. -/
theorem length_readString {s cs rest : Text} (h : readString s = .ok (cs, rest)) :
    cs.length + rest.length + 1 ≤ s.length :=
  length_stringWithin h

theorem length_takeDigits (s : Text) :
    (takeDigits s).1.length + (takeDigits s).2.length = s.length := by
  fun_induction takeDigits s with
  | case1 c rest hdigit digits behind heq ih =>
    rw [heq] at ih
    simp only [List.length_cons] at ih ⊢
    omega
  | case2 c rest hdigit => simp
  | case3 s hs => simp

theorem length_wholeDigits (s : Text) :
    (wholeDigits s).1.length + (wholeDigits s).2.length = s.length := by
  unfold wholeDigits
  split
  · simp only [List.length_cons, List.length_nil]
    omega
  · exact length_takeDigits s

theorem length_fractionDigits_le (s : Text) : (fractionDigits s).2.length ≤ s.length := by
  unfold fractionDigits
  split
  · next rest =>
    have h := length_takeDigits rest
    split
    · exact Nat.le_refl _
    · next heq =>
      rw [heq] at h
      dsimp only [List.length_cons] at h ⊢
      omega
  · exact Nat.le_refl _

theorem length_exponentSign_le (s : Text) : (exponentSign s).2.length ≤ s.length := by
  unfold exponentSign
  split <;> simp

theorem length_exponentPart_le (s : Text) : (exponentPart s).2.length ≤ s.length := by
  unfold exponentPart
  split
  · exact Nat.le_refl _
  · next c rest =>
    split
    · have h1 := length_exponentSign_le rest
      have h2 := length_takeDigits (exponentSign rest).2
      dsimp only
      split
      · exact Nat.le_refl _
      · next heq =>
        rw [heq] at h2
        dsimp only [List.length_cons] at h2 ⊢
        omega
    · exact Nat.le_refl _

/-- A number has a digit. -/
theorem length_readNumber {s rest : Text} {value : Json}
    (h : readNumber s = .ok (value, rest)) : rest.length < s.length := by
  unfold readNumber at h
  dsimp only at h
  split at h
  · simp [faultAt] at h
  · next whole behind hne hwhole =>
    have h1 := length_wholeDigits (match s with
      | .char '-' :: rest => (true, rest)
      | _ => (false, s)).2
    have h2 := length_fractionDigits_le behind
    have h3 := length_exponentPart_le (fractionDigits behind).2
    have h4 : (match s with
      | .char '-' :: rest => (true, rest)
      | _ => (false, s)).2.length ≤ s.length := by
      split <;> simp
    rw [hwhole] at h1
    have h5 : 0 < whole.length := by
      cases whole with
      | nil => exact absurd rfl hne
      | cons _ _ => simp
    revert h
    generalize numberOf _ _ _ _ = number
    intro h
    cases number with
    | error e => simp [Except.map] at h
    | ok v =>
      obtain ⟨_, rfl⟩ := Prod.mk.inj (Except.ok.inj h)
      simp only at h1
      omega

theorem length_behindWord? {word : List Char} {s rest : Text} (h : behindWord? word s = some rest) :
    word.length + rest.length = s.length := by
  induction word generalizing s with
  | nil =>
    obtain rfl := Option.some.inj h
    simp
  | cons w word ih =>
    cases s with
    | nil => simp [behindWord?] at h
    | cons c s =>
      rw [behindWord?] at h
      split at h
      · have := ih h
        simp only [List.length_cons]
        omega
      · simp at h

theorem weight_readWord? {s rest : Text} {value : Json}
    (h : readWord? s = some (value, rest)) : weight value + rest.length ≤ s.length := by
  obtain ⟨⟨word, v⟩, hmem, h⟩ := List.exists_of_findSome?_eq_some h
  obtain ⟨rest', hbehind, h⟩ := Option.map_eq_some_iff.mp h
  obtain ⟨rfl, rfl⟩ := Prod.mk.inj h
  have h1 := length_behindWord? hbehind
  have h2 : weight v ≤ word.length := by
    simp only [wordValues, List.mem_cons, Prod.mk.injEq, List.not_mem_nil, or_false] at hmem
    rcases hmem with ⟨rfl, rfl⟩ | ⟨rfl, rfl⟩ | ⟨rfl, rfl⟩ | ⟨rfl, rfl⟩ | ⟨rfl, rfl⟩ | ⟨rfl, rfl⟩ <;>
      simp [weight]
  omega

theorem weight_numberOf {negative : Bool} {whole fraction : List Char} {exponent : Option Int}
    {value : Json} (h : numberOf negative whole fraction exponent = .ok value) :
    weight value = 1 := by
  unfold numberOf at h
  split at h
  · split at h
    · simp at h
    · obtain rfl := Except.ok.inj h
      rfl
  · obtain rfl := Except.ok.inj h
    rfl

theorem weight_readNumber {s rest : Text} {value : Json}
    (h : readNumber s = .ok (value, rest)) : weight value + rest.length ≤ s.length := by
  have h1 := length_readNumber h
  have h2 : weight value = 1 := by
    unfold readNumber at h
    dsimp only at h
    split at h
    · simp [faultAt] at h
    · revert h
      generalize hn : numberOf _ _ _ _ = number
      intro h
      cases number with
      | error e => simp [Except.map] at h
      | ok v =>
        obtain ⟨rfl, _⟩ := Prod.mk.inj (Except.ok.inj h)
        exact weight_numberOf hn
  omega

/-- Each of the four readers gives at least one character for every unit of weight. -/
theorem weight_within (steps : Nat) :
    (∀ s value rest, valueWithin steps s = .ok (value, rest) →
      weight value + rest.length ≤ s.length) ∧
    (∀ s items rest, itemsWithin steps s = .ok (items, rest) →
      itemsWeight items + rest.length + 1 ≤ s.length) ∧
    (∀ s fields rest, fieldsWithin steps s = .ok (fields, rest) →
      fieldsWeight fields + rest.length + 1 ≤ s.length) ∧
    (∀ s field rest, readField steps s = .ok (field, rest) →
      weight field.2 + rest.length ≤ s.length) := by
  induction steps with
  | zero => simp [valueWithin, itemsWithin, fieldsWithin, readField, faultAt]
  | succ steps ih =>
    obtain ⟨ihValue, ihItems, ihFields, ihField⟩ := ih
    refine ⟨?_, ?_, ?_, ?_⟩
    · intro s value rest h
      rw [valueWithin.eq_def] at h
      dsimp only at h
      split at h
      · next behind =>
        split at h
        · simp at h
        · next cs rest' hcs =>
          obtain ⟨rfl, rfl⟩ := Prod.mk.inj (Except.ok.inj h)
          have := length_readString hcs
          simp only [weight, List.length_cons]
          omega
      · next behind =>
        have h0 := length_skipSpaces_le behind
        split at h
        · next heq =>
          obtain ⟨rfl, rfl⟩ := Prod.mk.inj (Except.ok.inj h)
          rw [heq] at h0
          simp only [weight, itemsWeight, List.length_cons] at h0 ⊢
          omega
        · split at h
          · simp at h
          · next items rest' hitems =>
            obtain ⟨rfl, rfl⟩ := Prod.mk.inj (Except.ok.inj h)
            have := ihItems _ _ _ hitems
            simp only [weight, List.length_cons]
            omega
      · next behind =>
        have h0 := length_skipSpaces_le behind
        split at h
        · next heq =>
          obtain ⟨rfl, rfl⟩ := Prod.mk.inj (Except.ok.inj h)
          rw [heq] at h0
          simp only [weight, fieldsWeight, List.length_cons] at h0 ⊢
          omega
        · split at h
          · simp at h
          · next fields rest' hfields =>
            obtain ⟨rfl, rfl⟩ := Prod.mk.inj (Except.ok.inj h)
            have h1 := ihFields _ _ _ hfields
            have h2 := fieldsWeight_mergeFields fields
            simp only [weight, List.length_cons]
            omega
      · split at h
        · next reading hword =>
          obtain rfl := Except.ok.inj h
          exact weight_readWord? hword
        · exact weight_readNumber h
    · intro s items rest h
      rw [itemsWithin] at h
      split at h
      · simp at h
      · next item behind hitem =>
        have h1 := ihValue _ _ _ hitem
        have h0 := length_skipSpaces_le behind
        split at h
        · next heq =>
          obtain ⟨rfl, rfl⟩ := Prod.mk.inj (Except.ok.inj h)
          rw [heq] at h0
          simp only [itemsWeight, List.length_cons] at h0 ⊢
          omega
        · next tail heq =>
          rw [heq] at h0
          split at h
          · simp at h
          · next items' rest' hitems =>
            obtain ⟨rfl, rfl⟩ := Prod.mk.inj (Except.ok.inj h)
            have h2 := ihItems _ _ _ hitems
            have h3 := length_skipSpaces_le tail
            simp only [itemsWeight, List.length_cons] at h0 ⊢
            omega
        · simp [faultAt] at h
    · intro s fields rest h
      rw [fieldsWithin] at h
      split at h
      · simp at h
      · next field behind hfield =>
        have h1 := ihField _ _ _ hfield
        have h0 := length_skipSpaces_le behind
        split at h
        · next heq =>
          obtain ⟨rfl, rfl⟩ := Prod.mk.inj (Except.ok.inj h)
          rw [heq] at h0
          simp only [fieldsWeight, List.length_cons] at h0 ⊢
          omega
        · next tail heq =>
          rw [heq] at h0
          split at h
          · simp at h
          · next fields' rest' hfields =>
            obtain ⟨rfl, rfl⟩ := Prod.mk.inj (Except.ok.inj h)
            have h2 := ihFields _ _ _ hfields
            have h3 := length_skipSpaces_le tail
            simp only [fieldsWeight, List.length_cons] at h0 ⊢
            omega
        · simp [faultAt] at h
    · intro s field rest h
      rw [readField.eq_def] at h
      dsimp only at h
      split at h
      · split at h
        · simp at h
        · next key behind hkey =>
          have h1 := length_readString hkey
          have h0 := length_skipSpaces_le behind
          split at h
          · next tail heq =>
            rw [heq] at h0
            split at h
            · simp at h
            · next value rest' hvalue =>
              obtain ⟨rfl, rfl⟩ := Prod.mk.inj (Except.ok.inj h)
              have h2 := ihValue _ _ _ hvalue
              have h3 := length_skipSpaces_le tail
              simp only [List.length_cons] at h0 ⊢
              omega
          · simp [faultAt] at h
      · simp [faultAt] at h

/-- A value that is read and the rest behind it weigh no more than the text is long. -/
theorem weight_readValue {s rest : Text} {value : Json}
    (h : readValue s = .ok (value, rest)) : weight value + rest.length ≤ s.length :=
  (weight_within _).1 s value rest h

/-- A value weighs no more than the text it is read from is long. -/
theorem weight_read {text : Text} {value : Json} (h : read text = .ok value) :
    weight value ≤ text.length := by
  unfold read at h
  dsimp only at h
  split at h
  · exact nomatch h
  · have h0 := length_skipSpaces_le text
    split at h
    · exact nomatch h
    · next value' rest hvalue =>
      have h1 := weight_readValue hvalue
      split at h
      · cases h
        omega
      · exact nomatch h

end FlatCode.Json
