import FlatCode.Json.Reader

/-!
# How JSON values are spelled

The grammar of JSON text, beside the reader. `Spells value text rest` says that `text` starts with a
spelling of `value` and that `rest` is what stands behind it. A value has many spellings: blanks
between its parts, characters of a string raw or escaped, digits of a number in several layouts, and
repeated keys of an object.

A string is a list of elements. Which code points they are is told apart from how they are spelled
(`joinElements`), since an escaped half of a pair is a surrogate or a part of a character as its
neighbours are.

A number has no end of its own: it is over where the text cannot go on with it (`endsNumber`). All
other spellings end with a character that belongs to them.
-/

namespace FlatCode.Json

/-! ## Blanks -/

/-- Blanks in front of a text. -/
inductive Blanks : Text → Text → Prop where
  | none {text : Text} : Blanks text text
  | cons {c : CodePoint} {text rest : Text} : isSpace c = true → Blanks text rest →
      Blanks (c :: text) rest

/-! ## Strings -/

/-- A code unit in four hexadecimal digits. -/
inductive SpellsUnit : Nat → Text → Text → Prop where
  | digits {a b c d : CodePoint} {i j k l : Nat} {rest : Text} : hexDigit? a = some i →
      hexDigit? b = some j → hexDigit? c = some k → hexDigit? d = some l →
      SpellsUnit (((i * 16 + j) * 16 + k) * 16 + l) (a :: b :: c :: d :: rest) rest

/-- An element of a string: a code point, or a code unit that is escaped. -/
inductive StringElement where
  | point (c : CodePoint)
  | unit (n : Nat)

/-- The code points of the elements of a string. An escaped first half of a pair makes one character
with an escaped second half right behind it; every other code unit is a code point by itself, a
half of a pair too. -/
def joinElements : List StringElement → Text
  | [] => []
  | .point c :: elements => c :: joinElements elements
  | .unit high :: .unit low :: elements =>
    if isHighSurrogate high && isLowSurrogate low then
      joinSurrogates high low :: joinElements elements
    else codePointOfUnit high :: joinElements (.unit low :: elements)
  | .unit unit :: elements => codePointOfUnit unit :: joinElements elements

/-- An element of a string: as it is, by the letter of an escape, or by the digits of one. -/
inductive SpellsElement : StringElement → Text → Text → Prop where
  | raw {c : CodePoint} {rest : Text} : c ≠ .char '"' → c ≠ .char '\\' → 0x1F < c.toNat →
      SpellsElement (.point c) (c :: rest) rest
  | letter {c letter : CodePoint} {rest : Text} : escaped? letter = some c →
      SpellsElement (.point c) (.char '\\' :: letter :: rest) rest
  | unit {unit : Nat} {text rest : Text} : SpellsUnit unit text rest →
      SpellsElement (.unit unit) (.char '\\' :: .char 'u' :: text) rest

/-- The elements of a string and its closing quote. -/
inductive SpellsElements : List StringElement → Text → Text → Prop where
  | close {rest : Text} : SpellsElements [] (.char '"' :: rest) rest
  | cons {element : StringElement} {elements : List StringElement} {text middle rest : Text} :
      SpellsElement element text middle → SpellsElements elements middle rest →
      SpellsElements (element :: elements) text rest

/-- The code points of a string and its closing quote. -/
inductive SpellsString : Text → Text → Text → Prop where
  | elements {elements : List StringElement} {text rest : Text} :
      SpellsElements elements text rest → SpellsString (joinElements elements) text rest

/-! ## Numbers -/

/-- Whether a text cannot go on with a number in front of it. -/
def endsNumber : Text → Bool
  | .char c :: _ => !(isDigit c || c == '.' || c == 'e' || c == 'E')
  | _ => true

/-- The digits of a whole part: zero alone, or digits that do not start with zero. -/
def IsWhole (digits : List Char) : Prop :=
  digits ≠ [] ∧ (∀ c ∈ digits, isDigit c = true) ∧ (digits.head? = some '0' → digits = ['0'])

/-- A fraction behind its point; without digits there is no point. -/
def pointed : List Char → List Char
  | [] => []
  | digits => '.' :: digits

/-- The exponent of a number, if it has one. -/
inductive SpellsExponent : Option Int → List Char → Prop where
  | none : SpellsExponent none []
  | plain {mark : Char} {digits : List Char} : mark = 'e' ∨ mark = 'E' → digits ≠ [] →
      (∀ c ∈ digits, isDigit c = true) →
      SpellsExponent (some (Nat.ofDigitChars 10 digits 0)) (mark :: digits)
  | plus {mark : Char} {digits : List Char} : mark = 'e' ∨ mark = 'E' → digits ≠ [] →
      (∀ c ∈ digits, isDigit c = true) →
      SpellsExponent (some (Nat.ofDigitChars 10 digits 0)) (mark :: '+' :: digits)
  | minus {mark : Char} {digits : List Char} : mark = 'e' ∨ mark = 'E' → digits ≠ [] →
      (∀ c ∈ digits, isDigit c = true) →
      SpellsExponent (some (-(Nat.ofDigitChars 10 digits 0 : Int))) (mark :: '-' :: digits)

/-- A number without its sign, from its parts. -/
inductive SpellsNumber (negative : Bool) : Json → List Char → Prop where
  | parts {whole fraction exponentText : List Char} {exponent : Option Int} {value : Json} :
      IsWhole whole → (∀ c ∈ fraction, isDigit c = true) →
      SpellsExponent exponent exponentText →
      numberOf negative whole fraction exponent = .ok value →
      SpellsNumber negative value (whole ++ (pointed fraction ++ exponentText))

/-! ## Values -/

mutual

/-- A value. -/
inductive Spells : Json → Text → Text → Prop where
  | word {word : List Char} {rest : Text} {value : Json} : (word, value) ∈ wordValues →
      Spells value (Text.ofChars word ++ rest) rest
  | number {text : List Char} {rest : Text} {value : Json} : SpellsNumber false value text →
      Spells value (Text.ofChars text ++ rest) rest
  | negative {text : List Char} {rest : Text} {value : Json} : SpellsNumber true value text →
      Spells value (.char '-' :: (Text.ofChars text ++ rest)) rest
  | string {cs text rest : Text} : SpellsString cs text rest →
      Spells (.string cs) (.char '"' :: text) rest
  | emptyArray {text rest : Text} : Blanks text (.char ']' :: rest) →
      Spells (.array []) (.char '[' :: text) rest
  | array {items : List Json} {text middle rest : Text} : Blanks text middle →
      SpellsItems items middle rest → Spells (.array items) (.char '[' :: text) rest
  | emptyObject {text rest : Text} : Blanks text (.char '}' :: rest) →
      Spells (.object []) (.char '{' :: text) rest
  | object {fields : List (Text × Json)} {text middle rest : Text} : Blanks text middle →
      SpellsFields fields middle rest →
      Spells (.object (mergeFields fields)) (.char '{' :: text) rest

/-- The items of an array and its closing bracket. -/
inductive SpellsItems : List Json → Text → Text → Prop where
  | last {item : Json} {text middle rest : Text} : Spells item text middle →
      Blanks middle (.char ']' :: rest) → SpellsItems [item] text rest
  | cons {item : Json} {items : List Json} {text behind separated next rest : Text} :
      Spells item text behind → Blanks behind (.char ',' :: separated) → Blanks separated next →
      SpellsItems items next rest → SpellsItems (item :: items) text rest

/-- The fields of an object and its closing brace. -/
inductive SpellsFields : List (Text × Json) → Text → Text → Prop where
  | last {field : Text × Json} {text middle rest : Text} : SpellsField field text middle →
      Blanks middle (.char '}' :: rest) → SpellsFields [field] text rest
  | cons {field : Text × Json} {fields : List (Text × Json)}
      {text behind separated next rest : Text} :
      SpellsField field text behind → Blanks behind (.char ',' :: separated) →
      Blanks separated next → SpellsFields fields next rest →
      SpellsFields (field :: fields) text rest

/-- A field: its name, a colon and its value. -/
inductive SpellsField : Text × Json → Text → Text → Prop where
  | named {name text behind separated next rest : Text} {value : Json} :
      SpellsString name text behind → Blanks behind (.char ':' :: separated) →
      Blanks separated next → Spells value next rest →
      SpellsField (name, value) (.char '"' :: text) rest

end

/-! ## Text behind a spelling

What stands behind a spelling plays no part in it, so more of it may follow.
-/

theorem Blanks.append {text rest : Text} (h : Blanks text rest) (more : Text) :
    Blanks (text ++ more) (rest ++ more) := by
  induction h with
  | none => exact .none
  | cons hc _ ih => exact .cons hc ih

theorem SpellsUnit.append {unit : Nat} {text rest : Text} (h : SpellsUnit unit text rest)
    (more : Text) : SpellsUnit unit (text ++ more) (rest ++ more) := by
  cases h with
  | digits ha hb hc hd => exact .digits ha hb hc hd

theorem SpellsElement.append {element : StringElement} {text rest : Text}
    (h : SpellsElement element text rest) (more : Text) :
    SpellsElement element (text ++ more) (rest ++ more) := by
  cases h with
  | raw hquote hslash hcontrol => exact .raw hquote hslash hcontrol
  | letter hletter => exact .letter hletter
  | unit hdigits => exact .unit (hdigits.append more)

theorem SpellsElements.append {elements : List StringElement} {text rest : Text}
    (h : SpellsElements elements text rest) (more : Text) :
    SpellsElements elements (text ++ more) (rest ++ more) := by
  induction h with
  | close => exact .close
  | cons h _ ih => exact .cons (h.append more) ih

theorem SpellsString.append {cs text rest : Text} (h : SpellsString cs text rest) (more : Text) :
    SpellsString cs (text ++ more) (rest ++ more) := by
  obtain ⟨helements⟩ := h
  exact .elements (helements.append more)

mutual

/-- **A spelling goes on being one**, whatever follows behind its rest. -/
theorem Spells.append {value : Json} {text rest : Text} (more : Text) :
    Spells value text rest → Spells value (text ++ more) (rest ++ more)
  | .word h => by
    rw [List.append_assoc]
    exact .word h
  | .number h => by
    rw [List.append_assoc]
    exact .number h
  | .negative h => by
    rw [List.cons_append, List.append_assoc]
    exact .negative h
  | .string h => .string (h.append more)
  | .emptyArray h => .emptyArray (h.append more)
  | .array h1 h2 => .array (h1.append more) (h2.append more)
  | .emptyObject h => .emptyObject (h.append more)
  | .object h1 h2 => .object (h1.append more) (h2.append more)

theorem SpellsItems.append {items : List Json} {text rest : Text} (more : Text) :
    SpellsItems items text rest → SpellsItems items (text ++ more) (rest ++ more)
  | .last h1 h2 => .last (h1.append more) (h2.append more)
  | .cons h1 h2 h3 h4 => .cons (h1.append more) (h2.append more) (h3.append more) (h4.append more)

theorem SpellsFields.append {fields : List (Text × Json)} {text rest : Text}
    (more : Text) :
    SpellsFields fields text rest → SpellsFields fields (text ++ more) (rest ++ more)
  | .last h1 h2 => .last (h1.append more) (h2.append more)
  | .cons h1 h2 h3 h4 => .cons (h1.append more) (h2.append more) (h3.append more) (h4.append more)

theorem SpellsField.append {field : Text × Json} {text rest : Text} (more : Text) :
    SpellsField field text rest → SpellsField field (text ++ more) (rest ++ more)
  | .named h1 h2 h3 h4 =>
    .named (h1.append more) (h2.append more) (h3.append more) (h4.append more)

end

end FlatCode.Json
