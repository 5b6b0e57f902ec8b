import FlatCode.Proofs.Json.Reading
import FlatCode.Proofs.Json.NumberText
import Mathlib.Data.List.Chain

/-!
# What is written is read back

Every style writes a spelling of the value, so a written value is read as itself, whatever stands
behind it that does not go on with a number. Three kinds of value have no spelling of their own and
are left out by `Regular`: an integer of too many digits, which is refused by the reader, an object
in which a key is repeated, which the reader merges, and a string in which the two halves of a pair
of code units stand side by side as code points, which the reader joins to one character.

* `spells_writeAt` — the text of a value is a spelling of it
* `readValue_write` — the text of a value is read as the value
* `read_write` — a text that holds a written value and nothing else is read as the value
-/

namespace FlatCode.Json

open Number

/-! ## Strings -/

theorem hexDigit?_hexDigit {n : Nat} (h : n < 16) :
    hexDigit? (.char (hexDigit n)) = some n := by
  have hall : ∀ d ∈ List.range 16, hexDigit? (.char (hexDigit d)) = some d := by decide
  exact hall n (List.mem_range.mpr h)

/-- A code unit is spelled by its escape. -/
theorem spellsElement_writeUnit {unit : Nat} (h : unit < 0x10000) (rest : Text) :
    SpellsElement (.unit unit) (.ofChars (writeUnit unit) ++ rest) rest := by
  have hspells := @SpellsUnit.digits _ _ _ _ _ _ _ _ rest
    (hexDigit?_hexDigit (show unit / 0x1000 % 16 < 16 by omega))
    (hexDigit?_hexDigit (show unit / 0x100 % 16 < 16 by omega))
    (hexDigit?_hexDigit (show unit / 0x10 % 16 < 16 by omega))
    (hexDigit?_hexDigit (show unit % 16 < 16 by omega))
  rw [show ((unit / 0x1000 % 16 * 16 + unit / 0x100 % 16) * 16 + unit / 0x10 % 16) * 16
    + unit % 16 = unit by omega] at hspells
  exact .unit hspells

/-- A character is no half of a pair of code units. -/
theorem not_surrogate (c : Char) : c.toNat < 0xD800 ∨ 0xDFFF < c.toNat ∧ c.toNat < 0x110000 :=
  c.valid

/-- Whether a character is written without code units: there is a letter for it, or it is
printable. -/
def isShort (c : Char) : Bool :=
  ['\n', '\r', '\t', '\x08', '\x0c'].contains c || 0x20 ≤ c.toNat && c.toNat ≤ 0x7E

/-- The elements that a code point is written as. -/
def elementsOf : CodePoint → List StringElement
  | .char c =>
    if isShort c then [.point (.char c)]
    else if c.toNat < 0x10000 then [.unit c.toNat]
    else [.unit (0xD800 + (c.toNat - 0x10000) / 0x400),
      .unit (0xDC00 + (c.toNat - 0x10000) % 0x400)]
  | .surrogate n => [.unit (0xD800 + n)]

/-- A character is spelled by its text. -/
theorem spellsElements_writeChar (c : Char) {elements : List StringElement} {behind rest : Text}
    (h : SpellsElements elements behind rest) :
    SpellsElements (elementsOf (.char c) ++ elements) (.ofChars (writeChar c) ++ behind) rest := by
  unfold writeChar
  dsimp only
  split
  · next hc => subst hc; exact .cons (.letter rfl) h
  split
  · next hc => subst hc; exact .cons (.letter rfl) h
  split
  · next hc => subst hc; exact .cons (.letter rfl) h
  split
  · next hc => subst hc; exact .cons (.letter rfl) h
  split
  · next hc => subst hc; exact .cons (.letter rfl) h
  split
  · next hc => subst hc; exact .cons (.letter rfl) h
  split
  · next hc => subst hc; exact .cons (.letter rfl) h
  next hquote hslash hn hr ht hb hf =>
  have hletter : ['\n', '\r', '\t', '\x08', '\x0c'].contains c = false := by
    simp [hn, hr, ht, hb, hf]
  split
  · next hprint =>
    rw [elementsOf, if_pos (by simp [isShort, hprint])]
    refine .cons (.raw (by simpa using hquote) (by simpa using hslash) ?_) h
    rw [CodePoint.toNat_char]
    omega
  next hprint =>
  have hshort : ¬isShort c = true := by
    simp only [isShort, hletter, Bool.false_or, Bool.and_eq_true, decide_eq_true_eq]
    exact hprint
  split
  · next hunit =>
    rw [elementsOf, if_neg hshort, if_pos hunit]
    exact .cons (spellsElement_writeUnit hunit behind) h
  · next hunit =>
    have hvalid := not_surrogate c
    rw [elementsOf, if_neg hshort, if_neg hunit, Text.ofChars_append, List.append_assoc]
    exact .cons (spellsElement_writeUnit (by omega) _)
      (.cons (spellsElement_writeUnit (by omega) behind) h)

/-- **A code point is spelled by its text.** -/
theorem spellsElements_writeCodePoint (c : CodePoint) {elements : List StringElement}
    {behind rest : Text} (h : SpellsElements elements behind rest) :
    SpellsElements (elementsOf c ++ elements) (.ofChars (writeCodePoint c) ++ behind) rest := by
  cases c with
  | char c => exact spellsElements_writeChar c h
  | surrogate n => exact .cons (spellsElement_writeUnit (by omega) behind) h

theorem spellsElements_flatMap (cs rest : Text) :
    SpellsElements (cs.flatMap elementsOf)
      (.ofChars (cs.flatMap writeCodePoint) ++ .char '"' :: rest) rest := by
  induction cs with
  | nil => exact .close
  | cons c cs ih =>
    rw [List.flatMap_cons, List.flatMap_cons, Text.ofChars_append, List.append_assoc]
    exact spellsElements_writeCodePoint c ih

/-! ## Halves of pairs -/

/-- Whether no first half of a pair of code units has a second half right behind it. -/
def Unpaired (s : Text) : Prop :=
  s.IsChain fun a b => (isHighSurrogate a.toNat && isLowSurrogate b.toNat) = false

theorem isHighSurrogate_toNat (c : Char) : isHighSurrogate c.toNat = false := by
  have hvalid := not_surrogate c
  simp only [isHighSurrogate, Bool.and_eq_false_iff, decide_eq_false_iff_not]
  omega

/-- A text of characters has no halves of pairs. -/
theorem unpaired_ofChars (s : List Char) : Unpaired (.ofChars s) := by
  unfold Unpaired
  induction s with
  | nil => exact .nil
  | cons c s ih =>
    rw [Text.ofChars_cons, List.isChain_cons]
    exact ⟨fun d _ => by rw [CodePoint.toNat_char, isHighSurrogate_toNat]; rfl, ih⟩

@[simp] theorem unpaired_ofString (s : String) : Unpaired s := unpaired_ofChars s.toList

theorem codePointOfUnit_toNat (c : CodePoint) (h : c.toNat < 0x10000) :
    codePointOfUnit c.toNat = c := by
  unfold codePointOfUnit
  cases c with
  | char c =>
    have hvalid := not_surrogate c
    rw [CodePoint.toNat_char, dif_neg (by omega), Char.ofNat_toNat]
  | surrogate n =>
    rw [dif_pos (by simp only [CodePoint.toNat]; omega)]
    simp only [CodePoint.toNat, Nat.add_sub_cancel_left]

/-- A code unit that is no first half, or stands in front of no second half, is a code point by
itself. -/
theorem joinElements_unit {unit : Nat} {elements : List StringElement}
    (h : ∀ low behind, elements = .unit low :: behind →
      (isHighSurrogate unit && isLowSurrogate low) = false) :
    joinElements (.unit unit :: elements) = codePointOfUnit unit :: joinElements elements := by
  cases elements with
  | nil => rfl
  | cons element elements =>
    cases element with
    | point c => rfl
    | unit low => rw [joinElements, if_neg (by simp [h low elements rfl])]

/-- The two code units of a character above `U+FFFF` make the character. -/
theorem joinSurrogates_toNat {c : Char} (h : 0x10000 ≤ c.toNat) :
    joinSurrogates (0xD800 + (c.toNat - 0x10000) / 0x400) (0xDC00 + (c.toNat - 0x10000) % 0x400)
      = .char c := by
  unfold joinSurrogates
  rw [show 0x10000 + (0xD800 + (c.toNat - 0x10000) / 0x400 - 0xD800) * 0x400
    + (0xDC00 + (c.toNat - 0x10000) % 0x400 - 0xDC00) = c.toNat by omega, Char.ofNat_toNat]

/-- The elements of a code point make the code point, if it is no first half in front of a second
one. -/
theorem joinElements_elementsOf {c : CodePoint} {elements : List StringElement}
    (h : ∀ low behind, elements = .unit low :: behind →
      (isHighSurrogate c.toNat && isLowSurrogate low) = false) :
    joinElements (elementsOf c ++ elements) = c :: joinElements elements := by
  cases c with
  | surrogate n =>
    have hunit := codePointOfUnit_toNat (.surrogate n) (by simp only [CodePoint.toNat]; omega)
    exact (joinElements_unit h).trans (by rw [hunit])
  | char c =>
    have hvalid := not_surrogate c
    rw [elementsOf]
    split
    · rfl
    split
    · next hunit =>
      exact (joinElements_unit h).trans (by rw [codePointOfUnit_toNat (.char c) hunit])
    · next hunit =>
      rw [List.cons_append, List.singleton_append, joinElements, if_pos ?_,
        joinSurrogates_toNat (by omega)]
      simp only [isHighSurrogate, isLowSurrogate, Bool.and_eq_true, decide_eq_true_eq]
      omega

/-- A code unit that a text starts with is a second half only if the text starts with one. -/
theorem exists_second_half {s : Text} {low : Nat} {behind : List StringElement}
    (h : s.flatMap elementsOf = .unit low :: behind) (hlow : isLowSurrogate low = true) :
    ∃ c rest, s = c :: rest ∧ c.toNat = low := by
  cases s with
  | nil => cases h
  | cons c rest =>
    refine ⟨c, rest, rfl, ?_⟩
    cases c with
    | surrogate n => exact StringElement.unit.inj (List.cons.inj h).1
    | char c =>
      have hvalid := not_surrogate c
      simp only [isLowSurrogate, Bool.and_eq_true, decide_eq_true_eq] at hlow
      rw [List.flatMap_cons, elementsOf] at h
      split at h
      · cases h
      split at h
      · exact StringElement.unit.inj (List.cons.inj h).1
      · have hfirst := StringElement.unit.inj (List.cons.inj h).1
        omega

/-- **The elements of a text make the text**, if no halves of a pair stand side by side in it. -/
theorem joinElements_flatMap {s : Text} (h : Unpaired s) :
    joinElements (s.flatMap elementsOf) = s := by
  unfold Unpaired at h
  induction s with
  | nil => rfl
  | cons c s ih =>
    rw [List.isChain_cons] at h
    rw [List.flatMap_cons, joinElements_elementsOf, ih h.2]
    intro low behind hstart
    cases hlow : isLowSurrogate low with
    | false => exact Bool.and_false _
    | true =>
      obtain ⟨d, rest, rfl, rfl⟩ := exists_second_half hstart hlow
      rw [← hlow]
      exact h.1 d rfl

theorem spellsString_flatMap {s : Text} (h : Unpaired s) (rest : Text) :
    SpellsString s (.ofChars (s.flatMap writeCodePoint) ++ .char '"' :: rest) rest := by
  have hspells := SpellsString.elements (spellsElements_flatMap s rest)
  rwa [joinElements_flatMap h] at hspells

/-- The characters of a string and its closing quote, with text behind them. -/
theorem writeString_append (s rest : Text) :
    Text.ofChars (writeString s) ++ rest
      = .char '"' :: (Text.ofChars (s.flatMap writeCodePoint) ++ .char '"' :: rest) := by
  simp [writeString]

/-- **A string without halves of a pair side by side is spelled by its text.** -/
theorem spells_string {s : Text} (h : Unpaired s) (rest : Text) :
    Spells (.string s) (.ofChars (writeString s) ++ rest) rest := by
  rw [writeString_append]
  exact .string (spellsString_flatMap h rest)

/-! ## Regular values -/

mutual

/-- Whether a value is one that texts can have: no integer is too long to be read, no key of an
object is repeated, and in no string stand the halves of a pair side by side. -/
def Regular : Json → Prop
  | .int n => (Nat.toDigits 10 n.natAbs).length ≤ maxDigits
  | .array items => RegularItems items
  | .object fields => (fields.map Prod.fst).Nodup ∧ RegularFields fields
  | .string s => Unpaired s
  | .null | .bool _ | .float _ => True

/-- Whether all items of an array are regular. -/
def RegularItems : List Json → Prop
  | [] => True
  | item :: rest => Regular item ∧ RegularItems rest

/-- Whether all fields of an object are regular. -/
def RegularFields : List (Text × Json) → Prop
  | [] => True
  | (key, value) :: rest => Unpaired key ∧ Regular value ∧ RegularFields rest

end

theorem regular_of_mem_items {items : List Json} (h : RegularItems items) :
    ∀ item ∈ items, Regular item := by
  induction items with
  | nil => simp
  | cons head rest ih =>
    rw [RegularItems] at h
    intro item hitem
    rcases List.mem_cons.mp hitem with rfl | hmem
    · exact h.1
    · exact ih h.2 item hmem

theorem regular_of_mem_fields {fields : List (Text × Json)} (h : RegularFields fields) :
    ∀ field ∈ fields, Unpaired field.1 ∧ Regular field.2 := by
  induction fields with
  | nil => simp
  | cons head rest ih =>
    rw [RegularFields] at h
    intro field hfield
    rcases List.mem_cons.mp hfield with rfl | hmem
    · exact ⟨h.1, h.2.1⟩
    · exact ih h.2.2 field hmem

theorem setField_of_not_mem {key : Text} {fields : List (Text × Json)}
    (h : key ∉ fields.map Prod.fst) (value : Json) :
    setField key value fields = fields ++ [(key, value)] := by
  induction fields with
  | nil => rfl
  | cons head rest ih =>
    rw [List.map_cons, List.mem_cons, not_or] at h
    rw [setField, if_neg (Ne.symm h.1), ih h.2, List.cons_append]

theorem foldl_setField_of_nodup {fields merged : List (Text × Json)}
    (h : ((merged ++ fields).map Prod.fst).Nodup) :
    fields.foldl (fun m field => setField field.1 field.2 m) merged = merged ++ fields := by
  induction fields generalizing merged with
  | nil => simp
  | cons head rest ih =>
    -- the key is new, so its field goes to the end
    have hnot : head.1 ∉ merged.map Prod.fst := by
      rw [List.map_append, List.nodup_append] at h
      intro hmem
      exact h.2.2 _ hmem _ List.mem_cons_self rfl
    rw [List.foldl_cons, setField_of_not_mem hnot, ih (by simpa using h), List.append_assoc,
      List.singleton_append]

/-- Fields whose keys differ are left as they are. -/
theorem mergeFields_of_nodup {fields : List (Text × Json)}
    (h : (fields.map Prod.fst).Nodup) : mergeFields fields = fields :=
  @foldl_setField_of_nodup fields [] h

/-- An object whose keys differ is spelled by its own fields. -/
theorem spells_object {fields : List (Text × Json)} {text middle rest : Text}
    (hkeys : (fields.map Prod.fst).Nodup) (hblanks : Blanks text middle)
    (h : SpellsFields fields middle rest) : Spells (.object fields) (.char '{' :: text) rest := by
  have hspells := Spells.object hblanks h
  rwa [mergeFields_of_nodup hkeys] at hspells

theorem weight_le_of_mem_fields {fields : List (Text × Json)} {field : Text × Json}
    (h : field ∈ fields) : weight field.2 ≤ fieldsWeight fields := by
  induction fields with
  | nil => simp at h
  | cons head rest ih =>
    rw [fieldsWeight]
    rcases List.mem_cons.mp h with rfl | h
    · omega
    · have := ih h
      omega

/-! ## Values -/

/-- Whether a style sets parts apart by a comma or a colon and blanks, and keeps the order of
fields. -/
structure Style.Plain (style : Style) : Prop where
  item : ∃ blanks, style.itemSeparator = ',' :: blanks ∧ ∀ c ∈ blanks, isSpace (.char c) = true
  name : ∃ blanks, style.nameSeparator = ':' :: blanks ∧ ∀ c ∈ blanks, isSpace (.char c) = true
  unsorted : style.sorted = false

theorem Style.compact_plain : Style.compact.Plain := ⟨⟨[], rfl, by simp⟩, ⟨[], rfl, by simp⟩, rfl⟩

theorem Style.spaced_plain : Style.spaced.Plain :=
  ⟨⟨[' '], rfl, by simp [isSpace]⟩, ⟨[' '], rfl, by simp [isSpace]⟩, rfl⟩

theorem Style.indented_plain : Style.indented.Plain :=
  ⟨⟨[], rfl, by simp⟩, ⟨[' '], rfl, by simp [isSpace]⟩, rfl⟩

theorem blanks_append {blanks : List Char} (h : ∀ c ∈ blanks, isSpace (.char c) = true)
    (rest : Text) : Blanks (.ofChars blanks ++ rest) rest := by
  induction blanks with
  | nil => exact .none
  | cons c blanks ih =>
    exact .cons (h c List.mem_cons_self) (ih fun d hd => h d (List.mem_cons_of_mem c hd))

theorem isSpace_of_mem_lineBreak {style : Style} {depth : Nat} :
    ∀ c ∈ style.lineBreak depth, isSpace (.char c) = true := by
  intro c hc
  unfold Style.lineBreak at hc
  split at hc
  · simp at hc
  · rcases List.mem_cons.mp hc with rfl | hc
    · rfl
    · rw [List.eq_of_mem_replicate hc]
      rfl

/-- The comma between two items with the line break behind it. -/
theorem Style.Plain.separator {style : Style} (h : style.Plain) (depth : Nat) :
    ∃ blanks, style.itemSeparator ++ style.lineBreak depth = ',' :: blanks ∧
      ∀ c ∈ blanks, isSpace (.char c) = true := by
  obtain ⟨blanks, heq, hblanks⟩ := h.item
  refine ⟨blanks ++ style.lineBreak depth, by rw [heq, List.cons_append], fun c hc => ?_⟩
  rcases List.mem_append.mp hc with hc | hc
  · exact hblanks c hc
  · exact isSpace_of_mem_lineBreak c hc

theorem writeItems_eq_map (style : Style) (depth : Nat) (items : List Json) :
    writeItems style depth items = items.map (writeAt style depth) := by
  induction items with
  | nil => rfl
  | cons item rest ih => rw [writeItems, ih, List.map_cons]

theorem writeFields_eq_map (style : Style) (depth : Nat) (fields : List (Text × Json)) :
    writeFields style depth fields
      = fields.map fun field => (field.1, writeAt style depth field.2) := by
  induction fields with
  | nil => rfl
  | cons field rest ih => rw [writeFields, ih, List.map_cons]

/-- Spelled items with commas between them, blanks behind the last and a bracket. -/
theorem spellsItems_intercalate {write : Json → List Char} {separator blanks closing : List Char}
    (hseparator : separator = ',' :: blanks) (hblanks : ∀ c ∈ blanks, isSpace (.char c) = true)
    (hclosing : ∀ c ∈ closing, isSpace (.char c) = true) (rest : Text) :
    ∀ items : List Json, items ≠ [] →
      (∀ item ∈ items, ∀ behind, Spells item (.ofChars (write item) ++ behind) behind) →
      SpellsItems items
        (.ofChars (List.intercalate separator (items.map write))
          ++ (.ofChars closing ++ .char ']' :: rest)) rest
  | [], hne, _ => absurd rfl hne
  | [item], _, h => by
    rw [List.map_singleton, List.intercalate_singleton]
    exact .last (h item List.mem_cons_self _) (blanks_append hclosing _)
  | item :: second :: items, _, h => by
    have hrec := spellsItems_intercalate hseparator hblanks hclosing rest (second :: items)
      (by simp) fun i hi => h i (List.mem_cons_of_mem _ hi)
    rw [List.map_cons, List.map_cons, List.intercalate_cons_cons, hseparator]
    rw [List.map_cons, hseparator] at hrec
    simp only [Text.ofChars_append, Text.ofChars_cons, List.append_assoc, List.cons_append]
    exact .cons (h item List.mem_cons_self _) .none (blanks_append hblanks _) hrec

/-- Spelled fields with commas between them, blanks behind the last and a brace. -/
theorem spellsFields_intercalate {write : Text × Json → List Char}
    {separator blanks closing : List Char}
    (hseparator : separator = ',' :: blanks) (hblanks : ∀ c ∈ blanks, isSpace (.char c) = true)
    (hclosing : ∀ c ∈ closing, isSpace (.char c) = true) (rest : Text) :
    ∀ fields : List (Text × Json), fields ≠ [] →
      (∀ field ∈ fields, ∀ behind, SpellsField field (.ofChars (write field) ++ behind) behind) →
      SpellsFields fields
        (.ofChars (List.intercalate separator (fields.map write))
          ++ (.ofChars closing ++ .char '}' :: rest)) rest
  | [], hne, _ => absurd rfl hne
  | [field], _, h => by
    rw [List.map_singleton, List.intercalate_singleton]
    exact .last (h field List.mem_cons_self _) (blanks_append hclosing _)
  | field :: second :: fields, _, h => by
    have hrec := spellsFields_intercalate hseparator hblanks hclosing rest (second :: fields)
      (by simp) fun i hi => h i (List.mem_cons_of_mem _ hi)
    rw [List.map_cons, List.map_cons, List.intercalate_cons_cons, hseparator]
    rw [List.map_cons, hseparator] at hrec
    simp only [Text.ofChars_append, Text.ofChars_cons, List.append_assoc, List.cons_append]
    exact .cons (h field List.mem_cons_self _) .none (blanks_append hblanks _) hrec

/-- The text of a field in a style. -/
def writeField (style : Style) (depth : Nat) (field : Text × Json) : List Char :=
  writeString field.1 ++ style.nameSeparator ++ writeAt style depth field.2

theorem spellsField_writeField {style : Style} (hstyle : style.Plain) {depth : Nat}
    {field : Text × Json} {rest : Text} (hkey : Unpaired field.1)
    (h : Spells field.2 (.ofChars (writeAt style depth field.2) ++ rest) rest) :
    SpellsField field (.ofChars (writeField style depth field) ++ rest) rest := by
  obtain ⟨blanks, hname, hblanks⟩ := hstyle.name
  have hspells := SpellsField.named (spellsString_flatMap hkey _) .none
    (blanks_append hblanks _) h
  rw [← writeString_append] at hspells
  unfold writeField
  rw [hname]
  simpa only [Text.ofChars_append, Text.ofChars_cons, List.append_assoc, List.cons_append]
    using hspells

/-- Parts in brackets. -/
theorem enclose_of_ne_nil (style : Style) (depth : Nat) (opening closing : Char)
    {parts : List (List Char)} (h : parts ≠ []) :
    style.enclose depth opening closing parts
      = opening :: (style.lineBreak (depth + 1)
        ++ (List.intercalate (style.itemSeparator ++ style.lineBreak (depth + 1)) parts
          ++ (style.lineBreak depth ++ [closing]))) := by
  unfold Style.enclose
  rw [if_neg (by simpa using h)]
  simp

/-- Parts in brackets, with text behind them. -/
theorem enclose_append (style : Style) (depth : Nat) (opening closing : Char)
    {parts : List (List Char)} (h : parts ≠ []) (rest : Text) :
    Text.ofChars (style.enclose depth opening closing parts) ++ rest
      = .char opening :: (Text.ofChars (style.lineBreak (depth + 1))
        ++ (Text.ofChars
            (List.intercalate (style.itemSeparator ++ style.lineBreak (depth + 1)) parts)
          ++ (Text.ofChars (style.lineBreak depth) ++ .char closing :: rest))) := by
  rw [enclose_of_ne_nil style depth opening closing h]
  simp

/-- The parts of an object are the texts of its fields, in a style that keeps their order. -/
theorem writeAt_object {style : Style} (hstyle : style.Plain) (depth : Nat)
    (fields : List (Text × Json)) :
    writeAt style depth (.object fields)
      = style.enclose depth '{' '}' (fields.map (writeField style (depth + 1))) := by
  rw [writeAt, Style.order, hstyle.unsorted, if_neg (by simp), writeFields_eq_map, List.map_map]
  rfl

/-- **The text of a value is a spelling of it.** -/
theorem spells_writeAt {style : Style} (hstyle : style.Plain) (depth : Nat) :
    ∀ (value : Json) (rest : Text), Regular value →
      Spells value (.ofChars (writeAt style depth value) ++ rest) rest
  | .null, rest, _ => .word (by simp [wordValues, writeAt])
  | .bool true, rest, _ => .word (by simp [wordValues, writeAt])
  | .bool false, rest, _ => .word (by simp [wordValues, writeAt])
  | .int n, rest, h => by
    rw [writeAt]
    exact spells_int (by rwa [Regular] at h) rest
  | .float x, rest, _ => by
    rw [writeAt]
    exact spells_float x rest
  | .string s, rest, h => by
    rw [writeAt]
    exact spells_string (by rwa [Regular] at h) rest
  | .array items, rest, h => by
    rw [Regular] at h
    rw [writeAt, writeItems_eq_map]
    by_cases hnil : items = []
    · rw [hnil]
      exact .emptyArray .none
    · obtain ⟨blanks, hseparator, hblanks⟩ := hstyle.separator (depth + 1)
      rw [enclose_append _ _ _ _ (by simpa using hnil)]
      refine .array (blanks_append isSpace_of_mem_lineBreak _)
        (spellsItems_intercalate hseparator hblanks isSpace_of_mem_lineBreak rest _ hnil ?_)
      intro i hi behind
      have hweight := weight_le_of_mem hi
      exact spells_writeAt hstyle (depth + 1) i behind (regular_of_mem_items h i hi)
  | .object fields, rest, h => by
    rw [Regular] at h
    rw [writeAt_object hstyle]
    by_cases hnil : fields = []
    · rw [hnil]
      exact .emptyObject .none
    · obtain ⟨blanks, hseparator, hblanks⟩ := hstyle.separator (depth + 1)
      rw [enclose_append _ _ _ _ (by simpa using hnil)]
      refine spells_object h.1 (blanks_append isSpace_of_mem_lineBreak _)
        (spellsFields_intercalate hseparator hblanks isSpace_of_mem_lineBreak rest _ hnil ?_)
      intro f hf behind
      have hweight := weight_le_of_mem_fields hf
      obtain ⟨hkey, hvalue⟩ := regular_of_mem_fields h.2 f hf
      exact spellsField_writeField hstyle hkey
        (spells_writeAt hstyle (depth + 1) f.2 behind hvalue)
termination_by value => weight value
decreasing_by
  · rw [weight]
    omega
  · rw [weight]
    omega

/-- **A written value is read back**, whatever stands behind it that does not go on with a
number. -/
theorem readValue_write {style : Style} (hstyle : style.Plain) {value : Json} (h : Regular value)
    {rest : Text} (hrest : endsNumber rest = true) :
    readValue (.ofChars (write style value) ++ rest) = .ok (value, rest) :=
  readValue_of_spells (spells_writeAt hstyle 0 value rest h) hrest

/-- **The text of a value is read as the value.** -/
theorem read_write {style : Style} (hstyle : style.Plain) {value : Json} (h : Regular value) :
    read (.ofChars (write style value)) = .ok value := by
  have hvalue : readValue (Text.ofChars (write style value) ++ []) = .ok (value, []) :=
    readValue_write hstyle h rfl
  obtain ⟨c, behind, htext, hc⟩ := exists_start_of_spells (spells_writeAt hstyle 0 value [] h)
  change Text.ofChars (write style value) ++ [] = _ at htext
  rw [List.append_nil] at hvalue htext
  rw [htext] at hvalue ⊢
  unfold read
  dsimp only
  split
  · -- no value starts with a byte order mark
    next heq =>
    obtain rfl := CodePoint.char.inj (List.cons.inj heq).1
    exact absurd hc (by decide)
  · rw [skipSpaces_cons (isSpace_of_startsValue hc), hvalue]
    rfl

end FlatCode.Json
