import FlatCode.Proofs.Json.Characters
import FlatCode.Proofs.Json.LongNumbers

/-!
# The grammar of arguments

A text of arguments is a row of tokens with blanks between any two, and a token is a JSON text or a
bare word (`SpellsArguments`). A bare word opens no string, array or object, and as a whole it is no
number and no literal; it may well start like one.

A JSON value may go on behind a blank only inside quotes or brackets, and a bare word has none in
front. So where a token stands the reader takes the token: a JSON text to its end, which is a
boundary, and a bare word because no value in front of it ends at one.

* `readArgument_of_isToken` — a token is read, whatever stands behind the blank that ends it
* `read_of_spellsArguments` — a row of tokens is read as the values of its tokens
-/

namespace FlatCode.Arguments

open Json Text

/-! ## The grammar -/

/-- Whether a text is a bare word. Digits in a row are limited, for the reader refuses an integer of
too many digits also where a word starts with it. -/
structure IsBareWord (word : Text) : Prop where
  nonempty : word ≠ []
  visible : ∀ c ∈ word, isBlank c = false
  opensNothing : ∀ c ∈ word.head?, c ≠ .char '"' ∧ c ≠ .char '[' ∧ c ≠ .char '{'
  notNumber : ∀ number, IsNumber number → word ≠ .ofChars number
  notLiteral : ∀ literal ∈ wordValues, word ≠ .ofChars literal.1
  noLongRun : ¬LongRun word

/-- Whether a text is a token, and of which value: a JSON text of its value, and a bare word of
itself. -/
inductive IsToken : Text → Json → Prop where
  | json {text : Text} {value : Json} : Spells value text [] → IsToken text value
  | bare {word : Text} : IsBareWord word → IsToken word (.string word)

/-- Whether a text is a row of tokens, and of which values: blanks may stand anywhere between
tokens, and at least one stands between any two. -/
inductive SpellsArguments : List Json → Text → Prop where
  | nil {blanks : Text} : (∀ c ∈ blanks, isBlank c = true) → SpellsArguments [] blanks
  | cons {blanks token behind : Text} {value : Json} {values : List Json} :
      (∀ c ∈ blanks, isBlank c = true) → IsToken token value → atBoundary behind = true →
      SpellsArguments values behind →
      SpellsArguments (value :: values) (blanks ++ (token ++ behind))

variable {word text behind : Text} {value : Json} {values : List Json}

/-! ## Bare words -/

theorem append_eq_of_behindWord? {literal : List Char}
    (h : behindWord? literal text = some behind) : .ofChars literal ++ behind = text := by
  induction literal generalizing text with
  | nil => exact (Option.some.inj h).symm
  | cons w literal ih =>
    cases text with
    | nil => cases h
    | cons c text =>
      rw [behindWord?] at h
      split at h
      · next hc => rw [Text.ofChars_cons, List.cons_append, ih h, hc]
      · cases h

/-- What is read as a literal is one of the literals. -/
theorem exists_word_of_readWord? (h : readWord? text = some (value, behind)) :
    ∃ literal, (literal, value) ∈ wordValues ∧ text = .ofChars literal ++ behind := by
  obtain ⟨⟨literal, _⟩, hmem, h⟩ := List.exists_of_findSome?_eq_some h
  obtain ⟨rest, hbehind, h⟩ := Option.map_eq_some_iff.mp h
  cases h
  exact ⟨literal, hmem, (append_eq_of_behindWord? hbehind).symm⟩

theorem IsBareWord.looksBare (h : IsBareWord word) : looksBare word = true := by
  have hquote : word.head? ≠ some (.char '"') := fun hhead =>
    (h.opensNothing (.char '"') hhead).1 rfl
  have hvisible : word.any isBlank = false := by simpa using h.visible
  simp [Arguments.looksBare, h.nonempty, hquote, hvisible]

/-- Where a value in front of a word ends at a boundary, it is all of the word. -/
theorem eq_nil_of_atBoundary (hword : ∀ c ∈ word, isBlank c = false) (hsuffix : behind <:+ word)
    (h : atBoundary behind = true) : behind = [] := by
  cases behind with
  | nil => rfl
  | cons c behind =>
    rw [atBoundary, hword c (hsuffix.subset List.mem_cons_self)] at h
    cases h

/-- What takes a word takes all of it, or it is an integer that is refused. -/
theorem readValue_of_takesJson (hword : ∀ c ∈ word, isBlank c = false)
    (h : Arguments.takesJson word = true) :
    (∃ value, readValue word = .ok (value, [])) ∨
      ∃ count, readValue word = .error (.tooManyDigits count) := by
  rcases takesJson_eq_true_iff.mp h with ⟨value, behind, hread, hbehind⟩ | hlong
  · obtain rfl := eq_nil_of_atBoundary hword (suffix_of_readValue hread) hbehind
    exact .inl ⟨value, hread⟩
  · exact .inr hlong

/-- **No value in front of a bare word ends at its end**, and no integer there is refused. -/
theorem IsBareWord.takesJson (h : IsBareWord word) : takesJson word = false := by
  rw [← Bool.not_eq_true]
  intro htakes
  rcases readValue_of_takesJson h.visible htakes with ⟨value, hread⟩ | ⟨count, hread⟩
  · obtain ⟨c, rest, rfl⟩ := List.exists_cons_of_ne_nil h.nonempty
    obtain ⟨hquote, harray, hobject⟩ := h.opensNothing c rfl
    rw [readValue, valueWithin_default hquote harray hobject] at hread
    cases hword : readWord? (c :: rest) with
    | some reading =>
      rw [hword] at hread
      cases hread
      obtain ⟨literal, hmem, htext⟩ := exists_word_of_readWord? hword
      rw [List.append_nil] at htext
      exact h.notLiteral _ hmem htext
    | none =>
      rw [hword] at hread
      obtain ⟨negative, unsigned, htext, hspells⟩ := exists_number_of_readNumber hread
      rw [List.append_nil] at htext
      exact h.notNumber _ ⟨negative, unsigned, value, rfl, hspells⟩ htext
  · exact h.noLongRun (longRun_of_readValue hread)

/-- A word is bare where the reader sees it so: it opens nothing, and no value in front of it ends
at its end. -/
theorem isBareWord_iff : IsBareWord word ↔ Arguments.looksBare word = true ∧
    (∀ c ∈ word.head?, c ≠ .char '"' ∧ c ≠ .char '[' ∧ c ≠ .char '{') ∧
        Arguments.takesJson word = false ∧
      ¬LongRun word := by
  refine ⟨fun h => ⟨h.looksBare, h.opensNothing, h.takesJson, h.noLongRun⟩, ?_⟩
  rintro ⟨hlooks, hopens, htakes, hrun⟩
  obtain ⟨c, behind, heq, -, hvisible⟩ := exists_start_of_looksBare hlooks
  have hspells {value : Json} : ¬Spells value (word ++ []) [] := by
    intro h
    have hread := readValue_of_spells h rfl
    rw [List.append_nil] at hread
    rw [Arguments.takesJson, hread] at htakes
    cases htakes
  refine ⟨by simp [heq], hvisible, hopens, ?_, ?_, hrun⟩
  · rintro _ ⟨negative, unsigned, value, rfl, hnumber⟩ rfl
    cases negative with
    | false => exact hspells (.number hnumber)
    | true => exact hspells (.negative hnumber)
  · rintro ⟨literal, value⟩ hmem rfl
    exact hspells (.word hmem)

/-! ## Tokens -/

/-- Every token starts with a character that is no blank. -/
theorem IsToken.startsVisibly (h : IsToken text value) : StartsVisibly text := by
  cases h with
  | json h =>
    obtain ⟨c, behind, rfl, hc⟩ := exists_start_of_spells h
    exact ⟨.char c, behind, rfl, (visible_of_startsValue hc).not_blank⟩
  | bare h => exact (visible_ends h.nonempty h.visible).1

/-- **A token is read**, whatever stands behind the blank that ends it. -/
theorem readArgument_of_isToken (column : Nat) (h : IsToken text value)
    (hbehind : atBoundary behind = true) :
    readArgument column (text ++ behind) = .ok (value, behind) := by
  cases h with
  | json h =>
    have hread := readValue_of_spells (h.append behind) (endsNumber_of_atBoundary hbehind)
    rw [List.nil_append] at hread
    exact readArgument_of_readValue hread hbehind
  | bare h =>
    obtain ⟨c, rest, hword⟩ := List.exists_cons_of_ne_nil h.nonempty
    obtain ⟨hquote, harray, hobject⟩ := h.opensNothing c (by rw [hword]; rfl)
    refine readArgument_bare column h.looksBare hbehind ?_
    have htakes := h.takesJson
    rw [hword] at htakes ⊢
    rw [takesJson_append hquote harray hobject hbehind, htakes]

/-! ## Rows of tokens -/

theorem readFrom_blanks {blanks : Text} (column : Nat) (h : ∀ c ∈ blanks, isBlank c = true)
    (s : Text) : readFrom column (blanks ++ s) = readFrom (column + blanks.length) s := by
  induction blanks generalizing column with
  | nil => rfl
  | cons c blanks ih =>
    obtain ⟨hc, hblanks⟩ := List.forall_mem_cons.mp h
    rw [List.cons_append, readFrom_blank column hc, ih (column + 1) hblanks, List.length_cons]
    congr 1
    omega

/-- From any column on, a row of tokens is read token by token. -/
theorem readFrom_of_spellsArguments (column : Nat) (h : SpellsArguments values text) :
    readFrom column text = .ok values := by
  induction h generalizing column with
  | @nil blanks hblanks =>
    have hread := readFrom_blanks column hblanks []
    rwa [List.append_nil, readFrom_nil] at hread
  | @cons blanks token behind value values hblanks htoken hbehind _ ih =>
    rw [readFrom_blanks column hblanks]
    have hread := readArgument_of_isToken (column + blanks.length) htoken hbehind
    obtain ⟨c, rest, rfl, hc⟩ := htoken.startsVisibly
    rw [List.cons_append] at hread ⊢
    obtain ⟨next, hfrom⟩ := readFrom_cons hc hread
    rw [hfrom, ih next]
    rfl

/-- **The arguments of a row of tokens are the values of its tokens**, one for each and in order. -/
theorem read_of_spellsArguments (h : SpellsArguments values text) : read text = .ok values :=
  readFrom_of_spellsArguments 0 h

/-- A list with blanks and half of a pair inside. -/
def mixedList : Text :=
  .char '[' :: .char ' ' :: (Text.ofChars (writeString [.char 'a', .char ' ', .surrogate 0x3d]) ++
    .char ' ' :: .char ',' :: .char '\t' :: (Text.ofChars (writeInt (-7)) ++
      Text.ofChars [' ', ']']))

theorem isToken_mixedList : IsToken mixedList
    (.array [.string [.char 'a', .char ' ', .surrogate 0x3d], .int (-7)]) := by
  have hunpaired : Unpaired [.char 'a', .char ' ', .surrogate 0x3d] := by
    simp [Unpaired, isHighSurrogate]
  exact .json (.array (.cons rfl .none) (.cons (spells_string hunpaired _) (.cons rfl .none)
    (.cons rfl .none) (.last (spells_int (by decide) _) (.cons rfl .none))))

/-- The list in a row with words that start like a number or a literal, and with a literal. -/
def mixedRow : Text :=
  Text.ofChars [' '] ++ (Text.ofChars ['0', '1'] ++
    (Text.ofChars ['\t', ' '] ++ (mixedList ++
      (Text.ofChars [' '] ++ (Text.ofChars ['-'] ++
        (Text.ofChars [' '] ++ (Text.ofChars ['t', 'r', 'u', 'e', 'x'] ++
          (Text.ofChars [' '] ++ (Text.ofChars ['t', 'r', 'u', 'e'] ++
            Text.ofChars ['\n'])))))))))

theorem read_mixedRow : mixedRow = " 01\t [ \"a \\ud83d\" ,\t-7 ] - truex true\n" ∧
    read mixedRow = .ok [.string "01",
      .array [.string [.char 'a', .char ' ', .surrogate 0x3d], .int (-7)], .string "-",
      .string "truex", .bool true] := by
  have hword {word : Text} (hlooks : looksBare word = true)
      (hopens : ∀ c ∈ word.head?, c ≠ .char '"' ∧ c ≠ .char '[' ∧ c ≠ .char '{')
      (htakes : takesJson word = false) (hlength : word.length ≤ maxDigits) :
      IsToken word (.string word) :=
    .bare (isBareWord_iff.mpr ⟨hlooks, hopens, htakes, not_longRun_of_length hlength⟩)
  have hliteral : IsToken (Text.ofChars ['t', 'r', 'u', 'e']) (.bool true) :=
    .json (@Spells.word ['t', 'r', 'u', 'e'] [] (.bool true) (by simp [wordValues]))
  refine ⟨by decide +kernel, read_of_spellsArguments ?_⟩
  exact .cons (by simp [isBlank]) (hword rfl (by simp) rfl (by decide)) rfl <|
    .cons (by simp [isBlank]) isToken_mixedList rfl <|
    .cons (by simp [isBlank]) (hword rfl (by simp) rfl (by decide)) rfl <|
    .cons (by simp [isBlank]) (hword rfl (by simp) rfl (by decide)) rfl <|
    .cons (by simp [isBlank]) hliteral rfl <|
    .nil (by simp [isBlank])

end FlatCode.Arguments
