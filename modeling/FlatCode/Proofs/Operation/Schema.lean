import FlatCode.Operation.Declaration
import FlatCode.Proofs.Json.Characters
import FlatCode.Proofs.Results
import FlatCode.Proofs.Text.Lines

/-!
# The grammar of the schema

A line of the schema declares an operation by a name, a colon and flags with commas between them.
Whether a line is accepted is found out in three places: it is cut at the colon, the flags are
looked up, and the name is checked again where the operation is declared. Here the grammar is
written down on its own, and the schema is shown to accept just that.

* `SpellsOperation` — the lines that declare an operation
* `ofEntry_eq_ok_iff` — a line declares the operation that it spells, and nothing else
* `SpellsSchema` — the lines of a schema, each silent or a declaration
* `ofSchema_grammar` — what a text declares, when it declares something, and where it is refused
-/

namespace FlatCode.Operation

open Text

/-! ## The grammar -/

/-- The names of the schema: an ASCII letter, then ASCII letters, digits and underscores. -/
def IsSchemaName (name : Text) : Prop :=
  ∃ (c : Char) (behind : List Char), name = .ofChars (c :: behind) ∧ c.isAlpha = true ∧
    ∀ d ∈ behind, d.isAlpha = true ∨ d.isDigit = true ∨ d = '_'

/-- The fields behind the colon: a flag or nothing, up to blanks around it. -/
def IsField (field : Text) : Prop :=
  trim field ∈ ([[], "begin", "end", "simple"] : List Text)

/-- A line that is put together of a name, a gap, a colon and fields with commas between them, and
the operation that has the name and the facets that are among the fields. -/
structure IsDeclarationOf (gap : Text) (fields : List Text) (line : Text)
    (op : Operation) : Prop where
  line : line = op.name ++ (gap ++ .char ':' :: List.intercalate [.char ','] fields)
  name : IsSchemaName op.name
  gap : ∀ c ∈ gap, isBlank c = true
  nonempty : fields ≠ []
  known : ∀ field ∈ fields, IsField field
  blockBegin : op.blockBegin = true ↔ ∃ field ∈ fields, trim field = "begin"
  blockEnd : op.blockEnd = true ↔ ∃ field ∈ fields, trim field = "end"
  simple : op.simple = true ↔ ∃ field ∈ fields, trim field = "simple"

/-- Whether a line spells a declaration of the operation. -/
def SpellsOperation (line : Text) (op : Operation) : Prop :=
  ∃ gap fields, IsDeclarationOf gap fields line op

/-- Whether a line declares nothing: it is blank, or a remark. -/
def IsSilent (line : Text) : Prop := trim line = [] ∨ (trim line).head? = some (.char '#')

/-- The lines of a schema that declares the operations: one for each of them, in their order, with
silent ones anywhere. -/
inductive SpellsSchema : List Text → List Operation → Prop where
  | nil : SpellsSchema [] []
  | silent {line : Text} {lines : List Text} {ops : List Operation}
      (h : IsSilent line) (hlines : SpellsSchema lines ops) : SpellsSchema (line :: lines) ops
  | declaration {line : Text} {lines : List Text} {op : Operation}
      {ops : List Operation} (h : SpellsOperation (trim line) op)
      (hlines : SpellsSchema lines ops) : SpellsSchema (line :: lines) (op :: ops)

/-! ## Characters -/

variable {c : Char}

theorem isNameChar_iff :
    isNameChar (.char c) = true ↔ c.isAlpha = true ∨ c.isDigit = true ∨ c = '_' := by
  simp [isNameChar, or_assoc]

/-- The code points of a word are characters. -/
theorem exists_chars_of_isNameChar {word : Text} (h : ∀ d ∈ word, isNameChar d = true) :
    ∃ chars, word = .ofChars chars ∧ ∀ d ∈ chars, isNameChar (.char d) = true := by
  induction word with
  | nil => exact ⟨[], rfl, by simp⟩
  | cons d word ih =>
    obtain ⟨hd, hword⟩ := List.forall_mem_cons.mp h
    obtain ⟨chars, rfl, hchars⟩ := ih hword
    cases d with
    | char d => exact ⟨d :: chars, rfl, List.forall_mem_cons.mpr ⟨hd, hchars⟩⟩
    | surrogate n => cases hd

theorem isFlagChar_iff {d : CodePoint} :
    isFlagChar d = true ↔
      (∃ c : Char, d = .char c ∧ (c.isLower = true ∨ c = ',')) ∨ isBlank d = true := by
  cases d with
  | char c => simp [isFlagChar]
  | surrogate n => simp [isFlagChar, isBlank_surrogate]

theorem toNat_of_isAlpha (h : c.isAlpha = true) :
    (0x41 ≤ c.toNat ∧ c.toNat ≤ 0x5A) ∨ (0x61 ≤ c.toNat ∧ c.toNat ≤ 0x7A) := by
  rcases Bool.or_eq_true_iff.mp h with hupper | hlower
  · exact .inl (of_decide_eq_true hupper)
  · obtain ⟨h1, h2⟩ := Bool.and_eq_true_iff.mp hlower
    exact .inr ⟨of_decide_eq_true h1, of_decide_eq_true h2⟩

theorem toNat_of_isDigit (h : c.isDigit = true) : 0x30 ≤ c.toNat ∧ c.toNat ≤ 0x39 := by
  obtain ⟨h1, h2⟩ := Bool.and_eq_true_iff.mp h
  exact ⟨of_decide_eq_true h1, of_decide_eq_true h2⟩

theorem isDigit_of_isAlpha (h : c.isAlpha = true) : c.isDigit = false := by
  by_contra hdigit
  have hletter := toNat_of_isAlpha h
  have hrange := toNat_of_isDigit (by simpa using hdigit)
  omega

theorem isBlank_of_isNameChar {d : CodePoint} (h : isNameChar d = true) : isBlank d = false := by
  obtain ⟨c, rfl⟩ : ∃ c, d = .char c := by
    cases d with
    | char c => exact ⟨c, rfl⟩
    | surrogate n => cases h
  refine Json.IsVisible.not_blank ?_
  unfold Json.IsVisible
  rcases isNameChar_iff.mp h with halpha | hdigit | rfl
  · have hletter := toNat_of_isAlpha halpha
    omega
  · have hrange := toNat_of_isDigit hdigit
    omega
  · decide

/-- Of the characters that can start a name in a line, the ASCII letters are the letters. -/
theorem isLetter_iff_isAlpha (h : isNameChar (.char c) = true) (hdigit : c.isDigit = false) :
    isLetter (.char c) = true ↔ c.isAlpha = true := by
  refine ⟨fun hletter => ?_, isLetter_of_isAlpha⟩
  rcases Bool.or_eq_true_iff.mp h with halpha | hunderscore
  · rcases Bool.or_eq_true_iff.mp halpha with halpha | hdigit'
    · exact halpha
    · rw [hdigit] at hdigit'
      cases hdigit'
  · rw [eq_of_beq hunderscore] at hletter
    exact absurd hletter (by decide +kernel)

/-! ## Fields -/

theorem splitCommas_eq_splitOn (s : Text) : splitCommas s = s.splitOn (.char ',') := by
  induction s with
  | nil => rw [splitCommas, List.splitOn_nil]
  | cons c rest ih =>
    have hne : rest.splitOn (.char ',') ≠ [] := List.splitOn_ne_nil (.char ',') rest
    obtain ⟨field, fields, hfields⟩ := List.exists_cons_of_ne_nil hne
    rw [splitCommas, List.splitOn_cons_eq_if_modifyHead, ih, hfields]
    simp only [beq_iff_eq]
    rfl

theorem intercalate_splitCommas (s : Text) :
    List.intercalate [.char ','] (splitCommas s) = s := by
  rw [splitCommas_eq_splitOn, List.intercalate_splitOn]

theorem splitCommas_intercalate {fields : List Text} (hne : fields ≠ [])
    (h : ∀ field ∈ fields, .char ',' ∉ field) :
    splitCommas (List.intercalate [.char ','] fields) = fields := by
  rw [splitCommas_eq_splitOn, List.splitOn_intercalate (.char ',') h hne]

variable {field flags : Text}

/-- What stands in a field with a flag in it, or with none. -/
theorem IsField.isLower_or_isBlank {c : CodePoint} (h : IsField field) (hc : c ∈ field) :
    (∃ d : Char, c = .char d ∧ d.isLower = true) ∨ isBlank c = true := by
  have hlower : ∀ flag ∈ ["", "begin", "end", "simple"],
      flag.toList.all (fun d => decide (d.isLower = true)) = true := by decide
  refine (mem_trim_of_mem hc).imp_left fun hmem => ?_
  obtain ⟨flag, hflag, heq⟩ :
      ∃ flag ∈ ["", "begin", "end", "simple"], trim field = .ofString flag :=
    (List.mem_map (f := Text.ofString)).mp h |>.imp fun _ h => ⟨h.1, h.2.symm⟩
  obtain ⟨d, hd, rfl⟩ := Text.mem_ofChars.mp (heq ▸ hmem)
  exact ⟨d, rfl, Json.forall_of_all (hlower flag hflag) d hd⟩

theorem mem_flagWords {word : Text} :
    word ∈ flagWords flags ↔ word ≠ [] ∧ ∃ field ∈ splitCommas flags, trim field = word := by
  simp [flagWords, and_comm]

theorem isField_iff :
    IsField field ↔ (trim field ≠ [] → knownFlags.contains (trim field) = true) := by
  rw [List.contains_iff_mem]
  exact List.mem_cons.trans or_iff_not_imp_left

/-- No flag is unknown if every field is one of a flag, or empty. -/
theorem find?_flagWords_eq_none_iff :
    (flagWords flags).find? (fun word => !knownFlags.contains word) = none ↔
      ∀ field ∈ splitCommas flags, IsField field := by
  simp only [List.find?_eq_none, mem_flagWords, isField_iff, Bool.not_eq_true, Bool.not_eq_false']
  constructor
  · intro h field hfield hne
    exact h (trim field) ⟨hne, field, hfield, rfl⟩
  · rintro h _ ⟨hne, field, hfield, rfl⟩
    exact h field hfield hne

/-- A facet is set if its flag is among the fields. -/
theorem contains_flagWords_iff {flag : Text} (hne : flag ≠ []) :
    (flagWords flags).contains flag = true ↔ ∃ field ∈ splitCommas flags, trim field = flag := by
  rw [List.contains_iff_mem, mem_flagWords]
  exact and_iff_right hne

/-! ## The cut at the colon -/

variable {entry name : Text}

/-- Whether a text is a name for the cut: it starts with no digit. -/
def IsWord (name : Text) : Prop :=
  ∃ (c : Char) (behind : Text), name = .char c :: behind ∧ c.isDigit = false ∧
    ∀ d ∈ name, isNameChar d = true

/-- Whether a line is cut into a name and flags, which may be unknown. -/
def IsCut (line name flags : Text) : Prop :=
  ∃ gap, line = name ++ (gap ++ .char ':' :: flags) ∧ IsWord name ∧ (∀ c ∈ gap, isBlank c = true) ∧
    ∀ c ∈ flags, isFlagChar c = true

/-- Behind the name there is a character that belongs to no name. -/
theorem exists_head_behind {gap : Text} (hgap : ∀ c ∈ gap, isBlank c = true)
    (flags : Text) :
    ∃ d behind, gap ++ .char ':' :: flags = d :: behind ∧ isNameChar d = false := by
  cases gap with
  | nil => exact ⟨.char ':', flags, rfl, by decide⟩
  | cons d gap =>
    refine ⟨d, gap ++ .char ':' :: flags, rfl, ?_⟩
    have hblank := hgap d List.mem_cons_self
    by_contra hname
    rw [isBlank_of_isNameChar (by simpa using hname)] at hblank
    cases hblank

/-- **The cut at the colon.** -/
theorem splitEntry?_eq_some_iff :
    splitEntry? entry = some (name, flags) ↔ IsCut entry name flags := by
  constructor
  · intro h
    unfold splitEntry? at h
    split at h
    · next c behind flags' hname hrest =>
      split at h
      · next hcond =>
        cases h
        obtain ⟨hdigit, hflags⟩ := Bool.and_eq_true_iff.mp hcond
        refine ⟨(entry.dropWhile isNameChar).takeWhile isBlank, ?_, ⟨c, behind, rfl, ?_, ?_⟩,
          ?_, ?_⟩
        · rw [← hrest, ← hname, dropBlanks, List.takeWhile_append_dropWhile,
            List.takeWhile_append_dropWhile]
        · simpa using hdigit
        · rw [← hname]
          exact List.all_eq_true.mp List.all_takeWhile
        · exact List.all_eq_true.mp List.all_takeWhile
        · exact List.all_eq_true.mp hflags
      · cases h
    · cases h
  · rintro ⟨gap, rfl, ⟨c, behind, rfl, hdigit, hname⟩, hgap, hflags⟩
    obtain ⟨d, after, hbehind, hd⟩ := exists_head_behind hgap flags
    have htake : ((.char c :: behind) ++ (gap ++ .char ':' :: flags)).takeWhile isNameChar
        = .char c :: behind := by
      rw [List.takeWhile_append_of_pos hname, hbehind, List.takeWhile_cons_of_neg (by simp [hd]),
        List.append_nil]
    have hdrop : ((.char c :: behind) ++ (gap ++ .char ':' :: flags)).dropWhile isNameChar
        = gap ++ .char ':' :: flags := by
      rw [List.dropWhile_append_of_pos hname, hbehind, List.dropWhile_cons_of_neg (by simp [hd])]
    have hcolon : dropBlanks (gap ++ .char ':' :: flags) = .char ':' :: flags := by
      rw [dropBlanks, List.dropWhile_append_of_pos hgap, List.dropWhile_cons_of_neg (by decide)]
    unfold splitEntry?
    rw [htake, hdrop, hcolon]
    simp only [hdigit, List.all_eq_true.mpr hflags, Bool.not_false, Bool.and_self, if_true]

/-! ## Lines -/

/-- What is declared under a name that the cut finds. Those that start with an underscore are
refused. -/
theorem declare_of_isWord {behind : Text} {opens closes simple : Bool}
    (hword : ∀ d ∈ .char c :: behind, isNameChar d = true) (hdigit : c.isDigit = false) :
    declare (.char c :: behind) opens closes simple =
      if c.isAlpha then .ok ⟨.char c :: behind, opens, closes, simple⟩
      else .error (.nameNotLetter (.char c :: behind)) := by
  obtain ⟨hstart, hend⟩ := visible_ends (List.cons_ne_nil _ behind)
    fun d hd => isBlank_of_isNameChar (hword d hd)
  have htrim : trim (.char c :: behind) = .char c :: behind := trim_of_ends hstart hend 0
  unfold declare
  rw [htrim]
  simp only [isLetter_iff_isAlpha (hword _ List.mem_cons_self) hdigit]

namespace IsDeclarationOf

variable {gap : Text} {fields : List Text} {line : Text} {op : Operation}

/-- The commas are those between the fields. -/
theorem splitCommas_eq (h : IsDeclarationOf gap fields line op) :
    splitCommas (List.intercalate [.char ','] fields) = fields := by
  refine splitCommas_intercalate h.nonempty fun field hfield hcomma => ?_
  rcases (h.known field hfield).isLower_or_isBlank hcomma with hlower | hblank
  · obtain ⟨c, hc, hlower⟩ := hlower
    cases hc
    exact absurd hlower (by decide)
  · exact absurd hblank (by decide)

theorem isFlagChar_of_mem (h : IsDeclarationOf gap fields line op) :
    ∀ c ∈ List.intercalate [.char ','] fields, isFlagChar c = true := by
  intro c hc
  rw [isFlagChar_iff]
  rcases Text.mem_intercalate hc with hcomma | ⟨field, hfield, hc⟩
  · exact .inl ⟨',', List.mem_singleton.mp hcomma, .inr rfl⟩
  · exact ((h.known field hfield).isLower_or_isBlank hc).imp_left fun ⟨d, heq, hd⟩ =>
      ⟨d, heq, .inl hd⟩

theorem splitEntry?_eq (h : IsDeclarationOf gap fields line op) :
    splitEntry? line = some (op.name, List.intercalate [.char ','] fields) := by
  obtain ⟨c, behind, hname, halpha, hbehind⟩ := h.name
  refine splitEntry?_eq_some_iff.mpr ⟨gap, h.line,
    ⟨c, Text.ofChars behind, hname, isDigit_of_isAlpha halpha, fun d hd => ?_⟩, h.gap,
    h.isFlagChar_of_mem⟩
  rw [hname] at hd
  obtain ⟨e, he, rfl⟩ := mem_ofChars.mp hd
  rcases List.mem_cons.mp he with rfl | he
  · exact isNameChar_iff.mpr (.inl halpha)
  · exact isNameChar_iff.mpr (hbehind e he)

theorem ofEntry_eq (h : IsDeclarationOf gap fields line op) : ofEntry line = .ok op := by
  have hknown : (flagWords (List.intercalate [.char ','] fields)).find?
      (fun word => !knownFlags.contains word) = none :=
    find?_flagWords_eq_none_iff.mpr (by rw [h.splitCommas_eq]; exact h.known)
  have hfacet {flag : Text} (hne : flag ≠ []) {facet : Bool}
      (hset : facet = true ↔ ∃ field ∈ fields, trim field = flag) :
      (flagWords (List.intercalate [.char ','] fields)).contains flag = facet := by
    rw [Bool.eq_iff_iff, contains_flagWords_iff hne, h.splitCommas_eq, hset]
  obtain ⟨-, -, ⟨c, behind, hname, hdigit, hword⟩, -⟩ := splitEntry?_eq_some_iff.mp h.splitEntry?_eq
  obtain ⟨_, _, hname', halpha, -⟩ := h.name
  cases hname'.symm.trans hname
  unfold ofEntry
  rw [h.splitEntry?_eq]
  dsimp only
  rw [hknown, hfacet (by decide) h.blockBegin, hfacet (by decide) h.blockEnd,
    hfacet (by decide) h.simple]
  dsimp only
  rw [hname] at hword ⊢
  rw [declare_of_isWord hword hdigit, if_pos halpha, ← hname]

end IsDeclarationOf

/-- What a line that declares nothing is refused with: it is not cut, it has an unknown flag, or its
name starts with an underscore. -/
inductive IsEntryError (line : Text) : DeclarationError → Prop where
  | malformed (h : ¬∃ name flags, IsCut line name flags) :
      IsEntryError line (.malformedEntry line)
  | flag {name flags field : Text} (hcut : IsCut line name flags)
      (hfield : field ∈ splitCommas flags) (hunknown : ¬IsField field) :
      IsEntryError line (.unknownFlag (trim field) line)
  | name {behind flags : Text} (hcut : IsCut line (.char '_' :: behind) flags) :
      IsEntryError line (.nameNotLetter (.char '_' :: behind))

/-- A flag that is looked up and not found is a field that is none. -/
theorem exists_field_of_find? {word : Text}
    (h : (flagWords flags).find? (fun word => !knownFlags.contains word) = some word) :
    ∃ field ∈ splitCommas flags, ¬IsField field ∧ trim field = word := by
  have hunknown := List.find?_some h
  obtain ⟨hne, field, hfield, rfl⟩ := mem_flagWords.mp (List.mem_of_find?_eq_some h)
  refine ⟨field, hfield, fun hknown => ?_, rfl⟩
  rw [isField_iff.mp hknown hne] at hunknown
  cases hunknown

/-- What a line declares is spelled by it, and what it is refused with is one of three errors. -/
theorem ofEntry_cases (line : Text) :
    (∃ op, ofEntry line = .ok op ∧ SpellsOperation line op) ∨
      ∃ e, ofEntry line = .error e ∧ IsEntryError line e := by
  unfold ofEntry
  split
  · next hsplit =>
    refine .inr ⟨_, rfl, .malformed fun ⟨name, flags, hcut⟩ => ?_⟩
    rw [splitEntry?_eq_some_iff.mpr hcut] at hsplit
    cases hsplit
  · next name flags hsplit =>
    have hcut := splitEntry?_eq_some_iff.mp hsplit
    obtain ⟨gap, hline, ⟨c, behind, rfl, hdigit, hword⟩, hgap, -⟩ :=
      splitEntry?_eq_some_iff.mp hsplit
    dsimp only
    split
    · next word hfind =>
      obtain ⟨field, hfield, hunknown, rfl⟩ := exists_field_of_find? hfind
      exact .inr ⟨_, rfl, .flag hcut hfield hunknown⟩
    · next hknown =>
      rw [declare_of_isWord hword hdigit]
      split
      · next halpha =>
        obtain ⟨chars, rfl, hchars⟩ :=
          exists_chars_of_isNameChar fun d hd => hword d (List.mem_cons_of_mem _ hd)
        refine .inl ⟨_, rfl, gap, splitCommas flags, ?_⟩
        exact {
          line := by rw [intercalate_splitCommas, hline]
          name := ⟨c, chars, rfl, halpha, fun d hd => isNameChar_iff.mp (hchars d hd)⟩
          gap := hgap
          nonempty := by rw [splitCommas_eq_splitOn]; exact List.splitOn_ne_nil (.char ',') flags
          known := find?_flagWords_eq_none_iff.mp hknown
          blockBegin := contains_flagWords_iff (by decide)
          blockEnd := contains_flagWords_iff (by decide)
          simple := contains_flagWords_iff (by decide) }
      · next halpha =>
        obtain rfl : c = '_' :=
          ((isNameChar_iff.mp (hword _ List.mem_cons_self)).resolve_left halpha).resolve_left
            (by simp [hdigit])
        exact .inr ⟨_, rfl, .name hcut⟩

/-- **A line declares the operation that it spells.** -/
theorem ofEntry_eq_ok_iff {line : Text} {op : Operation} :
    ofEntry line = .ok op ↔ SpellsOperation line op := by
  refine ⟨fun h => ?_, fun ⟨_, _, h⟩ => h.ofEntry_eq⟩
  rcases ofEntry_cases line with ⟨op', hop', hspells⟩ | ⟨e, he, -⟩
  · cases h.symm.trans hop'
    exact hspells
  · cases h.symm.trans he

theorem isEntryError_of_ofEntry {line : Text} {e : DeclarationError}
    (h : ofEntry line = .error e) : IsEntryError line e ∧ ¬∃ op, SpellsOperation line op := by
  refine ⟨?_, fun ⟨op, hop⟩ => ?_⟩
  · rcases ofEntry_cases line with ⟨op, hop, -⟩ | ⟨e', he', hentry⟩
    · cases h.symm.trans hop
    · cases h.symm.trans he'
      exact hentry
  · cases h.symm.trans (ofEntry_eq_ok_iff.mpr hop)

/-! ## Schemas -/

/-- The lines that are read as declarations, trimmed. -/
def entriesOf (lines : List Text) : List Text :=
  (lines.map trim).filter fun entry => !entry.isEmpty && entry.head? != some (.char '#')

variable {line : Text} {lines : List Text}

theorem entriesOf_of_isSilent (h : IsSilent line) :
    entriesOf (line :: lines) = entriesOf lines := by
  unfold entriesOf
  rw [List.map_cons, List.filter_cons_of_neg]
  rcases h with h | h <;> simp [h]

theorem entriesOf_of_not_isSilent (h : ¬IsSilent line) :
    entriesOf (line :: lines) = trim line :: entriesOf lines := by
  unfold entriesOf
  rw [List.map_cons, List.filter_cons_of_pos]
  obtain ⟨hne, hhead⟩ := not_or.mp h
  simp [hne, hhead]

/-- A line that declares an operation starts with a letter. -/
theorem SpellsOperation.not_isSilent {op : Operation} (h : SpellsOperation (trim line) op) :
    ¬IsSilent line := by
  obtain ⟨gap, fields, h⟩ := h
  obtain ⟨c, behind, hname, halpha, -⟩ := h.name
  have hline := h.line
  rw [hname, ofChars_cons, List.cons_append] at hline
  rintro (hnil | hhead)
  · rw [hnil] at hline
    cases hline
  · rw [hline] at hhead
    cases hhead
    exact absurd halpha (by decide)

/-- **Lines declare the operations that they spell.** -/
theorem mapM_ofEntry_eq_ok_iff {ops : List Operation} :
    (entriesOf lines).mapM ofEntry = .ok ops ↔ SpellsSchema lines ops := by
  constructor
  · intro h
    induction lines generalizing ops with
    | nil =>
      cases h
      exact .nil
    | cons line lines ih =>
      by_cases hsilent : IsSilent line
      · rw [entriesOf_of_isSilent hsilent] at h
        exact .silent hsilent (ih h)
      · rw [entriesOf_of_not_isSilent hsilent] at h
        obtain ⟨op, behind, hop, hbehind, rfl⟩ := mapM_cons_eq_ok.mp h
        exact .declaration (ofEntry_eq_ok_iff.mp hop) (ih hbehind)
  · intro h
    induction h with
    | nil => rfl
    | silent h _ ih => rwa [entriesOf_of_isSilent h]
    | declaration h _ ih =>
      rw [entriesOf_of_not_isSilent h.not_isSilent]
      exact mapM_cons_eq_ok.mpr ⟨_, _, ofEntry_eq_ok_iff.mpr h, ih, rfl⟩

/-- Lines spell a schema if each of them is silent or a declaration. -/
theorem exists_spellsSchema_iff : (∃ ops, SpellsSchema lines ops) ↔
    ∀ line ∈ lines, IsSilent line ∨ ∃ op, SpellsOperation (trim line) op := by
  constructor
  · rintro ⟨ops, h⟩
    induction h with
    | nil => simp
    | silent h _ ih => exact List.forall_mem_cons.mpr ⟨.inl h, ih⟩
    | declaration h _ ih => exact List.forall_mem_cons.mpr ⟨.inr ⟨_, h⟩, ih⟩
  · intro h
    induction lines with
    | nil => exact ⟨[], .nil⟩
    | cons line lines ih =>
      obtain ⟨hline, hlines⟩ := List.forall_mem_cons.mp h
      obtain ⟨ops, hops⟩ := ih hlines
      rcases hline with hsilent | ⟨op, hop⟩
      · exact ⟨ops, .silent hsilent hops⟩
      · exact ⟨op :: ops, .declaration hop hops⟩

/-- Lines are refused at the first one that is neither silent nor a declaration. -/
theorem exists_refused_line {e : DeclarationError}
    (h : (entriesOf lines).mapM ofEntry = .error e) :
    ∃ before line behind ops, lines = before ++ line :: behind ∧ SpellsSchema before ops ∧
      ¬IsSilent line ∧ (¬∃ op, SpellsOperation (trim line) op) ∧ IsEntryError (trim line) e := by
  induction lines with
  | nil => cases h
  | cons line lines ih =>
    by_cases hsilent : IsSilent line
    · rw [entriesOf_of_isSilent hsilent] at h
      obtain ⟨before, refused, behind, ops, rfl, hbefore, hrefused⟩ := ih h
      exact ⟨line :: before, refused, behind, ops, rfl, .silent hsilent hbefore, hrefused⟩
    · rw [entriesOf_of_not_isSilent hsilent] at h
      rcases mapM_cons_eq_error.mp h with hfirst | ⟨op, hop, hbehind⟩
      · obtain ⟨herror, hspells⟩ := isEntryError_of_ofEntry hfirst
        exact ⟨[], line, lines, [], rfl, .nil, hsilent, hspells, herror⟩
      · obtain ⟨before, refused, behind, ops, rfl, hbefore, hrefused⟩ := ih hbehind
        exact ⟨line :: before, refused, behind, op :: ops, rfl,
          .declaration (ofEntry_eq_ok_iff.mp hop) hbefore, hrefused⟩

/-- **The schema accepts just its grammar.** A text declares the operations that its lines spell,
one for each line that is not silent. It is accepted exactly if each line is silent or spells an
operation, and otherwise it is refused at the first line that does neither. -/
theorem ofSchema_grammar (text : Text) :
    (∀ ops, ofSchema text = .ok ops ↔ SpellsSchema (splitLines text) ops) ∧
    ((∃ ops, ofSchema text = .ok ops) ↔
      ∀ line ∈ splitLines text, IsSilent line ∨ ∃ op, SpellsOperation (trim line) op) ∧
    ∀ e, ofSchema text = .error e → ∃ before line behind ops,
      splitLines text = before ++ line :: behind ∧ SpellsSchema before ops ∧ ¬IsSilent line ∧
        (¬∃ op, SpellsOperation (trim line) op) ∧ IsEntryError (trim line) e := by
  refine ⟨fun ops => mapM_ofEntry_eq_ok_iff, ?_, fun e h => exists_refused_line h⟩
  rw [← exists_spellsSchema_iff]
  exact exists_congr fun ops => mapM_ofEntry_eq_ok_iff

/-- Flags may be repeated, left out and in any order; a name may not start with an underscore. -/
theorem ofSchema_grammar_divider :
    SpellsSchema (splitLines "# loops\n  Next : end,,begin , end")
      [Operation.ofDivider "Next"] ∧
    ¬∀ line ∈ splitLines "Next: begin\n_Next: end",
      IsSilent line ∨ ∃ op, SpellsOperation (trim line) op := by
  refine ⟨((ofSchema_grammar _).1 _).mp (eq_ok_of_toOption (by decide +kernel)), fun h => ?_⟩
  obtain ⟨ops, hops⟩ := (ofSchema_grammar _).2.1.mpr h
  cases hops.symm.trans (eq_error_of_failure?
    (show failure? _ = some (.nameNotLetter "_Next") by decide +kernel))

end FlatCode.Operation
