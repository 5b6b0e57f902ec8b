import FlatCode.Proofs.Json.Writing
import FlatCode.Proofs.Text.Lines

/-!
# The characters of JSON text

Text without indentation is printable ASCII: no character breaks a line, and the space is the only
blank. It starts and ends with a character that is no blank.

* `printable_of_mem_write` — all characters are printable ASCII
* `startsVisibly_write`, `endsVisibly_write` — no blank stands first or last
-/

namespace FlatCode.Json

open Number Text

/-- Printable ASCII, with the space. -/
def IsPrintable (c : Char) : Prop := 0x20 ≤ c.toNat ∧ c.toNat ≤ 0x7E

instance (c : Char) : Decidable (IsPrintable c) := inferInstanceAs (Decidable (_ ∧ _))

/-- Printable ASCII without the space. -/
def IsVisible (c : Char) : Prop := 0x21 ≤ c.toNat ∧ c.toNat ≤ 0x7E

instance (c : Char) : Decidable (IsVisible c) := inferInstanceAs (Decidable (_ ∧ _))

theorem IsVisible.printable {c : Char} (h : IsVisible c) : IsPrintable c := by
  unfold IsVisible at h
  unfold IsPrintable
  omega

/-- No visible character is blank. -/
theorem IsVisible.not_blank {c : Char} (h : IsVisible c) : isBlank (.char c) = false := by
  unfold IsVisible at h
  unfold isBlank
  rw [CodePoint.toNat_char]
  simp only [Bool.or_eq_false_iff, Bool.and_eq_false_iff, decide_eq_false_iff_not,
    beq_eq_false_iff_ne]
  omega

theorem forall_of_all {p : Char → Prop} [DecidablePred p] {text : List Char}
    (h : text.all (fun c => decide (p c)) = true) : ∀ c ∈ text, p c :=
  fun c hc => of_decide_eq_true (List.all_eq_true.mp h c hc)

/-! ## Numbers -/

theorem visible_of_isDigit {c : Char} (h : isDigit c = true) : IsVisible c := by
  simp only [isDigit, Bool.and_eq_true, decide_eq_true_eq] at h
  unfold IsVisible
  omega

theorem visible_of_mem_exponent {exponent : Option Int} {text : List Char}
    (h : SpellsExponent exponent text) : ∀ c ∈ text, IsVisible c := by
  have hmark : ∀ {mark : Char}, mark = 'e' ∨ mark = 'E' → IsVisible mark := by
    rintro mark (rfl | rfl) <;> decide
  intro c hc
  cases h with
  | none => simp at hc
  | plain h _ hdigits =>
    rcases List.mem_cons.mp hc with rfl | hc
    · exact hmark h
    · exact visible_of_isDigit (hdigits c hc)
  | plus h _ hdigits =>
    rcases List.mem_cons.mp hc with rfl | hc
    · exact hmark h
    rcases List.mem_cons.mp hc with rfl | hc
    · decide
    · exact visible_of_isDigit (hdigits c hc)
  | minus h _ hdigits =>
    rcases List.mem_cons.mp hc with rfl | hc
    · exact hmark h
    rcases List.mem_cons.mp hc with rfl | hc
    · decide
    · exact visible_of_isDigit (hdigits c hc)

/-- The characters of a number are visible. -/
theorem visible_of_mem_number {negative : Bool} {value : Json} {text : List Char}
    (h : SpellsNumber negative value text) : ∀ c ∈ text, IsVisible c := by
  obtain ⟨hwhole, hfraction, hexponent, -⟩ := h
  next whole fraction exponentText exponent =>
  intro c hc
  rcases List.mem_append.mp hc with hc | hc
  · exact visible_of_isDigit (hwhole.2.1 c hc)
  rcases List.mem_append.mp hc with hc | hc
  · cases fraction with
    | nil => simp [pointed] at hc
    | cons d fraction =>
      rcases List.mem_cons.mp hc with rfl | hc
      · decide
      · exact visible_of_isDigit (hfraction c hc)
  · exact visible_of_mem_exponent hexponent c hc

theorem visible_of_mem_writeInt {n : Int} : ∀ c ∈ writeInt n, IsVisible c := by
  intro c hc
  unfold writeInt at hc
  split at hc
  · rcases List.mem_cons.mp hc with rfl | hc
    · decide
    · exact visible_of_isDigit (isDigit_of_mem_toDigits hc)
  · exact visible_of_isDigit (isDigit_of_mem_toDigits hc)

theorem visible_of_mem_writeFloat {x : Binary64} : ∀ c ∈ writeFloat x, IsVisible c := by
  cases x with
  | finite negative units h =>
    have hnumber := visible_of_mem_number (spellsNumber_writeUnits Layout.standard negative h)
    intro c hc
    rw [writeFloat, signed] at hc
    split at hc
    · rcases List.mem_cons.mp hc with rfl | hc
      · decide
      · exact hnumber c hc
    · exact hnumber c hc
  | infinite negative => cases negative <;> exact forall_of_all (by decide)
  | nan => exact forall_of_all (by decide)

/-! ## Strings -/

theorem visible_hexDigit {n : Nat} (h : n < 16) : IsVisible (hexDigit n) := by
  have hall : ∀ d ∈ List.range 16, IsVisible (hexDigit d) := by decide
  exact hall n (List.mem_range.mpr h)

theorem visible_of_mem_writeUnit {unit : Nat} : ∀ c ∈ writeUnit unit, IsVisible c := by
  intro c hc
  simp only [writeUnit, List.mem_cons, List.not_mem_nil, or_false] at hc
  rcases hc with rfl | rfl | rfl | rfl | rfl | rfl
  · decide
  · decide
  all_goals exact visible_hexDigit (Nat.mod_lt _ (by decide))

theorem printable_of_mem_writeChar {c : Char} : ∀ d ∈ writeChar c, IsPrintable d := by
  intro d hd
  unfold writeChar at hd
  dsimp only at hd
  have hescape : ∀ {letter : Char}, IsPrintable letter → d ∈ ['\\', letter] → IsPrintable d := by
    intro letter hletter hmem
    simp only [List.mem_cons, List.not_mem_nil, or_false] at hmem
    rcases hmem with rfl | rfl
    · decide
    · exact hletter
  split at hd
  · exact hescape (by decide) hd
  split at hd
  · exact hescape (by decide) hd
  split at hd
  · exact hescape (by decide) hd
  split at hd
  · exact hescape (by decide) hd
  split at hd
  · exact hescape (by decide) hd
  split at hd
  · exact hescape (by decide) hd
  split at hd
  · exact hescape (by decide) hd
  split at hd
  · next hprint =>
    rw [List.mem_singleton.mp hd]
    exact hprint
  split at hd
  · exact (visible_of_mem_writeUnit d hd).printable
  · rcases List.mem_append.mp hd with hd | hd
    · exact (visible_of_mem_writeUnit d hd).printable
    · exact (visible_of_mem_writeUnit d hd).printable

theorem printable_of_mem_writeCodePoint {c : CodePoint} :
    ∀ d ∈ writeCodePoint c, IsPrintable d := by
  cases c with
  | char c => exact printable_of_mem_writeChar
  | surrogate n => exact fun d hd => (visible_of_mem_writeUnit d hd).printable

theorem printable_of_mem_writeString {s : Text} : ∀ c ∈ writeString s, IsPrintable c := by
  intro c hc
  unfold writeString at hc
  rcases List.mem_cons.mp hc with rfl | hc
  · decide
  rcases List.mem_append.mp hc with hc | hc
  · obtain ⟨d, -, hd⟩ := List.mem_flatMap.mp hc
    exact printable_of_mem_writeCodePoint c hd
  · rw [List.mem_singleton.mp hc]
    decide

/-! ## Values -/

/-- Whether a style writes on one line, with printable separators. -/
structure Style.OneLine (style : Style) : Prop where
  item : ∀ c ∈ style.itemSeparator, IsPrintable c
  name : ∀ c ∈ style.nameSeparator, IsPrintable c
  flat : style.indent = none

theorem Style.compact_oneLine : Style.compact.OneLine :=
  ⟨forall_of_all (by decide), forall_of_all (by decide), rfl⟩

theorem Style.canonical_oneLine : Style.canonical.OneLine :=
  ⟨forall_of_all (by decide), forall_of_all (by decide), rfl⟩

theorem Style.OneLine.lineBreak {style : Style} (h : style.OneLine) (depth : Nat) :
    style.lineBreak depth = [] := by
  unfold Style.lineBreak
  rw [h.flat]

theorem printable_of_mem_enclose {style : Style} (hstyle : style.OneLine) {depth : Nat}
    {opening closing : Char} (hopening : IsPrintable opening) (hclosing : IsPrintable closing)
    {parts : List (List Char)} (hparts : ∀ part ∈ parts, ∀ c ∈ part, IsPrintable c) :
    ∀ c ∈ style.enclose depth opening closing parts, IsPrintable c := by
  intro c hc
  unfold Style.enclose at hc
  rw [hstyle.lineBreak, hstyle.lineBreak] at hc
  split at hc
  · simp only [List.mem_cons, List.not_mem_nil, or_false] at hc
    rcases hc with rfl | rfl
    · exact hopening
    · exact hclosing
  · simp only [List.append_nil, List.nil_append, List.mem_cons, List.mem_append,
      List.not_mem_nil, or_false] at hc
    rcases hc with rfl | hc | rfl
    · exact hopening
    · rcases Text.mem_intercalate hc with hc | ⟨part, hpart, hc⟩
      · exact hstyle.item c hc
      · exact hparts part hpart c hc
    · exact hclosing

/-- **Text on one line is printable ASCII.** -/
theorem printable_of_mem_writeAt {style : Style} (hstyle : style.OneLine) (depth : Nat) :
    ∀ (value : Json), ∀ c ∈ writeAt style depth value, IsPrintable c
  | .null => by
    rw [writeAt]
    exact forall_of_all (by decide)
  | .bool true => by
    rw [writeAt]
    exact forall_of_all (by decide)
  | .bool false => by
    rw [writeAt]
    exact forall_of_all (by decide)
  | .int n => by
    rw [writeAt]
    exact fun c hc => (visible_of_mem_writeInt c hc).printable
  | .float x => by
    rw [writeAt]
    exact fun c hc => (visible_of_mem_writeFloat c hc).printable
  | .string s => by
    rw [writeAt]
    exact printable_of_mem_writeString
  | .array items => by
    rw [writeAt, writeItems_eq_map]
    refine printable_of_mem_enclose hstyle (by decide) (by decide) fun part hpart => ?_
    obtain ⟨item, hitem, rfl⟩ := List.mem_map.mp hpart
    have hweight := weight_le_of_mem hitem
    exact printable_of_mem_writeAt hstyle (depth + 1) item
  | .object fields => by
    rw [writeAt]
    refine printable_of_mem_enclose hstyle (by decide) (by decide) fun part hpart c hc => ?_
    obtain ⟨⟨name, text⟩, htext, rfl⟩ := List.mem_map.mp hpart
    have hmem : (name, text) ∈ writeFields style (depth + 1) fields := by
      unfold Style.order at htext
      split at htext
      · exact (List.mergeSort_perm _ _).mem_iff.mp htext
      · exact htext
    rw [writeFields_eq_map] at hmem
    obtain ⟨field, hfield, heq⟩ := List.mem_map.mp hmem
    obtain ⟨rfl, rfl⟩ := Prod.mk.inj heq
    have hweight := weight_le_of_mem_fields hfield
    rcases List.mem_append.mp hc with hc | hc
    · rcases List.mem_append.mp hc with hc | hc
      · exact printable_of_mem_writeString c hc
      · exact hstyle.name c hc
    · exact printable_of_mem_writeAt hstyle (depth + 1) field.2 c hc
termination_by value => weight value
decreasing_by
  · rw [weight]
    omega
  · rw [weight]
    omega

theorem printable_of_mem_write {style : Style} (hstyle : style.OneLine) (value : Json) :
    ∀ c ∈ write style value, IsPrintable c :=
  printable_of_mem_writeAt hstyle 0 value

/-! ## The first and the last character -/

/-- A visible character starts every value. -/
theorem visible_of_startsValue {c : Char} (h : startsValue c = true) : IsVisible c := by
  simp only [startsValue, Bool.or_eq_true, List.contains_eq_mem, List.mem_cons,
    List.not_mem_nil, or_false, decide_eq_true_eq] at h
  rcases h with h | rfl | rfl | rfl | rfl | rfl | rfl | rfl | rfl | rfl
  · exact visible_of_isDigit h
  all_goals decide

theorem exists_last_enclose (style : Style) (depth : Nat) (opening closing : Char)
    (parts : List (List Char)) :
    ∃ front, style.enclose depth opening closing parts = front ++ [closing] := by
  unfold Style.enclose
  split
  · exact ⟨[opening], rfl⟩
  · exact ⟨opening :: _, by rw [List.cons_append]⟩

/-- **No blank stands last in the text of a value.** -/
theorem endsVisibly_write (style : Style) (value : Json) :
    EndsVisibly (.ofChars (write style value)) := by
  have hlast : ∀ {text front : List Char} {c : Char}, text = front ++ [c] → IsVisible c →
      EndsVisibly (.ofChars text) := by
    rintro _ front c rfl hc
    exact ⟨Text.ofChars front, .char c, Text.ofChars_append .., hc.not_blank⟩
  have hvisible : ∀ {text : List Char}, text ≠ [] → (∀ c ∈ text, IsVisible c) →
      EndsVisibly (.ofChars text) := fun hne h =>
    hlast (List.dropLast_concat_getLast hne).symm (h _ (List.getLast_mem hne))
  unfold write
  cases value with
  | null => rw [writeAt]; exact @hlast _ ['n', 'u', 'l'] 'l' rfl (by decide)
  | bool b =>
    cases b with
    | true => rw [writeAt]; exact @hlast _ ['t', 'r', 'u'] 'e' rfl (by decide)
    | false => rw [writeAt]; exact @hlast _ ['f', 'a', 'l', 's'] 'e' rfl (by decide)
  | int n =>
    rw [writeAt]
    refine hvisible ?_ visible_of_mem_writeInt
    unfold writeInt
    split
    · simp
    · exact Nat.toDigits_ne_nil
  | float x =>
    rw [writeAt]
    refine hvisible (fun hnil => ?_) visible_of_mem_writeFloat
    have hlength := length_of_spells (spells_float x [])
    rw [hnil] at hlength
    simp at hlength
  | string s =>
    rw [writeAt]
    exact @hlast _ ('"' :: s.flatMap writeCodePoint) '"' (by simp [writeString]) (by decide)
  | array items =>
    rw [writeAt]
    obtain ⟨front, heq⟩ := exists_last_enclose ..
    exact hlast heq (by decide)
  | object fields =>
    rw [writeAt]
    obtain ⟨front, heq⟩ := exists_last_enclose ..
    exact hlast heq (by decide)

/-- **No blank stands first in the text of a value.** -/
theorem startsVisibly_write {style : Style} (hstyle : style.Plain) {value : Json}
    (h : Regular value) : StartsVisibly (.ofChars (write style value)) := by
  obtain ⟨c, behind, heq, hc⟩ := exists_start_of_spells (spells_writeAt hstyle 0 value [] h)
  rw [List.append_nil] at heq
  exact ⟨.char c, behind, heq, (visible_of_startsValue hc).not_blank⟩

end FlatCode.Json
