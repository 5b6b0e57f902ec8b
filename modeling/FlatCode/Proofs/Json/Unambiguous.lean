import FlatCode.Proofs.Json.LongNumbers

/-!
# The text of a value tells the value

In a style that keeps the order of fields, two values have the same text only if they are the same
value. Texts that start with the texts of two values tell even where these end, as long as what
stands behind them does not go on with a number: this carries the induction over items and fields.

Reading back would say so for regular values alone. Here a value is left out only for its strings
(`PairFree`): a character above `U+FFFF` is written by two code units, and so are the two halves of
its pair where they stand side by side as code points. Digits tell an integer of any length, and
each field is told apart, also when a key is repeated.

* `leaf_append_inj` — values without parts
* `intercalate_append_inj` — parts with separators between them
* `write_injective` — all values
-/

namespace FlatCode.Json

open Number

/-! ## Values without halves of pairs side by side -/

mutual

/-- Whether in no string and no key of a value stand the halves of a pair side by side. -/
def PairFree : Json → Prop
  | .string s => Unpaired s
  | .array items => PairFreeItems items
  | .object fields => PairFreeFields fields
  | .null | .bool _ | .int _ | .float _ => True

/-- Whether all items of an array are such values. -/
def PairFreeItems : List Json → Prop
  | [] => True
  | item :: rest => PairFree item ∧ PairFreeItems rest

/-- Whether all fields of an object have such keys and values. -/
def PairFreeFields : List (Text × Json) → Prop
  | [] => True
  | (key, value) :: rest => Unpaired key ∧ PairFree value ∧ PairFreeFields rest

end

theorem pairFreeItems_iff {items : List Json} :
    PairFreeItems items ↔ ∀ item ∈ items, PairFree item := by
  induction items with
  | nil => simp [PairFreeItems]
  | cons item items ih => rw [PairFreeItems, ih, List.forall_mem_cons]

theorem pairFreeFields_iff {fields : List (Text × Json)} :
    PairFreeFields fields ↔ ∀ field ∈ fields, Unpaired field.1 ∧ PairFree field.2 := by
  induction fields with
  | nil => simp [PairFreeFields]
  | cons field fields ih => rw [PairFreeFields, ih, List.forall_mem_cons, and_assoc]

/-! ## Values without parts -/

/-- Whether a value holds no other values. -/
def isLeaf : Json → Bool
  | .array _ | .object _ => false
  | .null | .bool _ | .int _ | .float _ | .string _ => true

theorem exists_digit_toDigits (n : Nat) :
    ∃ c behind, Nat.toDigits 10 n = c :: behind ∧ isDigit c = true := by
  cases hdigits : Nat.toDigits 10 n with
  | nil => exact absurd hdigits Nat.toDigits_ne_nil
  | cons c behind => exact ⟨c, behind, rfl, isDigit_of_mem_toDigits (hdigits ▸ List.mem_cons_self)⟩

/-- Digits tell the number, wherever something else than a digit ends them. -/
theorem toDigits_append_inj {m n : Nat} {r s : List Char} (hr : NoDigit (.ofChars r))
    (hs : NoDigit (.ofChars s)) (h : Nat.toDigits 10 m ++ r = Nat.toDigits 10 n ++ s) :
    m = n ∧ r = s := by
  have hm := takeDigits_append (fun c => isDigit_of_mem_toDigits (n := m)) hr
  have hn := takeDigits_append (fun c => isDigit_of_mem_toDigits (n := n)) hs
  rw [← Text.ofChars_append, h, Text.ofChars_append, hn] at hm
  obtain ⟨hdigits, hrest⟩ := Prod.mk.inj hm
  have hnumber := congrArg (fun digits => Nat.ofDigitChars 10 digits 0) hdigits
  simp only [Nat.ofDigitChars_ten_toDigits] at hnumber
  exact ⟨hnumber.symm, (Text.ofChars_inj.mp hrest).symm⟩

theorem writeInt_append_inj {m n : Int} {r s : List Char} (hr : endsNumber (.ofChars r) = true)
    (hs : endsNumber (.ofChars s) = true) (h : writeInt m ++ r = writeInt n ++ s) :
    m = n ∧ r = s := by
  have hdigits := fun {a b : Nat} =>
    toDigits_append_inj (m := a) (n := b) (noDigit_of_endsNumber hr) (noDigit_of_endsNumber hs)
  -- a minus sign is no digit, so the signs are the same
  have hsign : ∀ (a b : Nat) (x y : List Char),
      '-' :: (Nat.toDigits 10 a ++ x) ≠ Nat.toDigits 10 b ++ y := by
    intro a b x y heq
    obtain ⟨c, behind, hc, hdigit⟩ := exists_digit_toDigits b
    rw [hc, List.cons_append] at heq
    obtain rfl := (List.cons.inj heq).1
    exact absurd hdigit (by decide)
  unfold writeInt at h
  split at h
  · split at h
    · obtain ⟨habs, hrest⟩ := hdigits (List.cons.inj h).2
      exact ⟨by omega, hrest⟩
    · exact absurd h (hsign _ _ _ _)
  · split at h
    · exact absurd h.symm (hsign _ _ _ _)
    · obtain ⟨habs, hrest⟩ := hdigits h
      exact ⟨by omega, hrest⟩

/-- An integer of too many digits is taken for one. -/
theorem readValue_writeInt_long {n : Int} (h : maxDigits < (Nat.toDigits 10 n.natAbs).length)
    {rest : Text} (hrest : endsNumber rest = true) :
    ∃ count, readValue (.ofChars (writeInt n) ++ rest) = .error (.tooManyDigits count) := by
  have hsigned : writeInt n = signed (decide (n < 0)) (Nat.toDigits 10 n.natAbs) := by
    simp [writeInt, signed]
  rw [hsigned]
  exact ⟨_, readValue_of_long (isWhole_toDigits n.natAbs) h hrest⟩

section

variable {style : Style} {depth : Nat} {v w : Json} {r s : List Char}

/-- A value without parts is read back, unless it is an integer of too many digits. -/
theorem readValue_leaf (hstyle : style.Plain) (hv : isLeaf v = true) (hfree : PairFree v)
    {rest : Text} (hrest : endsNumber rest = true) :
    readValue (.ofChars (writeAt style depth v) ++ rest) = .ok (v, rest) ∨
      ∃ n count, v = .int n ∧
        readValue (.ofChars (writeAt style depth v) ++ rest) = .error (.tooManyDigits count) := by
  by_cases hregular : Regular v
  · exact .inl (readValue_of_spells (spells_writeAt hstyle depth v rest hregular) hrest)
  · cases v with
    | int n =>
      rw [Regular, Nat.not_le] at hregular
      obtain ⟨count, hcount⟩ := readValue_writeInt_long hregular hrest
      rw [writeAt]
      exact .inr ⟨n, count, rfl, hcount⟩
    | string s => exact absurd hfree hregular
    | null | bool b | float x => exact absurd trivial hregular
    | array items | object fields => cases hv

/-- **The text of a value without parts tells the value**, and where its text ends. -/
theorem leaf_append_inj (hstyle : style.Plain) (hv : isLeaf v = true) (hw : isLeaf w = true)
    (hvfree : PairFree v) (hwfree : PairFree w) (hr : endsNumber (.ofChars r) = true)
    (hs : endsNumber (.ofChars s) = true)
    (h : writeAt style depth v ++ r = writeAt style depth w ++ s) : v = w ∧ r = s := by
  have hreadv := @readValue_leaf style depth v hstyle hv hvfree _ hr
  have hreadw := @readValue_leaf style depth w hstyle hw hwfree _ hs
  rw [← Text.ofChars_append] at hreadv hreadw
  rw [h] at hreadv
  rcases hreadv with hread | ⟨n, count, rfl, hread⟩
  · rcases hreadw with hread' | ⟨n, count, rfl, hread'⟩
    · rw [hread] at hread'
      obtain ⟨hvalue, hrest⟩ := Prod.mk.inj (Except.ok.inj hread')
      exact ⟨hvalue, Text.ofChars_inj.mp hrest⟩
    · rw [hread] at hread'
      cases hread'
  · rcases hreadw with hread' | ⟨n', count', rfl, hread'⟩
    · rw [hread] at hread'
      cases hread'
    · rw [writeAt, writeAt] at h
      obtain ⟨rfl, hrest⟩ := writeInt_append_inj hr hs h
      exact ⟨rfl, hrest⟩

/-- A value without parts starts with no bracket. -/
theorem exists_start_of_leaf (hv : isLeaf v = true) :
    ∃ c behind, writeAt style depth v = c :: behind ∧ c ∉ ['[', ']', '{', '}'] := by
  have hdigit : ∀ {c : Char}, isDigit c = true → c ∉ ['[', ']', '{', '}'] := by
    intro c hc hmem
    simp only [List.mem_cons, List.not_mem_nil, or_false] at hmem
    rcases hmem with rfl | rfl | rfl | rfl
    all_goals exact absurd hc (by decide)
  cases v with
  | null => exact ⟨_, _, by rw [writeAt], by decide⟩
  | bool b => cases b <;> exact ⟨_, _, by rw [writeAt], by decide⟩
  | int n =>
    obtain ⟨c, behind, hdigits, hc⟩ := exists_digit_toDigits n.natAbs
    rw [writeAt, writeInt, hdigits]
    split
    · exact ⟨_, _, rfl, by decide⟩
    · exact ⟨_, _, rfl, hdigit hc⟩
  | float x =>
    rw [writeAt]
    cases x with
    | finite negative units h =>
      obtain ⟨c, behind, hdigits, hc⟩ :=
        exists_digit_of_spellsNumber (spellsNumber_writeUnits Layout.standard negative h)
      rw [writeFloat, hdigits]
      cases negative with
      | true => exact ⟨_, _, rfl, by decide⟩
      | false => exact ⟨_, _, rfl, hdigit hc⟩
    | infinite negative => cases negative <;> exact ⟨_, _, rfl, by decide⟩
    | nan => exact ⟨_, _, rfl, by decide⟩
  | string s => exact ⟨_, _, by rw [writeAt]; rfl, by decide⟩
  | array items | object fields => cases hv

/-- Brackets start with the first of them, whether there are parts or not. -/
theorem exists_start_enclose (style : Style) (depth : Nat) (opening closing : Char)
    (parts : List (List Char)) :
    ∃ behind, style.enclose depth opening closing parts = opening :: behind := by
  unfold Style.enclose
  split
  · exact ⟨_, rfl⟩
  · exact ⟨_, rfl⟩

/-- A value without parts and one with parts do not start alike. -/
theorem leaf_ne_parts (hv : isLeaf v = true) (hw : isLeaf w = false) :
    writeAt style depth v ++ r ≠ writeAt style depth w ++ s := by
  obtain ⟨c, behind, htext, hc⟩ := @exists_start_of_leaf style depth v hv
  intro h
  rw [htext, List.cons_append] at h
  cases w with
  | array items =>
    obtain ⟨rest, hstart⟩ := exists_start_enclose style depth '[' ']'
      (writeItems style (depth + 1) items)
    rw [writeAt, hstart] at h
    rw [(List.cons.inj h).1] at hc
    exact hc (by decide)
  | object fields =>
    rw [writeAt] at h
    obtain ⟨rest, hstart⟩ := exists_start_enclose style depth '{' '}' _
    rw [hstart] at h
    rw [(List.cons.inj h).1] at hc
    exact hc (by decide)
  | null | bool b | int n | float x | string s => cases hw

end

/-! ## Parts -/

section

variable {α : Type} {write : α → List Char} {as bs : List α} {r s : List Char}

/-- Whether the texts of parts tell the parts, in front of anything that does not go on with a
number. -/
def TellApart (write : α → List Char) (as bs : List α) : Prop :=
  ∀ a ∈ as, ∀ b ∈ bs, ∀ r s, endsNumber (.ofChars r) = true → endsNumber (.ofChars s) = true →
    write a ++ r = write b ++ s → a = b ∧ r = s

/-- Whether a text goes on neither with a number nor with another part. -/
def EndsParts (s : List Char) : Prop := endsNumber (.ofChars s) = true ∧ s.head? ≠ some ','

/-- **Parts with separators between them tell the parts**, and where the last one ends. -/
theorem intercalate_append_inj {blanks : List Char} (hr : EndsParts r) (hs : EndsParts s) :
    ∀ {as bs : List α}, as ≠ [] → bs ≠ [] → TellApart write as bs →
      List.intercalate (',' :: blanks) (as.map write) ++ r
        = List.intercalate (',' :: blanks) (bs.map write) ++ s → as = bs ∧ r = s
  | [], _, hne, _, _, _ => absurd rfl hne
  | _ :: _, [], _, hne, _, _ => absurd rfl hne
  | [a], [b], _, _, hparts, h => by
    simp only [List.map_cons, List.map_nil, List.intercalate_singleton] at h
    obtain ⟨rfl, hrest⟩ := hparts a List.mem_cons_self b List.mem_cons_self r s hr.1 hs.1 h
    exact ⟨rfl, hrest⟩
  | [a], b :: second :: bs, _, _, hparts, h => by
    simp only [List.map_cons, List.map_nil, List.intercalate_singleton,
      List.intercalate_cons_cons, List.append_assoc, List.cons_append] at h
    obtain ⟨-, hrest⟩ := hparts a List.mem_cons_self b List.mem_cons_self _ _ hr.1 rfl h
    exact absurd (congrArg List.head? hrest) hr.2
  | a :: second :: as, [b], _, _, hparts, h => by
    simp only [List.map_cons, List.map_nil, List.intercalate_singleton,
      List.intercalate_cons_cons, List.append_assoc, List.cons_append] at h
    obtain ⟨-, hrest⟩ := hparts a List.mem_cons_self b List.mem_cons_self _ _ rfl hs.1 h
    exact absurd (congrArg List.head? hrest).symm hs.2
  | a :: second :: as, b :: second' :: bs, _, _, hparts, h => by
    rw [List.map_cons, List.map_cons, List.map_cons, List.map_cons, List.intercalate_cons_cons,
      List.intercalate_cons_cons, ← List.map_cons, ← List.map_cons] at h
    simp only [List.append_assoc, List.cons_append] at h
    obtain ⟨rfl, hrest⟩ := hparts a List.mem_cons_self b List.mem_cons_self _ _ rfl rfl h
    obtain ⟨heq, hend⟩ := intercalate_append_inj hr hs (List.cons_ne_nil second as)
      (List.cons_ne_nil second' bs)
      (fun x hx y hy => hparts x (List.mem_cons_of_mem _ hx) y (List.mem_cons_of_mem _ hy))
      (List.append_cancel_left (List.cons.inj hrest).2)
    exact ⟨congrArg (a :: ·) heq, hend⟩

variable {style : Style} {depth : Nat} {opening closing : Char}

/-- Behind the parts stands a line break or the closing bracket. -/
theorem endsParts_closing (hclosing : closing = ']' ∨ closing = '}') (rest : List Char) :
    EndsParts (style.lineBreak depth ++ closing :: rest) := by
  have hbracket : EndsParts (closing :: rest) := by
    rcases hclosing with rfl | rfl
    · exact ⟨rfl, by simp⟩
    · exact ⟨rfl, by simp⟩
  unfold Style.lineBreak
  split
  · exact hbracket
  · exact ⟨rfl, by simp⟩

/-- Brackets around parts do not stand together. -/
theorem enclose_ne_empty (hclosing : closing = ']' ∨ closing = '}') (hne : as ≠ [])
    (hstart : ∀ a ∈ as, ∃ c behind, write a = c :: behind ∧ c ≠ closing) (r s : List Char) :
    style.enclose depth opening closing (as.map write) ++ r
      ≠ style.enclose depth opening closing [] ++ s := by
  cases as with
  | nil => exact absurd rfl hne
  | cons a as =>
    obtain ⟨c, behind, htext, hc⟩ := hstart a List.mem_cons_self
    intro h
    rw [enclose_of_ne_nil _ _ _ _ (by simp), List.cons_append, List.append_assoc,
      List.append_assoc] at h
    have hfront : ∃ rest, List.intercalate (style.itemSeparator ++ style.lineBreak (depth + 1))
        ((a :: as).map write) = c :: rest := by
      rw [List.map_cons, htext]
      cases as with
      | nil => exact ⟨_, List.intercalate_singleton⟩
      | cons second as => exact ⟨_, List.intercalate_cons_cons⟩
    obtain ⟨rest, hfront⟩ := hfront
    rw [hfront] at h
    have hsecond := (List.cons.inj h).2
    unfold Style.lineBreak at hsecond
    split at hsecond
    · exact hc (List.cons.inj hsecond).1
    · have hbreak := (List.cons.inj hsecond).1
      rcases hclosing with rfl | rfl
      · exact absurd hbreak (by decide)
      · exact absurd hbreak (by decide)

/-- **Parts in brackets tell the parts**, and where the closing bracket stands. -/
theorem enclose_append_inj (hstyle : style.Plain) (hclosing : closing = ']' ∨ closing = '}')
    (hparts : TellApart write as bs)
    (ha : ∀ a ∈ as, ∃ c behind, write a = c :: behind ∧ c ≠ closing)
    (hb : ∀ b ∈ bs, ∃ c behind, write b = c :: behind ∧ c ≠ closing)
    (h : style.enclose depth opening closing (as.map write) ++ r
      = style.enclose depth opening closing (bs.map write) ++ s) : as = bs ∧ r = s := by
  by_cases has : as = []
  · subst has
    by_cases hbs : bs = []
    · subst hbs
      exact ⟨rfl, List.append_cancel_left h⟩
    · exact absurd h.symm (enclose_ne_empty hclosing hbs hb s r)
  · by_cases hbs : bs = []
    · subst hbs
      exact absurd h (enclose_ne_empty hclosing has ha r s)
    · rw [enclose_of_ne_nil _ _ _ _ (by simpa using has),
        enclose_of_ne_nil _ _ _ _ (by simpa using hbs)] at h
      simp only [List.cons_append, List.append_assoc] at h
      have hinside := List.append_cancel_left (List.cons.inj h).2
      obtain ⟨blanks, hseparator, -⟩ := hstyle.separator (depth + 1)
      rw [hseparator] at hinside
      obtain ⟨heq, hend⟩ := intercalate_append_inj (endsParts_closing hclosing r)
        (endsParts_closing hclosing s) has hbs hparts hinside
      exact ⟨heq, (List.cons.inj (List.append_cancel_left hend)).2⟩

end

/-! ## Values -/

/-- The text of a string tells the string. -/
theorem writeString_append_inj {a b : Text} {r s : List Char} (ha : Unpaired a) (hb : Unpaired b)
    (h : writeString a ++ r = writeString b ++ s) : a = b ∧ r = s := by
  have htext := congrArg Text.ofChars h
  rw [Text.ofChars_append, Text.ofChars_append, writeString_append, writeString_append] at htext
  have hread := readString_of_spells (spellsString_flatMap ha (.ofChars r))
  rw [(List.cons.inj htext).2, readString_of_spells (spellsString_flatMap hb _)] at hread
  obtain ⟨hchars, hrest⟩ := Prod.mk.inj (Except.ok.inj hread)
  exact ⟨hchars.symm, (Text.ofChars_inj.mp hrest).symm⟩

/-- No value starts with a closing bracket. -/
theorem exists_start_of_writeAt (style : Style) (depth : Nat) (value : Json) :
    ∃ c behind, writeAt style depth value = c :: behind ∧ c ∉ [']', '}'] := by
  cases hleaf : isLeaf value with
  | true =>
    obtain ⟨c, behind, htext, hc⟩ := @exists_start_of_leaf style depth value hleaf
    refine ⟨c, behind, htext, fun hmem => hc ?_⟩
    simp only [List.mem_cons, List.not_mem_nil, or_false] at hmem ⊢
    rcases hmem with rfl | rfl
    · exact .inr (.inl rfl)
    · exact .inr (.inr (.inr rfl))
  | false =>
    cases value with
    | array items =>
      obtain ⟨rest, hstart⟩ := exists_start_enclose style depth '[' ']'
        (writeItems style (depth + 1) items)
      rw [writeAt]
      exact ⟨_, rest, hstart, by decide⟩
    | object fields =>
      rw [writeAt]
      obtain ⟨rest, hstart⟩ := exists_start_enclose style depth '{' '}' _
      exact ⟨_, rest, hstart, by decide⟩
    | null | bool b | int n | float x | string s => cases hleaf

section

variable {style : Style} {depth : Nat} {r s : List Char}

/-- The text of a field tells the field if the text of its value tells the value. -/
theorem writeField_append_inj {f g : Text × Json} (hf : Unpaired f.1) (hg : Unpaired g.1)
    (hvalue : writeAt style depth f.2 ++ r = writeAt style depth g.2 ++ s → f.2 = g.2 ∧ r = s)
    (h : writeField style depth f ++ r = writeField style depth g ++ s) : f = g ∧ r = s := by
  unfold writeField at h
  simp only [List.append_assoc] at h
  obtain ⟨hname, hbehind⟩ := writeString_append_inj hf hg h
  obtain ⟨heq, hrest⟩ := hvalue (List.append_cancel_left hbehind)
  exact ⟨Prod.ext hname heq, hrest⟩

theorem array_append_inj (hstyle : style.Plain) {items others : List Json}
    (hparts : TellApart (writeAt style (depth + 1)) items others)
    (h : writeAt style depth (.array items) ++ r = writeAt style depth (.array others) ++ s) :
    items = others ∧ r = s := by
  rw [writeAt, writeAt, writeItems_eq_map, writeItems_eq_map] at h
  have hstart : ∀ item, ∃ c behind,
      writeAt style (depth + 1) item = c :: behind ∧ c ≠ ']' := by
    intro item
    obtain ⟨c, behind, htext, hc⟩ := exists_start_of_writeAt style (depth + 1) item
    exact ⟨c, behind, htext, by rintro rfl; exact hc (by decide)⟩
  exact enclose_append_inj hstyle (.inl rfl) hparts (fun item _ => hstart item)
    (fun item _ => hstart item) h

theorem object_append_inj (hstyle : style.Plain) {fields others : List (Text × Json)}
    (hparts : TellApart (writeField style (depth + 1)) fields others)
    (h : writeAt style depth (.object fields) ++ r = writeAt style depth (.object others) ++ s) :
    fields = others ∧ r = s := by
  rw [writeAt_object hstyle, writeAt_object hstyle] at h
  have hstart : ∀ field, ∃ c behind,
      writeField style (depth + 1) field = c :: behind ∧ c ≠ '}' :=
    fun field => ⟨_, _, rfl, by decide⟩
  exact enclose_append_inj hstyle (.inr rfl) hparts (fun field _ => hstart field)
    (fun field _ => hstart field) h

theorem array_ne_object (items : List Json) (fields : List (Text × Json)) :
    writeAt style depth (.array items) ++ r ≠ writeAt style depth (.object fields) ++ s := by
  rw [writeAt, writeAt]
  obtain ⟨behind, harray⟩ := exists_start_enclose style depth '[' ']'
    (writeItems style (depth + 1) items)
  obtain ⟨behind', hobject⟩ := exists_start_enclose style depth '{' '}' _
  rw [harray, hobject]
  intro h
  exact absurd (List.cons.inj h).1 (by decide)

/-- The text of a value without parts tells it among all values. -/
theorem leaf_append_inj_any {v w : Json} (hstyle : style.Plain) (hv : isLeaf v = true)
    (hvfree : PairFree v) (hwfree : PairFree w) (hr : endsNumber (.ofChars r) = true)
    (hs : endsNumber (.ofChars s) = true)
    (h : writeAt style depth v ++ r = writeAt style depth w ++ s) : v = w ∧ r = s := by
  cases hw : isLeaf w with
  | true => exact leaf_append_inj hstyle hv hw hvfree hwfree hr hs h
  | false => exact absurd h (leaf_ne_parts hv hw)

end

/-- **The text of a value tells the value**, and where its text ends. -/
theorem writeAt_append_inj {style : Style} (hstyle : style.Plain) (depth : Nat) :
    ∀ (v w : Json) (r s : List Char), PairFree v → PairFree w → endsNumber (.ofChars r) = true →
      endsNumber (.ofChars s) = true →
      writeAt style depth v ++ r = writeAt style depth w ++ s → v = w ∧ r = s
  | .array items, w, r, s, hv, hw, hr, hs, h => by
    cases w with
    | array others =>
      have hparts : TellApart (writeAt style (depth + 1)) items others := by
        intro a ha b hb r s
        have hweight := weight_le_of_mem ha
        rw [PairFree, pairFreeItems_iff] at hv hw
        exact writeAt_append_inj hstyle (depth + 1) a b r s (hv a ha) (hw b hb)
      obtain ⟨rfl, hrest⟩ := array_append_inj hstyle hparts h
      exact ⟨rfl, hrest⟩
    | object others => exact absurd h (array_ne_object _ _)
    | null | bool b | int n | float x | string s =>
      exact absurd h.symm (leaf_ne_parts (by rw [isLeaf]) (by rw [isLeaf]))
  | .object fields, w, r, s, hv, hw, hr, hs, h => by
    cases w with
    | object others =>
      have hparts : TellApart (writeField style (depth + 1)) fields others := by
        intro f hf g hg r s hr hs heq
        have hweight := weight_le_of_mem_fields hf
        rw [PairFree, pairFreeFields_iff] at hv hw
        exact writeField_append_inj (hv f hf).1 (hw g hg).1
          (writeAt_append_inj hstyle (depth + 1) f.2 g.2 r s (hv f hf).2 (hw g hg).2 hr hs) heq
      obtain ⟨rfl, hrest⟩ := object_append_inj hstyle hparts h
      exact ⟨rfl, hrest⟩
    | array items => exact absurd h.symm (array_ne_object _ _)
    | null | bool b | int n | float x | string s =>
      exact absurd h.symm (leaf_ne_parts (by rw [isLeaf]) (by rw [isLeaf]))
  | .null, w, r, s, hv, hw, hr, hs, h => leaf_append_inj_any hstyle (by rw [isLeaf]) hv hw hr hs h
  | .bool b, w, r, s, hv, hw, hr, hs, h => leaf_append_inj_any hstyle (by rw [isLeaf]) hv hw hr hs h
  | .int n, w, r, s, hv, hw, hr, hs, h => leaf_append_inj_any hstyle (by rw [isLeaf]) hv hw hr hs h
  | .float x, w, r, s, hv, hw, hr, hs, h =>
    leaf_append_inj_any hstyle (by rw [isLeaf]) hv hw hr hs h
  | .string t, w, r, s, hv, hw, hr, hs, h =>
    leaf_append_inj_any hstyle (by rw [isLeaf]) hv hw hr hs h
termination_by v => weight v
decreasing_by
  · rw [weight]
    omega
  · rw [weight]
    omega

/-- **Values with the same text are the same.** -/
theorem write_injective {style : Style} (hstyle : style.Plain) {v w : Json} (hv : PairFree v)
    (hw : PairFree w) (h : write style v = write style w) : v = w := by
  have hsame : writeAt style 0 v ++ [] = writeAt style 0 w ++ [] := congrArg (· ++ []) h
  exact (writeAt_append_inj hstyle 0 v w [] [] hv hw rfl rfl hsame).1

end FlatCode.Json
