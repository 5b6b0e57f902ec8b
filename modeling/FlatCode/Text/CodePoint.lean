/-!
# Code points

A text is a list of code points. Most of them are characters; the others are the surrogates, the
halves of a pair of code units, which stand for no character by themselves but may be in a text.
A literal text has characters only.
-/

namespace FlatCode

/-- A code point: a character, or one of the surrogates from `U+D800` to `U+DFFF`. -/
inductive CodePoint where
  | char (c : Char)
  | surrogate (n : Fin 0x800)
  deriving DecidableEq, Repr

/-- A text. -/
abbrev Text := List CodePoint

/-- The text of characters. -/
def Text.ofChars (s : List Char) : Text := s.map .char

/-- The text of a string of characters. -/
def Text.ofString (s : String) : Text := Text.ofChars s.toList

instance : Coe String Text := ⟨Text.ofString⟩

/-- The number of a code point. -/
def CodePoint.toNat : CodePoint → Nat
  | .char c => c.toNat
  | .surrogate n => 0xD800 + n

@[simp] theorem CodePoint.toNat_char (c : Char) : (CodePoint.char c).toNat = c.toNat := rfl

/-- No character has the number of a surrogate. -/
theorem CodePoint.toNat_inj {a b : CodePoint} : a.toNat = b.toNat ↔ a = b := by
  refine ⟨fun h => ?_, congrArg _⟩
  have hvalid : ∀ c : Char, c.toNat < 0xD800 ∨ 0xDFFF < c.toNat ∧ c.toNat < 0x110000 :=
    fun c => c.valid
  cases a with
  | char c =>
    cases b with
    | char d => exact congrArg _ (Char.toNat_inj.mp h)
    | surrogate n =>
      have hc := hvalid c
      simp only [toNat] at h
      omega
  | surrogate m =>
    cases b with
    | char d =>
      have hd := hvalid d
      simp only [toNat] at h
      omega
    | surrogate n => exact congrArg _ (Fin.ext (Nat.add_left_cancel h))

namespace Text

@[simp] theorem ofChars_nil : ofChars [] = [] := rfl

@[simp] theorem ofChars_cons (c : Char) (s : List Char) :
    ofChars (c :: s) = .char c :: ofChars s := rfl

@[simp] theorem ofChars_append (s t : List Char) : ofChars (s ++ t) = ofChars s ++ ofChars t :=
  List.map_append

@[simp] theorem length_ofChars (s : List Char) : (ofChars s).length = s.length := List.length_map ..

theorem mem_ofChars {c : CodePoint} {s : List Char} : c ∈ ofChars s ↔ ∃ d ∈ s, .char d = c :=
  List.mem_map

@[simp] theorem ofChars_inj {s t : List Char} : ofChars s = ofChars t ↔ s = t :=
  List.map_inj_right fun _ _ h => CodePoint.char.inj h

@[simp] theorem ofString_inj {s t : String} : ofString s = ofString t ↔ s = t := by
  rw [ofString, ofString, ofChars_inj, String.toList_inj]

/-! ## The order of texts -/

/-- Whether a text comes no later than another, by the numbers of its code points. -/
def le : Text → Text → Bool
  | [], _ => true
  | _ :: _, [] => false
  | a :: s, b :: t => a.toNat < b.toNat || (a.toNat == b.toNat && le s t)

theorem cons_le_cons {a b : CodePoint} {s t : Text} :
    le (a :: s) (b :: t) = true ↔ a.toNat < b.toNat ∨ a.toNat = b.toNat ∧ le s t = true := by
  simp [le]

theorem le_total (s t : Text) : le s t = true ∨ le t s = true := by
  induction s generalizing t with
  | nil => exact .inl rfl
  | cons a s ih =>
    cases t with
    | nil => exact .inr rfl
    | cons b t =>
      rw [cons_le_cons, cons_le_cons]
      obtain hlt | heq | hgt := Nat.lt_trichotomy a.toNat b.toNat
      · exact .inl (.inl hlt)
      · exact (ih t).imp (fun h => .inr ⟨heq, h⟩) fun h => .inr ⟨heq.symm, h⟩
      · exact .inr (.inl hgt)

theorem le_trans {s t u : Text} (hst : le s t = true) (htu : le t u = true) :
    le s u = true := by
  induction s generalizing t u with
  | nil => rfl
  | cons a s ih =>
    cases t with
    | nil => cases hst
    | cons b t =>
      cases u with
      | nil => cases htu
      | cons c u =>
        rw [cons_le_cons] at hst htu ⊢
        obtain hab | ⟨hab, hst⟩ := hst
        · exact .inl (by omega)
        · exact htu.imp (by omega) fun ⟨hbc, htu⟩ => ⟨hab.trans hbc, ih hst htu⟩

/-- Code points are told by their numbers, so texts that are level in the order are the same. -/
theorem le_antisymm {s t : Text} (hst : le s t = true) (hts : le t s = true) : s = t := by
  induction s generalizing t with
  | nil =>
    cases t with
    | nil => rfl
    | cons b t => cases hts
  | cons a s ih =>
    cases t with
    | nil => cases hst
    | cons b t =>
      rw [cons_le_cons] at hst hts
      have hfirst : a = b := CodePoint.toNat_inj.mp (by omega)
      rw [hfirst, ih (hst.resolve_left (by omega)).2 (hts.resolve_left (by omega)).2]

end Text

end FlatCode
