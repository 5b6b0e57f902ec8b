import FlatCode.Proofs.Program.BareWords
import FlatCode.Proofs.Json.Characters
import FlatCode.Proofs.Results

/-!
# Arguments on a line

The arguments of an instruction are written one by one, with a space between them, and are read
from the front of what is left. A value written as JSON is over where it ends, and so is a bare word
that no JSON value takes. A bare word is chosen by the string alone, though: a word that opens a
bracket may be taken by a JSON value together with the words behind it (`RunsOn`).

* `readFrom_joined_iff` — arguments are read back exactly if no bare word runs on
* `bracket_of_runsOn` — a bare word runs on only if it starts with a bracket or a brace
-/

namespace FlatCode.Arguments

open Json Text

/-! ## Texts in a row -/

/-- Texts with a space between any two. -/
def joined (texts : List Text) : Text := List.intercalate [.char ' '] texts

/-- Texts with a space in front of each. -/
def spaced (texts : List Text) : Text := texts.flatMap (.char ' ' :: ·)

theorem joined_cons (text : Text) (texts : List Text) :
    joined (text :: texts) = text ++ spaced texts := by
  unfold joined
  induction texts generalizing text with
  | nil => simp [spaced]
  | cons second texts ih =>
    rw [List.intercalate_cons_cons, ih, spaced, spaced, List.flatMap_cons]
    simp

theorem atBoundary_spaced (texts : List Text) : atBoundary (spaced texts) = true := by
  cases texts with
  | nil => rfl
  | cons text texts => rfl

/-- The space in front of the first text is skipped. -/
theorem readFrom_spaced (column : Nat) (texts : List Text) :
    ∃ next, readFrom column (spaced texts) = readFrom next (joined texts) := by
  cases texts with
  | nil => exact ⟨column, rfl⟩
  | cons text texts =>
    refine ⟨column + 1, ?_⟩
    rw [joined_cons, spaced, List.flatMap_cons, List.cons_append,
      readFrom_blank column (by decide)]
    rfl

/-! ## Words that run on -/

/-- Whether an argument is written as a bare word that a JSON value takes together with the texts of
the arguments behind it. -/
def RunsOn (arg : Json) (behind : List Json) : Prop :=
  ∃ word texts, arg = .string word ∧ IsBare word ∧ behind.mapM write = .ok texts ∧
    takesJson (joined (word :: texts)) = true

theorem runsOn_string_iff {word : Text} {behind : List Json} {texts : List Text}
    (h : behind.mapM write = .ok texts) :
    RunsOn (.string word) behind ↔
      IsBare word ∧ takesJson (joined (word :: texts)) = true := by
  constructor
  · rintro ⟨_, _, hword, hbare, htexts, htakes⟩
    cases hword
    rw [h] at htexts
    cases htexts
    exact ⟨hbare, htakes⟩
  · rintro ⟨hbare, htakes⟩
    exact ⟨word, texts, rfl, hbare, h, htakes⟩

instance (arg : Json) (behind : List Json) : Decidable (RunsOn arg behind) :=
  match arg, h : behind.mapM write with
  | .string _, .ok _ => decidable_of_iff' _ (runsOn_string_iff h)
  | .string _, .error _ => isFalse fun ⟨_, _, _, _, htexts, _⟩ => nomatch h.symm.trans htexts
  | .null, _ | .bool _, _ | .int _, _ | .float _, _ | .array _, _ | .object _, _ =>
    isFalse fun ⟨_, _, hword, _⟩ => nomatch hword

/-- Whether no argument runs on. -/
def KeepApart : List Json → Prop
  | [] => True
  | arg :: behind => ¬RunsOn arg behind ∧ KeepApart behind

instance decidableKeepApart : (args : List Json) → Decidable (KeepApart args)
  | [] => isTrue trivial
  | arg :: behind =>
    have := decidableKeepApart behind
    inferInstanceAs (Decidable (¬RunsOn arg behind ∧ KeepApart behind))

/-- **Only a word that opens a bracket runs on.** -/
theorem bracket_of_runsOn {arg : Json} {behind : List Json} (h : RunsOn arg behind) :
    ∃ word opening rest, arg = .string word ∧ word = opening :: rest ∧
      (opening = .char '[' ∨ opening = .char '{') := by
  obtain ⟨word, texts, rfl, ⟨hlooks, hbare⟩, -, htakes⟩ := h
  obtain ⟨c, rest, heq, hquote, -⟩ := exists_start_of_looksBare hlooks
  refine ⟨word, c, rest, rfl, heq, ?_⟩
  by_cases harray : c = .char '['
  · exact .inl harray
  by_cases hobject : c = .char '{'
  · exact .inr hobject
  -- any other word is judged by itself, and by itself it is bare
  rw [joined_cons, heq, takesJson_append hquote harray hobject (atBoundary_spaced texts), ← heq,
    hbare] at htakes
  cases htakes

/-- Arguments keep apart if no string among them starts with a bracket or a brace. -/
theorem keepApart_of_no_bracket {args : List Json}
    (h : ∀ word, .string word ∈ args →
      word.head? ≠ some (.char '[') ∧ word.head? ≠ some (.char '{')) : KeepApart args := by
  induction args with
  | nil => trivial
  | cons arg behind ih =>
    refine ⟨fun hruns => ?_, ih fun word hword => h word (List.mem_cons_of_mem _ hword)⟩
    obtain ⟨word, opening, rest, rfl, heq, hopening⟩ := bracket_of_runsOn hruns
    obtain ⟨harray, hobject⟩ := h word List.mem_cons_self
    rw [heq] at harray hobject
    rcases hopening with rfl | rfl
    · exact harray rfl
    · exact hobject rfl

/-! ## Reading back -/

/-- An argument that is read as itself, then those behind it. -/
theorem readFrom_joined_cons {column : Nat} {c : CodePoint} {text rest : Text} {arg : Json}
    {texts : List Text} (htext : text = c :: rest) (hc : isBlank c = false)
    (h : readArgument column (joined (text :: texts)) = .ok (arg, spaced texts)) :
    ∃ next, readFrom column (joined (text :: texts))
      = (readFrom next (joined texts)).map (arg :: ·) := by
  rw [joined_cons, htext, List.cons_append] at h ⊢
  obtain ⟨next, hfrom⟩ := readFrom_cons hc h
  obtain ⟨column', hspaced⟩ := readFrom_spaced next texts
  exact ⟨column', by rw [hfrom, hspaced]⟩

theorem readArgument_json (column : Nat) {arg : Json} (h : Regular arg)
    (texts : List Text) :
    readArgument column (joined (Text.ofChars (Json.write .compact arg) :: texts))
      = .ok (arg, spaced texts) := by
  have hrest := atBoundary_spaced texts
  rw [joined_cons]
  exact readArgument_of_readValue
    (readValue_write Style.compact_plain h (endsNumber_of_atBoundary hrest)) hrest

/-- **Arguments are read back exactly if none of them runs on.** -/
theorem readFrom_joined_iff {args : List Json} {texts : List Text} (column : Nat)
    (h : args.mapM write = .ok texts) (hregular : ∀ arg ∈ args, NotBare arg → Regular arg) :
    readFrom column (joined texts) = .ok args ↔ KeepApart args := by
  induction args generalizing column texts with
  | nil =>
    cases h
    simp [joined, readFrom_nil, KeepApart]
  | cons arg behind ih =>
    obtain ⟨text, texts, hwrite, hbehind, rfl⟩ := mapM_cons_eq_ok.mp h
    -- an argument that is read as itself leaves the question to those behind it
    have hstep : ∀ {c : CodePoint} {rest : Text}, text = c :: rest → isBlank c = false →
        readArgument column (joined (text :: texts)) = .ok (arg, spaced texts) →
        ¬RunsOn arg behind →
        (readFrom column (joined (text :: texts)) = .ok (arg :: behind) ↔
          KeepApart (arg :: behind)) := by
      intro c rest htext hc hread hnot
      obtain ⟨next, hfrom⟩ := readFrom_joined_cons htext hc hread
      rw [hfrom, map_cons_eq_ok, ih next hbehind fun a ha => hregular a (List.mem_cons_of_mem _ ha)]
      exact ⟨fun hapart => ⟨hnot, hapart⟩, And.right⟩
    rcases write_cases hwrite with ⟨_, rfl, hbare, rfl⟩ | ⟨rfl, hnot⟩
    · obtain ⟨c, rest, heq, hquote, hblank⟩ := exists_start_of_looksBare hbare.1
      have hc := hblank c (by simp [heq])
      cases htakes : takesJson (joined (text :: texts)) with
      | false =>
        refine hstep heq hc ?_ ?_
        · rw [joined_cons] at htakes ⊢
          exact readArgument_bare column hbare.1 (atBoundary_spaced texts) htakes
        · rw [runsOn_string_iff hbehind, htakes]
          rintro ⟨-, hfalse⟩
          cases hfalse
      | true =>
        refine ⟨fun hread => ?_, fun hapart => ?_⟩
        · rw [joined_cons, heq, List.cons_append] at htakes hread
          obtain ⟨value, others, hvalues, hne⟩ :=
            exists_first_of_takesJson hquote hc htakes hread
          exact absurd (List.cons.inj hvalues).1.symm (hne _)
        · exact absurd ((runsOn_string_iff hbehind).mpr ⟨hbare, htakes⟩) hapart.1
    · have harg := hregular arg List.mem_cons_self hnot
      obtain ⟨c, rest, heq, hc⟩ := startsVisibly_write Style.compact_plain harg
      refine hstep heq hc (readArgument_json column harg texts) ?_
      rintro ⟨word, _, hword, hbare, -, -⟩
      exact hnot word hword hbare

end FlatCode.Arguments
