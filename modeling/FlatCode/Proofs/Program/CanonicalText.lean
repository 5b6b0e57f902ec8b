import FlatCode.Program.Digest
import FlatCode.Proofs.Json.Characters
import FlatCode.Proofs.Json.KeyOrder

/-!
# The canonical text tells the program

The text that the digest of a program is taken of tells the names of the operations and the
arguments, up to the order of fields inside the arguments, and nothing else. One thing it does not
tell: whether a string has a character above `U+FFFF` or the two halves of its pair side by side.
The text is ASCII, so its bytes tell the text.

* `Instruction.rearranged_toJson_iff` — what the document of an instruction tells
* `canonicalText_tells` — what the text tells
* `canonicalText_paired` — what it does not tell
* `canonicalText_inj_bytes` — the bytes tell the text
-/

namespace FlatCode

open Json

/-! ## Instructions -/

theorem Instruction.distinctKeys_toJson {instr : Instruction}
    (h : DistinctKeysItems instr.args) : DistinctKeys instr.toJson := by
  simpa [toJson, DistinctKeys, DistinctKeysFields] using h

/-- **The document of an instruction tells its name and its arguments**, up to the order of
fields. -/
theorem Instruction.rearranged_toJson_iff {a b : Instruction} :
    Rearranged a.toJson b.toJson ↔ a.name = b.name ∧ RearrangedItems a.args b.args := by
  constructor
  · intro h
    unfold toJson at h
    cases h with
    | object hperm hfields =>
      -- the fields are the name and the arguments in one order or the other
      cases hfields with
      | cons hname hrest =>
        cases hrest with
        | cons hargs hrest =>
          cases hrest
          cases hname
          cases hargs with
          | @array items _ hargs =>
            have hop := hperm.mem_iff.mpr
              (List.mem_cons_self (a := (Text.ofString "op", Json.string b.name)))
            have hitems := hperm.mem_iff.mpr
              (List.mem_cons_of_mem _
                (List.mem_singleton_self (Text.ofString "args", Json.array items)))
            simp only [List.mem_cons, Prod.mk.injEq, true_and, and_false, or_false, false_or,
              List.not_mem_nil, reduceCtorEq, Json.string.injEq, Json.array.injEq,
              Text.ofString_inj, (by decide : "op" ≠ "args"), (by decide : "args" ≠ "op")]
              at hop hitems
            exact ⟨hop.symm, hitems ▸ hargs⟩
  · rintro ⟨hname, hargs⟩
    unfold toJson
    rw [hname]
    exact .object (.refl _) (.cons (.string _) (.cons (.array hargs) .nil))

theorem Instruction.pairFree_toJson {instr : Instruction} (hname : Unpaired instr.name)
    (hargs : PairFreeItems instr.args) : PairFree instr.toJson := by
  unfold toJson
  simp only [PairFree, PairFreeFields]
  exact ⟨unpaired_ofString _, hname, unpaired_ofString _, hargs, trivial⟩

/-! ## Programs -/

namespace Program

/-- Whether two programs have as many instructions, with the same names, and with arguments that
are the same values up to the order of fields. -/
def Same (p q : Program) : Prop :=
  p.size = q.size ∧ ∀ (n : Nat) (a b : Instruction),
    p.instructions[n]? = some a → q.instructions[n]? = some b →
      a.name = b.name ∧ RearrangedItems a.args b.args

/-- Whether in no name, string or key of a program stand the halves of a pair side by side. -/
def PairFree (p : Program) : Prop :=
  ∀ instr ∈ p.instructions, Unpaired instr.name ∧ PairFreeItems instr.args

theorem rearranged_instructionsJson_iff {p q : Program} :
    Rearranged p.instructionsJson q.instructionsJson ↔ p.Same q := by
  rw [instructionsJson, instructionsJson]
  constructor
  · intro h
    cases h with
    | array hitems =>
      obtain ⟨hlength, hplaces⟩ := rearrangedItems_iff.mp hitems
      refine ⟨by simpa [size] using hlength, fun n a b ha hb => ?_⟩
      exact Instruction.rearranged_toJson_iff.mp (hplaces n _ _ (by simp [ha]) (by simp [hb]))
  · rintro ⟨hsize, hplaces⟩
    refine .array (rearrangedItems_iff.mpr
      ⟨by simpa [size] using hsize, fun n x y hx hy => ?_⟩)
    rw [List.getElem?_map, Option.map_eq_some_iff] at hx hy
    obtain ⟨a, ha, rfl⟩ := hx
    obtain ⟨b, hb, rfl⟩ := hy
    exact Instruction.rearranged_toJson_iff.mpr (hplaces n a b ha hb)

theorem PairFree.instructionsJson {p : Program} (h : p.PairFree) :
    Json.PairFree p.instructionsJson := by
  rw [Program.instructionsJson, Json.PairFree, pairFreeItems_iff, List.forall_mem_map]
  exact fun instr hinstr => Instruction.pairFree_toJson (h instr hinstr).1 (h instr hinstr).2

/-- **The canonical text tells the program.** Programs that are the same up to the order of fields
have one text, and programs of one text are the same up to the order of fields, if the halves of a
pair stand side by side in neither. -/
theorem canonicalText_tells {p q : Program}
    (hkeys : ∀ instr ∈ p.instructions, ∀ arg ∈ instr.args, DistinctKeys arg) :
    (p.Same q → p.canonicalText = q.canonicalText) ∧
      (p.PairFree → q.PairFree → p.canonicalText = q.canonicalText → p.Same q) := by
  rw [← rearranged_instructionsJson_iff]
  refine ⟨fun h => h.write_canonical_eq ?_, fun hp hq =>
    rearranged_of_write_canonical_eq hp.instructionsJson hq.instructionsJson⟩
  rw [Program.instructionsJson, DistinctKeys, distinctKeysItems_iff, List.forall_mem_map]
  exact fun instr hinstr =>
    Instruction.distinctKeys_toJson (distinctKeysItems_iff.mpr (hkeys instr hinstr))

/-- Two calls of one object that differ in the order of fields, at two depths. -/
def reorderedCalls : Program × Program :=
  let inside : Json := .object [("x", .int 1), ("y", .null)]
  let inside' : Json := .object [("y", .null), ("x", .int 1)]
  (⟨[⟨.ofSimple "CreateObject", [.object [("b", .array [inside]), ("a", .bool true)]]⟩]⟩,
    ⟨[⟨.ofSimple "CreateObject", [.object [("a", .bool true), ("b", .array [inside'])]]⟩]⟩)

/-- The texts of both calls are the same, but not with a double for the integer. -/
theorem canonicalText_reordered :
    reorderedCalls.1.canonicalText = reorderedCalls.2.canonicalText ∧
      Program.canonicalText ⟨[⟨.ofSimple "LoadInteger", [.int 1]⟩]⟩
        ≠ Program.canonicalText ⟨[⟨.ofSimple "LoadInteger", [.float (.ofDecimal false 1 0)]⟩]⟩ := by
  constructor
  · have hinside : RearrangedItems [.object [("x", .int 1), ("y", .null)]]
        [.object [("y", .null), ("x", .int 1)]] :=
      .cons (.object (.swap _ _ _) (.cons .null (.cons (.int 1) .nil))) .nil
    refine (canonicalText_tells ?_).1 ⟨rfl, fun n a b ha hb => ?_⟩
    · simp [reorderedCalls, DistinctKeys, DistinctKeysItems, DistinctKeysFields]
    · cases n with
      | zero =>
        obtain rfl := Option.some.inj ha
        obtain rfl := Option.some.inj hb
        exact ⟨rfl, .cons (.object (.swap _ _ _) (.cons (.bool true) (.cons (.array hinside) .nil)))
          .nil⟩
      | succ n => cases ha
  · intro htext
    have hfree (value : Json) (h : Json.PairFree value) :
        PairFree ⟨[⟨.ofSimple "LoadInteger", [value]⟩]⟩ :=
      List.forall_mem_singleton.mpr ⟨unpaired_ofString _, h, trivial⟩
    obtain ⟨-, h⟩ := (canonicalText_tells (by simp [DistinctKeys])).2
      (hfree (.int 1) trivial) (hfree (.float (.ofDecimal false 1 0)) trivial) htext
    have hargs := (h 0 _ _ rfl rfl).2
    cases hargs with
    | cons hvalue hrest => cases hvalue

/-- Two calls that differ in their strings: a character above `U+FFFF`, and the two halves of its
pair. -/
def pairedCalls : Program × Program :=
  (⟨[⟨.ofSimple "LoadString", [.string [.char (Char.ofNat 0x1F600)]]⟩]⟩,
    ⟨[⟨.ofSimple "LoadString",
      [.string [.surrogate ⟨0x3d, by decide⟩, .surrogate ⟨0x600, by decide⟩]]⟩]⟩)

/-- **Not every two programs are told apart**: the halves of a pair side by side are written as the
character that they stand for is. -/
theorem canonicalText_paired :
    pairedCalls.1.canonicalText = pairedCalls.2.canonicalText ∧
      ¬pairedCalls.1.Same pairedCalls.2 := by
  constructor
  · have hstring : writeString [.char (Char.ofNat 0x1F600)]
        = writeString [.surrogate ⟨0x3d, by decide⟩, .surrogate ⟨0x600, by decide⟩] := by decide
    simp only [pairedCalls, canonicalText, instructionsJson, List.map, Instruction.toJson, write,
      writeAt, writeItems, writeFields, hstring]
    rfl
  · rintro ⟨-, h⟩
    have hargs := (h 0 _ _ rfl rfl).2
    cases hargs with
    | cons hvalue hrest => cases hvalue

end Program

/-! ## Bytes -/

/-- **The bytes of the canonical text tell the text**: each byte is one character. -/
theorem canonicalText_inj_bytes {p q : Program}
    (h : (p.canonicalText.map fun c => UInt8.ofNat c.toNat)
      = q.canonicalText.map fun c => UInt8.ofNat c.toNat) : p.canonicalText = q.canonicalText := by
  have hback : ∀ p : Program, (p.canonicalText.map fun c => UInt8.ofNat c.toNat).map
      (fun byte => Char.ofNat byte.toNat) = p.canonicalText := by
    intro p
    rw [List.map_map]
    conv => rhs; rw [← List.map_id p.canonicalText]
    refine List.map_congr_left fun c hc => ?_
    have hprintable := printable_of_mem_write Style.canonical_oneLine p.instructionsJson c hc
    have hbyte : (UInt8.ofNat c.toNat).toNat = c.toNat := by
      rw [UInt8.toNat_ofNat']
      exact Nat.mod_eq_of_lt (Nat.lt_of_le_of_lt hprintable.2 (by decide))
    rw [Function.comp_apply, hbyte, Char.ofNat_toNat, id]
  rw [← hback p, h, hback q]

end FlatCode
