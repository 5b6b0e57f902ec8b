import FlatCode.Reduction.Attempt

/-!
# Removing instructions

An attempt asks about the program without the listed instructions (`Program.clear`); of these it
exchanges only the ones that still do something, so what has been removed stays as it is. One
program comes from another by removals (`Thinned`) if every instruction is either kept, or was live
and is removed.

* `Program.nopAll_eq_ok_iff` — edits succeed if each has its instruction
* `Program.clear_of_nopAll` — the candidate of an attempt is the program without what is listed
* `Thinned.trans` — what is removed never comes back
-/

namespace FlatCode

namespace Program

variable {program : Program} {indices : List Int}

theorem ext_instructions {p q : Program}
    (h : ∀ n : Nat, p.instructions[n]? = q.instructions[n]?) : p = q := by
  cases p
  cases q
  exact congrArg Program.mk (List.ext_getElem? h)

/-- Whether the indices are those of instructions of the program. -/
def HasIndices (program : Program) (indices : List Int) : Prop :=
  ∀ idx ∈ indices, 0 ≤ idx ∧ idx < program.size

/-! ## Several edits -/

/-- The program without the instructions at the listed indices. -/
def without (program : Program) (indices : List Int) : Program :=
  ⟨program.instructions.mapIdx fun n instr => if (n : Int) ∈ indices then .nop else instr⟩

theorem instructions_without (program : Program) (indices : List Int) (n : Nat) :
    (program.without indices).instructions[n]?
      = program.instructions[n]?.map fun instr => if (n : Int) ∈ indices then .nop else instr :=
  List.getElem?_mapIdx

@[simp] theorem size_without (program : Program) (indices : List Int) :
    (program.without indices).size = program.size :=
  List.length_mapIdx

@[simp] theorem without_nil (program : Program) : program.without [] = program := by
  refine ext_instructions fun n => ?_
  simp [instructions_without]

@[simp] theorem size_set (program : Program) (n : Nat) (instr : Instruction) :
    (program.set n instr).size = program.size :=
  List.length_set

theorem without_set {idx : Int} (hidx : 0 ≤ idx) (rest : List Int) :
    (program.set idx.toNat .nop).without rest = program.without (idx :: rest) := by
  obtain ⟨k, rfl⟩ := Int.eq_ofNat_of_zero_le hidx
  refine ext_instructions fun n => ?_
  rw [instructions_without, instructions_without, set, Int.toNat_natCast, List.getElem?_set]
  by_cases heq : k = n
  · subst heq
    by_cases hlt : k < program.instructions.length
    · simp [hlt]
    · simp [hlt]
  · have hne : ¬(n : Int) = k := fun h => heq (Int.ofNat.inj h).symm
    simp [heq, hne]

theorem nop_eq_ok_iff {idx : Int} {q : Program} : program.nop idx = .ok q ↔
    (0 ≤ idx ∧ idx < program.size) ∧ program.set idx.toNat .nop = q := by
  unfold nop replace
  by_cases hrange : 0 ≤ idx ∧ idx < program.size
  · simp [hrange]
  · simp [hrange]

/-- **Several edits succeed if each has its instruction.** -/
theorem nopAll_eq_ok_iff {q : Program} : program.nopAll indices = .ok q ↔
    program.HasIndices indices ∧ program.without indices = q := by
  induction indices generalizing program with
  | nil =>
    rw [without_nil]
    simp [nopAll, HasIndices, pure, Except.pure]
  | cons idx rest ih =>
    have hsplit : program.nopAll (idx :: rest) = .ok q ↔
        ∃ p, program.nop idx = .ok p ∧ p.nopAll rest = .ok q := by
      unfold nopAll
      rw [List.foldlM_cons]
      cases program.nop idx with
      | error e => simp [bind, Except.bind]
      | ok p => simp [bind, Except.bind]
    rw [hsplit]
    constructor
    · rintro ⟨p, hnop, hrest⟩
      obtain ⟨hrange, rfl⟩ := nop_eq_ok_iff.mp hnop
      obtain ⟨hindices, rfl⟩ := ih.mp hrest
      refine ⟨List.forall_mem_cons.mpr ⟨hrange, ?_⟩, (without_set hrange.1 rest).symm⟩
      simpa [HasIndices] using hindices
    · rintro ⟨hindices, rfl⟩
      obtain ⟨hrange, hrest⟩ := List.forall_mem_cons.mp hindices
      refine ⟨_, nop_eq_ok_iff.mpr ⟨hrange, rfl⟩, ih.mpr ⟨?_, without_set hrange.1 rest⟩⟩
      simpa [HasIndices] using hrest

/-! ## The candidate of an attempt -/

/-- Whether the instruction at an index still does something. -/
def isLive (program : Program) (idx : Int) : Bool :=
  (program.at? idx).any fun instr => !instr.isNop

theorem isLive_natCast_iff {n : Nat} : program.isLive n = true ↔
    ∃ instr, program.instructions[n]? = some instr ∧ instr.isNop = false := by
  rw [isLive, at?_natCast, Option.any_eq_true]
  simp

/-- The program without the instructions at the listed indices that still do something. -/
def clear (program : Program) (indices : List Int) : Program :=
  program.without (indices.filter program.isLive)

theorem instructions_clear (program : Program) (indices : List Int) (n : Nat) :
    (program.clear indices).instructions[n]? = program.instructions[n]?.map fun instr =>
      if (n : Int) ∈ indices ∧ instr.isNop = false then .nop else instr := by
  rw [clear, instructions_without]
  cases hinstr : program.instructions[n]? with
  | none => rfl
  | some instr =>
    have hlive : program.isLive n = !instr.isNop := by
      rw [isLive, at?_natCast, hinstr]
      rfl
    simp [List.mem_filter, hlive]

/-- What stands in the place of an instruction once some are removed. -/
theorem instruction_clear {n : Nat} {instr : Instruction}
    (h : program.instructions[n]? = some instr) : (program.clear indices).instructions[n]?
      = some (if (n : Int) ∈ indices ∧ instr.isNop = false then .nop else instr) := by
  rw [instructions_clear, h]
  rfl

@[simp] theorem size_clear (program : Program) (indices : List Int) :
    (program.clear indices).size = program.size :=
  size_without program _

theorem hasIndices_singleton {n : Nat} (hn : n < program.size) :
    program.HasIndices [(n : Int)] := by
  intro idx hidx
  rw [List.mem_singleton.mp hidx]
  omega

/-- Of the listed indices those remain whose instructions are live. -/
theorem remaining?_eq_some {targets : List Int} (h : program.remaining? indices = some targets) :
    targets = indices.filter program.isLive := by
  induction indices generalizing targets with
  | nil =>
    cases h
    rfl
  | cons idx rest ih =>
    rw [remaining?] at h
    cases hinstr : program.at? idx with
    | none =>
      rw [hinstr] at h
      cases h
    | some instr =>
      rw [hinstr] at h
      obtain ⟨later, hlater, rfl⟩ := Option.map_eq_some_iff.mp h
      rw [List.filter_cons, ← ih hlater, isLive, hinstr]
      cases hnop : instr.isNop with
      | true => simp [hnop]
      | false => simp [hnop]

theorem remaining?_eq_none_iff : program.remaining? indices = none ↔
    ∃ idx ∈ indices, program.at? idx = none := by
  induction indices with
  | nil => simp [remaining?]
  | cons idx rest ih =>
    rw [remaining?]
    cases hinstr : program.at? idx with
    | none => simp [hinstr]
    | some instr => simp [hinstr, ih]

/-- If every index selects an instruction, the live ones remain. -/
theorem remaining?_of_selects (h : ∀ idx ∈ indices, program.at? idx ≠ none) :
    program.remaining? indices = some (indices.filter program.isLive) := by
  cases hremaining : program.remaining? indices with
  | none =>
    obtain ⟨idx, hidx, hnone⟩ := remaining?_eq_none_iff.mp hremaining
    exact absurd hnone (h idx hidx)
  | some targets => rw [remaining?_eq_some hremaining]

theorem exists_remaining? (h : program.HasIndices indices) :
    program.remaining? indices = some (indices.filter program.isLive) := by
  refine remaining?_of_selects fun idx hidx => ?_
  obtain ⟨hnonneg, hlt⟩ := h idx hidx
  obtain ⟨n, rfl⟩ := Int.eq_ofNat_of_zero_le hnonneg
  rw [at?_natCast, List.getElem?_eq_getElem (Int.ofNat_lt.mp hlt)]
  nofun

/-- **The candidate of an attempt is the program without what is listed.** -/
theorem clear_of_nopAll {targets : List Int} {candidate : Program}
    (htargets : program.remaining? indices = some targets)
    (h : program.nopAll targets = .ok candidate) : candidate = program.clear indices := by
  obtain ⟨-, rfl⟩ := nopAll_eq_ok_iff.mp h
  rw [clear, remaining?_eq_some htargets]

/-- Indices of instructions of the program are never refused. -/
theorem nopAll_filter_isLive (h : program.HasIndices indices) :
    program.nopAll (indices.filter program.isLive) = .ok (program.clear indices) :=
  nopAll_eq_ok_iff.mpr ⟨fun idx hidx => h idx (List.mem_filter.mp hidx).1, rfl⟩

/-- Programs without the same live instructions are the same. -/
theorem clear_congr {indices' : List Int}
    (h : ∀ (n : Nat) (instr : Instruction), program.instructions[n]? = some instr →
      instr.isNop = false → ((n : Int) ∈ indices ↔ (n : Int) ∈ indices')) :
    program.clear indices = program.clear indices' := by
  refine ext_instructions fun n => ?_
  rw [instructions_clear, instructions_clear]
  cases hinstr : program.instructions[n]? with
  | none => rfl
  | some instr =>
    cases hnop : instr.isNop with
    | true => simp [hnop]
    | false => simp [hnop, h n instr hinstr hnop]

@[simp] theorem clear_nil (program : Program) : program.clear [] = program := by
  refine ext_instructions fun n => ?_
  simp [instructions_clear]

theorem clear_of_idle (h : indices.filter program.isLive = []) :
    program.clear indices = program := by
  have hnone := clear_nil program
  rw [clear, List.filter_nil] at hnone
  rw [clear, h, hnone]

/-- What is live behind a removal was there, and is not listed. -/
theorem of_live_clear {n : Nat} {instr : Instruction}
    (h : (program.clear indices).instructions[n]? = some instr) (hlive : instr.isNop = false) :
    program.instructions[n]? = some instr ∧ (n : Int) ∉ indices := by
  rw [instructions_clear] at h
  obtain ⟨before, hbefore, hafter⟩ := Option.map_eq_some_iff.mp h
  by_cases hremoved : (n : Int) ∈ indices ∧ before.isNop = false
  · rw [if_pos hremoved] at hafter
    subst hafter
    cases hlive
  · rw [if_neg hremoved] at hafter
    subst hafter
    exact ⟨hbefore, fun hmem => hremoved ⟨hmem, hlive⟩⟩

/-- Removing in two steps is removing at once. -/
theorem clear_clear (program : Program) (first second : List Int) :
    (program.clear first).clear second = program.clear (first ++ second) := by
  refine ext_instructions fun n => ?_
  rw [instructions_clear, instructions_clear, instructions_clear, Option.map_map]
  congr 1
  funext instr
  have hnop : Instruction.nop.isNop = true := rfl
  by_cases hlive : instr.isNop = false
  · by_cases hfirst : (n : Int) ∈ first
    · simp [hfirst, hlive, hnop]
    · simp [hfirst, hlive]
  · simp [hlive]

theorem clear_append_comm (program : Program) (first second : List Int) :
    program.clear (first ++ second) = program.clear (second ++ first) :=
  clear_congr fun _ _ _ _ => by rw [List.mem_append, List.mem_append, or_comm]

end Program

/-! ## Thinned programs -/

/-- Whether a program comes from another by removing live instructions. -/
structure Thinned (p q : Program) : Prop where
  size : q.size = p.size
  kept_or_removed : ∀ (n : Nat) (instr : Instruction), p.instructions[n]? = some instr →
    q.instructions[n]? = some instr ∨
      (instr.isNop = false ∧ q.instructions[n]? = some .nop)

theorem Thinned.refl (p : Program) : Thinned p p := ⟨rfl, fun _ _ h => .inl h⟩

/-- What is removed never comes back. -/
theorem Thinned.trans {p q r : Program} (h : Thinned p q) (h' : Thinned q r) : Thinned p r := by
  refine ⟨h'.size.trans h.size, fun n instr hinstr => ?_⟩
  rcases h.kept_or_removed n instr hinstr with hkept | ⟨hlive, hremoved⟩
  · exact h'.kept_or_removed n instr hkept
  · rcases h'.kept_or_removed n .nop hremoved with hstays | ⟨hnop, -⟩
    · exact .inr ⟨hlive, hstays⟩
    · cases hnop

theorem thinned_clear (program : Program) (indices : List Int) :
    Thinned program (program.clear indices) := by
  refine ⟨Program.size_clear program indices, fun n instr hinstr => ?_⟩
  rw [Program.instructions_clear, hinstr, Option.map_some]
  by_cases hremoved : (n : Int) ∈ indices ∧ instr.isNop = false
  · rw [if_pos hremoved]
    exact .inr ⟨hremoved.2, rfl⟩
  · rw [if_neg hremoved]
    exact .inl rfl

theorem thinned_cons_iff {a b : Instruction} {as bs : List Instruction} :
    Thinned ⟨a :: as⟩ ⟨b :: bs⟩ ↔
      (b = a ∨ (a.isNop = false ∧ b = .nop)) ∧ Thinned ⟨as⟩ ⟨bs⟩ := by
  constructor
  · intro h
    refine ⟨?_, Nat.succ.inj h.size, fun n instr hinstr => h.kept_or_removed (n + 1) instr hinstr⟩
    rcases h.kept_or_removed 0 a rfl with hkept | ⟨hlive, hremoved⟩
    · exact .inl (Option.some.inj hkept)
    · exact .inr ⟨hlive, Option.some.inj hremoved⟩
  · rintro ⟨hfirst, h⟩
    refine ⟨congrArg Nat.succ h.size, fun n instr hinstr => ?_⟩
    cases n with
    | zero =>
      cases hinstr
      rcases hfirst with rfl | ⟨hlive, rfl⟩
      · exact .inl rfl
      · exact .inr ⟨hlive, rfl⟩
    | succ n => exact h.kept_or_removed n instr hinstr

/-- **Of a kind that removed instructions are not of there are fewer, unless all are kept.** -/
theorem Thinned.countP {p q : Program} (h : Thinned p q) (keep : Instruction → Bool)
    (hnop : keep .nop = false) :
    q.instructions.countP keep ≤ p.instructions.countP keep ∧
      (p.instructions.countP keep ≤ q.instructions.countP keep ↔
        ∀ (n : Nat) (instr : Instruction), p.instructions[n]? = some instr → keep instr = true →
          q.instructions[n]? = some instr) := by
  rcases p with ⟨as⟩
  rcases q with ⟨bs⟩
  dsimp only
  induction as generalizing bs with
  | nil =>
    obtain rfl := List.eq_nil_of_length_eq_zero h.size
    simp
  | cons a as ih =>
    cases bs with
    | nil => cases h.size
    | cons b bs =>
      obtain ⟨hfirst, hrest⟩ := thinned_cons_iff.mp h
      obtain ⟨hle, hall⟩ := ih bs hrest
      have hsplit : (∀ (n : Nat) (instr : Instruction), (a :: as)[n]? = some instr →
          keep instr = true → (b :: bs)[n]? = some instr) ↔
          (keep a = true → b = a) ∧ as.countP keep ≤ bs.countP keep := by
        rw [hall]
        constructor
        · intro hkept
          exact ⟨fun hkeep => Option.some.inj (hkept 0 a rfl hkeep),
            fun n => hkept (n + 1)⟩
        · rintro ⟨hzero, hsucc⟩ n instr hinstr hkeep
          cases n with
          | zero =>
            cases hinstr
            exact congrArg some (hzero hkeep)
          | succ n => exact hsucc n instr hinstr hkeep
      rw [hsplit, List.countP_cons, List.countP_cons]
      rcases hfirst with rfl | ⟨hlive, rfl⟩
      · simp only [implies_true, true_and]
        omega
      · -- the first is removed, so it has to be of another kind
        have hne : Instruction.nop ≠ a := by
          rintro rfl
          cases hlive
        simp only [hnop, hne, imp_false, Bool.false_eq_true, if_false, Nat.add_zero]
        cases hkeep : keep a with
        | false =>
          simp only [Bool.false_eq_true, not_false_eq_true, true_and, if_false, Nat.add_zero]
          exact ⟨hle, trivial⟩
        | true =>
          simp only [not_true_eq_false, false_and, if_true, iff_false]
          omega

end FlatCode
