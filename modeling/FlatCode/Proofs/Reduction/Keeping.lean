import FlatCode.Proofs.Reduction.GroupPass

/-!
# Keeping operations

The oracle that keeps operations counts: a candidate has to have as many instructions of each name
as the program had at the start. As candidates come from the program by removals, it is accepted
exactly if no instruction of a name is removed.

* `keepsAll_iff` — counting instructions is keeping each of them
* `Keeper` — the oracle keeps what the program wants; removing anything else leaves it so
-/

namespace FlatCode

/-! ## Wanted instructions -/

/-- Whether an instruction that does something stands at a place and has one of some names. -/
def Program.wants (program : Program) (names : List Text) (n : Nat) : Bool :=
  program.instructions[n]?.any fun instr => !instr.isNop && names.contains instr.name

/-- Whether a program has all the wanted instructions of another one. -/
def Retains (names : List Text) (p q : Program) : Prop :=
  ∀ n, p.wants names n = true → q.instructions[n]? = p.instructions[n]?

section Wanted

variable {names : List Text} {program : Program} {indices : List Int}

theorem Program.wants_iff {n : Nat} : program.wants names n = true ↔ ∃ instr,
    program.instructions[n]? = some instr ∧ instr.isNop = false ∧ instr.name ∈ names := by
  rw [wants, Option.any_eq_true]
  simp

/-- Whether no wanted instruction is at one of the indices. -/
def spares (wants : Nat → Bool) (indices : List Int) : Bool :=
  indices.all fun idx => !wants idx.toNat

theorem spares_iff {wants : Nat → Bool} (hnonneg : ∀ idx ∈ indices, 0 ≤ idx) :
    spares wants indices = true ↔ ∀ n : Nat, (n : Int) ∈ indices → wants n = false := by
  rw [spares, List.all_eq_true]
  constructor
  · intro h n hn
    have hn' := h n hn
    rwa [Int.toNat_natCast, Bool.not_eq_true'] at hn'
  · intro h idx hidx
    obtain ⟨n, rfl⟩ := Int.eq_ofNat_of_zero_le (hnonneg idx hidx)
    rw [Int.toNat_natCast, h n hidx]
    rfl

/-- A program with removed instructions has the wanted ones if none of them was removed. -/
theorem retains_clear_iff : Retains names program (program.clear indices) ↔
    ∀ n : Nat, (n : Int) ∈ indices → program.wants names n = false := by
  constructor
  · intro h n hn
    rw [← Bool.not_eq_true]
    intro hwants
    obtain ⟨instr, hinstr, hlive, -⟩ := Program.wants_iff.mp hwants
    have hkept := h n hwants
    rw [Program.instructions_clear, hinstr, Option.map_some, if_pos ⟨hn, hlive⟩] at hkept
    cases hkept
    cases hlive
  · intro h n hwants
    rw [Program.instructions_clear]
    cases hinstr : program.instructions[n]? with
    | none => rfl
    | some instr =>
      have hout : (n : Int) ∉ indices := by
        intro hn
        rw [h n hn] at hwants
        cases hwants
      rw [Option.map_some, if_neg fun hand => hout hand.1]

/-- What is wanted stays the same if it is retained. -/
theorem Retains.wants_eq {p q : Program} (h : Retains names p q) (hthinned : Thinned p q) :
    q.wants names = p.wants names := by
  funext n
  rw [Bool.eq_iff_iff]
  constructor
  · intro hwants
    obtain ⟨instr, hinstr, hlive, hname⟩ := Program.wants_iff.mp hwants
    obtain ⟨hlt, -⟩ := List.getElem?_eq_some_iff.mp hinstr
    have hlt' : n < p.instructions.length := Nat.lt_of_lt_of_eq hlt hthinned.size
    rcases hthinned.kept_or_removed n _ (List.getElem?_eq_getElem hlt') with
      hkept | ⟨-, hremoved⟩
    · rw [hinstr] at hkept
      exact Program.wants_iff.mpr ⟨instr, by rw [List.getElem?_eq_getElem hlt', hkept],
        hlive, hname⟩
    · rw [hinstr] at hremoved
      cases hremoved
      cases hlive
  · intro hwants
    have hkept := h n hwants
    rw [Program.wants] at hwants ⊢
    rwa [hkept]

end Wanted

/-! ## The numbers that are required -/

section Required

variable {registry : Registry} {names : List Text} {p q : Program} {required : Oracle.Required}

theorem exists_required (h : ∀ name ∈ names, ∃ op, registry.lookup name = .ok op) :
    ∃ required, Oracle.required registry p names = .ok required := by
  induction names with
  | nil => exact ⟨[], rfl⟩
  | cons name names ih =>
    obtain ⟨⟨op, hop⟩, hnames⟩ := List.forall_mem_cons.mp h
    obtain ⟨rest, hrest⟩ := ih hnames
    rw [Oracle.required, hop, hrest]
    exact ⟨_, rfl⟩

/-- Of each name as many instructions are required as the program has. -/
theorem mem_required_iff (h : Oracle.required registry p names = .ok required)
    {entry : Text × Nat} :
    entry ∈ required ↔ entry.1 ∈ names ∧ entry.2 = p.count entry.1 := by
  induction names generalizing required with
  | nil =>
    cases h
    simp
  | cons name names ih =>
    rw [Oracle.required] at h
    cases hlookup : registry.lookup name with
    | error e =>
      rw [hlookup] at h
      cases h
    | ok op =>
      rw [hlookup] at h
      dsimp only at h
      cases hrest : Oracle.required registry p names with
      | error e =>
        rw [hrest] at h
        cases h
      | ok rest =>
        rw [hrest] at h
        cases h
        obtain rfl := Registry.name_of_lookup hlookup
        rw [List.mem_cons, List.mem_filter, ih hrest, bne_iff_ne, List.mem_cons]
        by_cases hname : entry.1 = op.name
        · rw [← hname]
          simp [Prod.ext_iff]
        · have hne : entry ≠ (op.name, p.count op.name) := fun heq => hname (congrArg Prod.fst heq)
          simp [hname, hne]

theorem Thinned.count_nop_le (h : Thinned p q) :
    p.count Operation.nop.name ≤ q.count Operation.nop.name := by
  have hp := List.length_eq_countP_add_countP Instruction.isNop (l := p.instructions)
  have hq := List.length_eq_countP_add_countP Instruction.isNop (l := q.instructions)
  have hlive := (h.countP (fun instr => !instr.isNop) rfl).1
  have hsize : q.instructions.length = p.instructions.length := h.size
  have hnot : (fun instr : Instruction => decide ¬instr.isNop = true)
      = fun instr => !instr.isNop := by
    funext instr
    cases instr.isNop <;> rfl
  rw [hnot] at hp hq
  change p.instructions.countP Instruction.isNop ≤ q.instructions.countP Instruction.isNop
  omega

/-- **Counting the instructions of some names is keeping each of them.** -/
theorem keepsAll_iff (h : Oracle.required registry p names = .ok required)
    (hthinned : Thinned p q) : Oracle.keepsAll required q = true ↔ Retains names p q := by
  have hcount : ∀ name, name ≠ Operation.nop.name → (p.count name ≤ q.count name ↔
      ∀ (n : Nat) (instr : Instruction), p.instructions[n]? = some instr →
        (instr.name == name) = true → q.instructions[n]? = some instr) := by
    intro name hname
    exact (hthinned.countP (fun instr => instr.name == name)
      (beq_eq_false_iff_ne.mpr hname.symm)).2
  unfold Oracle.keepsAll
  rw [List.all_eq_true]
  constructor
  · intro hall n hwants
    obtain ⟨instr, hinstr, hlive, hname⟩ := Program.wants_iff.mp hwants
    have hentry := hall (instr.name, p.count instr.name) ((mem_required_iff h).mpr ⟨hname, rfl⟩)
    have hne : instr.name ≠ Operation.nop.name := beq_eq_false_iff_ne.mp hlive
    rw [hinstr]
    exact (hcount _ hne).mp (of_decide_eq_true hentry) n instr hinstr (beq_self_eq_true _)
  · intro hretains entry hentry
    obtain ⟨hname, hnumber⟩ := (mem_required_iff h).mp hentry
    rw [hnumber, decide_eq_true_eq]
    by_cases hnop : entry.1 = Operation.nop.name
    · rw [hnop]
      exact hthinned.count_nop_le
    · refine (hcount _ hnop).mpr fun n instr hinstr heq => ?_
      have hsame := eq_of_beq heq
      have hwants : p.wants names n = true := by
        refine Program.wants_iff.mpr ⟨instr, hinstr, ?_, hsame ▸ hname⟩
        exact beq_eq_false_iff_ne.mpr (hsame ▸ hnop)
      rw [hretains n hwants, hinstr]

end Required

/-! ## Attempts -/

/-- Whether an oracle that requires some numbers keeps what a program wants. -/
def Keeper (names : List Text) (required : Oracle.Required) (program : Program) : Prop :=
  ∀ q, Thinned program q → (Oracle.keepsAll required q = true ↔ Retains names program q)

section Keeper

variable {σ ε : Type} {names : List Text} {required : Oracle.Required} {program : Program}
  {indices : List Int} {run : Run σ}

theorem leavesProgram_keeping (required : Oracle.Required) :
    (Oracle.keeping required : Oracle σ ε).LeavesProgram := fun _ _ _ => rfl

theorem not_wants_of_spares {wants : Nat → Bool} (h : spares wants indices = true) {n : Nat}
    (hn : (n : Int) ∈ indices) : wants n = false := by
  have hn' := List.all_eq_true.mp h n hn
  rwa [Int.toNat_natCast, Bool.not_eq_true'] at hn'

/-- What is live at spared indices has none of the names. -/
theorem not_mem_names_of_spares (h : spares (program.wants names) indices = true) {n : Nat}
    (hn : (n : Int) ∈ indices) {instr : Instruction}
    (hinstr : program.instructions[n]? = some instr) (hlive : instr.isNop = false) :
    instr.name ∉ names := by
  intro hname
  have hwants := not_wants_of_spares h hn
  rw [Program.wants_iff.mpr ⟨instr, hinstr, hlive, hname⟩] at hwants
  cases hwants

theorem wants_clear (h : spares (program.wants names) indices = true) :
    (program.clear indices).wants names = program.wants names :=
  (retains_clear_iff.mpr fun _ hn => not_wants_of_spares h hn).wants_eq
    (thinned_clear program indices)

/-- **Removing nothing that is wanted leaves the oracle a keeper.** -/
theorem Keeper.clear (h : Keeper names required program)
    (hspares : spares (program.wants names) indices = true) :
    Keeper names required (program.clear indices) := by
  have hretains : Retains names program (program.clear indices) :=
    retains_clear_iff.mpr fun _ hn => not_wants_of_spares hspares hn
  intro q hthinned
  rw [h q ((thinned_clear program indices).trans hthinned), Retains, Retains, wants_clear hspares]
  refine forall₂_congr fun n hwants => ?_
  rw [hretains n hwants]

/-- What an attempt removes: all that it lists, unless some of it is wanted. -/
def agreed (wants : Nat → Bool) (indices : List Int) : List Int :=
  if spares wants indices then indices else []

theorem spares_agreed (wants : Nat → Bool) (indices : List Int) :
    spares wants (agreed wants indices) = true := by
  unfold agreed
  split
  · assumption
  · rfl

theorem mem_of_mem_agreed {wants : Nat → Bool} {idx : Int} (h : idx ∈ agreed wants indices) :
    idx ∈ indices := by
  unfold agreed at h
  split at h
  · exact h
  · cases h

theorem agreed_singleton (wants : Nat → Bool) (n : Nat) :
    agreed wants [(n : Int)] = if !wants n then [(n : Int)] else [] := by
  have hone : spares wants [(n : Int)] = !wants n := Bool.and_true _
  rw [agreed, hone]

/-- **An attempt removes what it lists, unless some of it is wanted.** -/
theorem attempt_keeping (h : Keeper names required run.program)
    (hindices : run.program.HasIndices indices) :
    ∃ removed after, attempt (Oracle.keeping required : Oracle σ ε) indices run
        = (.ok removed, after) ∧
      after.program = run.program.clear (agreed (run.program.wants names) indices) ∧
      (indices.filter run.program.isLive ≠ [] →
        removed = spares (run.program.wants names) indices) := by
  have hnonneg : ∀ idx ∈ indices, 0 ≤ idx := fun idx hidx => (hindices idx hidx).1
  have haccepts : Oracle.keepsAll required (run.program.clear indices)
      = spares (run.program.wants names) indices := by
    rw [Bool.eq_iff_iff, spares_iff hnonneg, h _ (thinned_clear run.program indices),
      retains_clear_iff]
  unfold agreed
  have hattempted := attempted (leavesProgram_keeping (ε := ε) required) indices run
  rcases hattempt : attempt (Oracle.keeping required : Oracle σ ε) indices run with ⟨answer, after⟩
  rw [hattempt] at hattempted
  cases hattempted with
  | refused e hout => exact absurd hindices hout
  | idle hidle =>
    refine ⟨false, _, rfl, ?_, fun hlive => absurd hidle hlive⟩
    split
    · exact (Program.clear_of_idle hidle).symm
    · exact (Program.clear_nil _).symm
  | failed e state hasks hanswer =>
    cases (Prod.ext_iff.mp hanswer).1
  | rejected state hasks hanswer =>
    have hverdict := Except.ok.inj (Prod.ext_iff.mp hanswer).1
    rw [haccepts] at hverdict
    rw [hverdict, if_neg Bool.false_ne_true, Program.clear_nil]
    exact ⟨false, _, rfl, rfl, fun _ => rfl⟩
  | accepted state hasks hanswer =>
    have hverdict := Except.ok.inj (Prod.ext_iff.mp hanswer).1
    rw [haccepts] at hverdict
    rw [hverdict, if_pos rfl]
    exact ⟨true, _, rfl, rfl, fun _ => rfl⟩

end Keeper

/-! ## The reducer of groups -/

/-- What is removed of a group: all of it, else its boundaries, if nothing of it is wanted. -/
def doomed (wants : Nat → Bool) (group : BlockGroup) : List Int :=
  if spares wants group.range then group.range else agreed wants group.boundaries

theorem spares_doomed (wants : Nat → Bool) (group : BlockGroup) :
    spares wants (doomed wants group) = true := by
  unfold doomed
  split
  · assumption
  · exact spares_agreed wants group.boundaries

section Groups

variable {σ ε : Type} {names : List Text} {required : Oracle.Required} {run : Run σ}

theorem tryGroup_keeping {bs : List Nat} {rest : List (List Nat)}
    (h : Ahead run.program (bs :: rest)) (hkeeper : Keeper names required run.program)
    (other : Program) :
    ∃ after, tryGroup (Oracle.keeping required : Oracle σ ε) (groupOf other bs) run
        = (.ok (), after) ∧
      after.program = run.program.clear (doomed (run.program.wants names) (groupOf other bs)) := by
  obtain ⟨head, tail, hlisted⟩ := h.exists_listed
  obtain ⟨removed, whole, hwhole, hprogram, hremoved⟩ :=
    attempt_keeping (ε := ε) hkeeper (hlisted.hasIndices_range other)
  have hlive : (groupOf other bs).range.filter run.program.isLive ≠ [] := by
    have hle := (hlisted.within head hlisted.head_mem).2
    refine List.ne_nil_of_mem (List.mem_filter.mpr
      ⟨?_, hlisted.isLive_of_mem h.registered hlisted.head_mem⟩)
    rw [hlisted.mem_range]
    omega
  unfold agreed at hprogram
  rw [tryGroup, hwhole, doomed]
  cases hspares : spares (run.program.wants names) (groupOf other bs).range with
  | true =>
    rw [hremoved hlive, hspares]
    rw [hspares] at hprogram
    exact ⟨whole, rfl, hprogram⟩
  | false =>
    rw [hremoved hlive, hspares]
    rw [hspares, if_neg Bool.false_ne_true, Program.clear_nil] at hprogram
    rw [← hprogram] at hkeeper hlisted ⊢
    obtain ⟨removed', after, hafter, hprogram', -⟩ :=
      attempt_keeping (ε := ε) hkeeper (hlisted.hasIndices_boundaries other)
    dsimp only
    rw [hafter]
    exact ⟨after, rfl, hprogram'⟩

/-- **The reducer of groups removes what is doomed of each group.** -/
theorem removeGroups_keeping {lists : List (List Nat)} (h : Ahead run.program lists)
    (hkeeper : Keeper names required run.program) (other : Program) :
    ∃ after, removeGroups (Oracle.keeping required : Oracle σ ε) (lists.map (groupOf other)) run
        = (.ok (), after) ∧
      after.program = run.program.clear
        (lists.flatMap fun bs => doomed (run.program.wants names) (groupOf other bs)) := by
  induction lists generalizing run with
  | nil => exact ⟨run, rfl, (Program.clear_nil _).symm⟩
  | cons bs rest ih =>
    have hvisit := tryGroup_ahead (leavesProgram_keeping (ε := ε) required) h other
    obtain ⟨now, htry, hprogram⟩ := tryGroup_keeping (ε := ε) h hkeeper other
    rw [htry] at hvisit
    have hspares := spares_doomed (run.program.wants names) (groupOf other bs)
    have hkeeper' := hkeeper.clear hspares
    rw [← hprogram] at hkeeper'
    obtain ⟨after, hrest, hafter⟩ := ih hvisit hkeeper'
    rw [List.map_cons, h.removeGroups_eq _ other, htry]
    refine ⟨after, hrest, ?_⟩
    -- what is wanted is the same behind the visit
    rw [hafter, hprogram, wants_clear hspares, Program.clear_clear, List.flatMap_cons]

end Groups

end FlatCode
