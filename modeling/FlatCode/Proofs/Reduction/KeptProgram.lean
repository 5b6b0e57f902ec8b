import FlatCode.Proofs.Reduction.Condemned

/-!
# What keeping operations leaves of a program

An instruction stays if it has an operation that is kept, if it is a boundary of a group with such a
boundary, or if it is not tried alone and stands in no group that is removed as a whole (`Spared`).
These are exactly the instructions that are not condemned.

* `spared_of_not_mem`, `not_mem_of_spared` — spared is what is not condemned
* `minimize_keeping` — the final program, instruction by instruction
-/

namespace FlatCode

variable {σ ε : Type} {names : List Text}

/-- Why an instruction that does something stays when some operations are kept. -/
inductive Spared (names : List Text) (program : Program) (n : Nat) (instr : Instruction) :
    Prop where
  /-- Its operation is one of them. -/
  | named (hname : instr.name ∈ names)
  /-- It is a boundary of a group of which a boundary has one of the operations. -/
  | boundary (gs : List BlockGroup) (group : BlockGroup) (idx : Int) (other : Instruction)
    (hgs : program.groups = .ok gs) (hgroup : group ∈ gs) (hmem : (n : Int) ∈ group.boundaries)
    (hidx : idx ∈ group.boundaries) (hother : program.at? idx = some other)
    (hname : other.name ∈ names)
  /-- It is no marker and is not tried alone, and the innermost group around it, if there is one,
  has one of the operations in its range. -/
  | inside (hmarker : instr.marker = .plain)
    (hkind : instr.isComment = true ∨ instr.operation.simple = false)
    (haround : ∀ group, BlockGroup.surrounding program n = .ok group →
      ∃ idx ∈ group.range, ∃ other, program.at? idx = some other ∧ other.isNop = false ∧
        other.name ∈ names)

section Spared

variable {program : Program} {lists : List (List Nat)} {n : Nat} {instr : Instruction}

/-! ## What is not condemned is spared -/

/-- Where something is wanted at some indices. -/
theorem exists_wanted {indices : List Int} (hnonneg : ∀ idx ∈ indices, 0 ≤ idx)
    (h : ¬spares (program.wants names) indices = true) :
    ∃ idx ∈ indices, ∃ other, program.at? idx = some other ∧ other.isNop = false ∧
      other.name ∈ names := by
  rw [spares_iff hnonneg] at h
  push Not at h
  obtain ⟨m, hm, hwants⟩ := h
  obtain ⟨other, hother, hlive, hname⟩ := Program.wants_iff.mp (eq_true_of_ne_false hwants)
  exact ⟨m, hm, other, (program.at?_natCast m).trans hother, hlive, hname⟩

theorem Listed.mem_doomed {bs : List Nat} {head tail : Nat} (h : Listed program bs head tail)
    {wants : Nat → Bool} {other : Program} (hn : n ∈ bs)
    (hspares : spares wants (groupOf other bs).boundaries = true) :
    (n : Int) ∈ doomed wants (groupOf other bs) := by
  unfold doomed agreed
  rw [if_pos hspares]
  split
  · rw [h.mem_range]
    have hwithin := h.within n hn
    omega
  · exact natCast_mem_map.mpr hn

/-- A marker that is not doomed is a boundary of a group with something wanted at a boundary. -/
theorem spared_of_marks (hlists : program.boundaryLists = .ok lists)
    (hinstr : program.instructions[n]? = some instr) (hmarks : instr.marker.marks = true)
    (h : ∀ bs ∈ lists, (n : Int) ∉ doomed (program.wants names) (groupOf program bs)) :
    Spared names program n instr := by
  obtain ⟨bs, hbs, hn⟩ :=
    exists_mem_boundaries hlists (Program.marker_of_instruction hinstr) hmarks
  obtain ⟨head, tail, hlisted⟩ := listed_of_mem hlists hbs
  obtain ⟨idx, hidx, other, hother, -, hname⟩ := exists_wanted
    (fun idx hidx => (hlisted.hasIndices_boundaries program idx hidx).1)
    fun hspares => h bs hbs (hlisted.mem_doomed hn hspares)
  exact .boundary _ _ idx other (groups_of_boundaryLists hlists) (List.mem_map_of_mem hbs)
    (natCast_mem_map.mpr hn) hidx hother hname

/-- The innermost group around what is not doomed has something wanted in its range. -/
theorem exists_wanted_of_surrounding (hlists : program.boundaryLists = .ok lists)
    (hlt : n < program.size)
    (h : ∀ bs ∈ lists, (n : Int) ∉ doomed (program.wants names) (groupOf program bs))
    {group : BlockGroup} (hgroup : BlockGroup.surrounding program n = .ok group) :
    ∃ idx ∈ group.range, ∃ other, program.at? idx = some other ∧ other.isNop = false ∧
      other.name ∈ names := by
  obtain ⟨-, hle, hge⟩ := Program.groupAround_iff.mp (groupAround_of_surrounding hlt hgroup)
  obtain ⟨_, bs, -, hwalk, rfl⟩ := (surrounding_eq_ok_iff hlt).mp hgroup
  have hbs : bs ∈ lists :=
    (mem_boundaryLists_iff hlists).mpr (chainedGroup_iff.mpr ⟨_, bs, hwalk, rfl⟩)
  obtain ⟨head, tail, hlisted⟩ := listed_of_mem hlists hbs
  refine exists_wanted (fun idx hidx => (hlisted.hasIndices_range program idx hidx).1) ?_
  intro hspares
  refine h bs hbs ?_
  rw [doomed, if_pos hspares, BlockGroup.range, mem_upTo]
  omega

/-- What the reducer of instructions leaves, and nobody wants, is not tried. -/
theorem kind_of_not_expendable (hinstr : program.instructions[n]? = some instr)
    (hlive : instr.isNop = false) (hname : instr.name ∉ names)
    (h : (n : Int) ∉ expendable (program.wants names) program program.size) :
    instr.isComment = true ∨ instr.operation.simple = false := by
  obtain ⟨hlt, -⟩ := List.getElem?_eq_some_iff.mp hinstr
  have hwants : program.wants names n = false := by
    rw [← Bool.not_eq_true, Program.wants_iff]
    rintro ⟨other, hother, -, hwanted⟩
    rw [hinstr] at hother
    cases hother
    exact hname hwanted
  by_contra hkind
  push Not at hkind
  refine h (mem_expendable.mpr ⟨hlt, hwants, instr, hinstr, ?_⟩)
  exact Instruction.isCandidate_iff.mpr
    ⟨eq_true_of_ne_false hkind.2, hlive, eq_false_of_ne_true hkind.1⟩

/-- **What is not condemned is spared.** -/
theorem spared_of_not_mem (hlists : program.boundaryLists = .ok lists)
    (hinstr : program.instructions[n]? = some instr) (hlive : instr.isNop = false)
    (h : (n : Int) ∉ condemned names program lists) : Spared names program n instr := by
  rw [condemned, List.mem_append, not_or] at h
  obtain ⟨hgroups, hrest⟩ := h
  have hdoomed : ∀ bs ∈ lists, (n : Int) ∉ doomed (program.wants names) (groupOf program bs) :=
    fun bs hbs hmem => hgroups (List.mem_flatMap.mpr ⟨bs, hbs, hmem⟩)
  by_cases hname : instr.name ∈ names
  · exact .named hname
  by_cases hmarks : instr.marker.marks = true
  · exact spared_of_marks hlists hinstr hmarks hdoomed
  · obtain ⟨hlt, -⟩ := List.getElem?_eq_some_iff.mp hinstr
    exact .inside (Marker.eq_plain_of_not_marks hmarks)
      (kind_of_not_expendable hinstr hlive hname hrest)
      fun group hgroup => exists_wanted_of_surrounding hlists hlt hdoomed hgroup

/-! ## What is spared is not condemned -/

theorem mem_of_mem_doomed {wants : Nat → Bool} {group : BlockGroup} {idx : Int}
    (h : idx ∈ doomed wants group) :
    (spares wants group.range = true ∧ idx ∈ group.range) ∨ idx ∈ group.boundaries := by
  unfold doomed at h
  split at h
  · exact .inl ⟨‹_›, h⟩
  · exact .inr (mem_of_mem_agreed h)

/-- With something wanted at a boundary of a group no boundary of it is condemned. -/
theorem not_mem_condemned_of_boundary (hreducible : program.Reducible)
    (hlists : program.boundaryLists = .ok lists) {bs : List Nat} (hbs : bs ∈ lists) (hn : n ∈ bs)
    {m : Nat} (hm : m ∈ bs) {other : Instruction} (hother : program.instructions[m]? = some other)
    (hname : other.name ∈ names) : (n : Int) ∉ condemned names program lists := by
  intro hmem
  have hcondemned := wholeGroups_condemned hreducible hlists names bs hbs n hn m hm hmem
  obtain ⟨head, tail, hlisted⟩ := listed_of_mem hlists hbs
  obtain ⟨other', hother', hlive⟩ :=
    Program.isLive_natCast_iff.mp (hlisted.isLive_of_mem hreducible.registered hm)
  rw [hother] at hother'
  cases hother'
  exact not_mem_names_of_spares (spares_condemned names program lists) hcondemned hother hlive
    hname

/-- With something wanted in the innermost group around it, what is no marker is not doomed. -/
theorem not_mem_doomed_of_surrounding (hlists : program.boundaryLists = .ok lists)
    (hinstr : program.instructions[n]? = some instr) (hmarker : instr.marker = .plain)
    (haround : ∀ group, BlockGroup.surrounding program n = .ok group →
      ∃ idx ∈ group.range, ∃ other, program.at? idx = some other ∧ other.isNop = false ∧
        other.name ∈ names)
    {bs : List Nat} (hbs : bs ∈ lists) :
    (n : Int) ∉ doomed (program.wants names) (groupOf program bs) := by
  intro hdoomed
  obtain ⟨head, tail, hlisted⟩ := listed_of_mem hlists hbs
  rcases mem_of_mem_doomed hdoomed with ⟨hspares, hrange⟩ | hboundary
  · -- the innermost group around the instruction is inside of this one
    obtain ⟨hlt, -⟩ := List.getElem?_eq_some_iff.mp hinstr
    rw [BlockGroup.range, mem_upTo] at hrange
    obtain ⟨group, hgroup, hinside⟩ := exists_surrounding_of_groupAround hlt
      (Program.groupAround_iff.mpr ⟨hlisted.chainedGroup, hrange.1, by omega⟩)
    obtain ⟨idx, hidx, other, hother, hlive, hname⟩ := haround group hgroup
    rw [BlockGroup.range, mem_upTo] at hidx
    have hmem : idx ∈ (groupOf program bs).range := by
      rw [BlockGroup.range, mem_upTo]
      rcases hinside with rfl | ⟨hhead, htail⟩
      · exact hidx
      · omega
    obtain ⟨hnonneg, -⟩ := hlisted.hasIndices_range program idx hmem
    obtain ⟨m, rfl⟩ := Int.eq_ofNat_of_zero_le hnonneg
    rw [Program.at?_natCast] at hother
    exact not_mem_names_of_spares hspares hmem hother hlive hname
  · obtain ⟨marker, hm, hmarks⟩ := hlisted.marks (natCast_mem_map.mp hboundary)
    rw [Program.marker_of_instruction hinstr, hmarker] at hm
    cases hm
    cases hmarks

theorem not_mem_expendable_of_kind {wants : Nat → Bool} {last : Nat}
    (hinstr : program.instructions[n]? = some instr)
    (hkind : instr.isComment = true ∨ instr.operation.simple = false) :
    (n : Int) ∉ expendable wants program last := by
  intro hmem
  obtain ⟨-, -, tried, htried, hcandidate⟩ := mem_expendable.mp hmem
  rw [hinstr] at htried
  cases htried
  obtain ⟨hsimple, -, hcomment⟩ := Instruction.isCandidate_iff.mp hcandidate
  rcases hkind with hkind | hkind
  · rw [hcomment] at hkind
    cases hkind
  · rw [hsimple] at hkind
    cases hkind

/-- **What is spared is not condemned.** -/
theorem not_mem_of_spared (hreducible : program.Reducible)
    (hlists : program.boundaryLists = .ok lists)
    (hinstr : program.instructions[n]? = some instr) (hlive : instr.isNop = false)
    (h : Spared names program n instr) : (n : Int) ∉ condemned names program lists := by
  intro hmem
  cases h with
  | named hname =>
    exact not_mem_names_of_spares (spares_condemned names program lists) hmem hinstr hlive hname
  | boundary gs group idx other hgs hgroup hn hidx hother hname =>
    rw [groups_of_boundaryLists hlists] at hgs
    cases hgs
    obtain ⟨bs, hbs, rfl⟩ := List.mem_map.mp hgroup
    obtain ⟨m, hm, rfl⟩ := List.mem_map.mp hidx
    rw [Program.at?_natCast] at hother
    exact not_mem_condemned_of_boundary hreducible hlists hbs (natCast_mem_map.mp hn) hm hother
      hname hmem
  | inside hmarker hkind haround =>
    rw [condemned, List.mem_append] at hmem
    rcases hmem with hgroups | hrest
    · obtain ⟨bs, hbs, hdoomed⟩ := List.mem_flatMap.mp hgroups
      exact not_mem_doomed_of_surrounding hlists hinstr hmarker haround hbs hdoomed
    · exact not_mem_expendable_of_kind hinstr hkind hrest

end Spared

/-! ## The final program -/

/-- **What a reduction leaves that keeps some operations.** All rounds but the first leave the
program as it is, and the first one leaves exactly the instructions that are spared. -/
theorem minimize_keeping {registry : Registry} {names : List Text} {program : Program}
    (hwell : program.isWellFormed = true) (hregistered : program.Registered)
    (hapart : ∀ instr ∈ program.instructions, ¬(instr.operation.simple = true ∧
      (instr.operation.blockBegin = true ∨ instr.operation.blockEnd = true)))
    (hnames : ∀ name ∈ names, ∃ op, registry.lookup name = .ok op) :
    ∃ required final, Oracle.required registry program names = .ok required ∧
      final.size = program.size ∧
      (∀ (n : Nat) (instr : Instruction), program.instructions[n]? = some instr →
        (instr.isNop = true ∨ Spared names program n instr →
          final.instructions[n]? = some instr) ∧
        (instr.isNop = false → ¬Spared names program n instr →
          final.instructions[n]? = some .nop)) ∧
      ∀ maxRounds : Int, 1 ≤ maxRounds → ∀ run : Run σ, run.program = program →
        ∃ outcome after, minimize ((Oracle.keeping required : Oracle σ ε).guarded true)
            Reducer.standard maxRounds run = (.ok outcome, after) ∧
          after.program = final ∧
          outcome.rounds = if outcome.removed = 0 ∨ maxRounds = 1 then 1 else 2 := by
  have hreducible := Program.reducible_of_apart hregistered hapart
  obtain ⟨lists, hlists⟩ := exists_boundaryLists_iff.mpr hwell
  obtain ⟨required, hrequired⟩ := exists_required (p := program) hnames
  refine ⟨required, program.clear (condemned names program lists), hrequired,
    Program.size_clear _ _, fun n instr hinstr => ⟨?_, ?_⟩, ?_⟩
  · intro hstays
    rw [Program.instructions_clear, hinstr, Option.map_some, if_neg]
    rintro ⟨hmem, hlive⟩
    rcases hstays with hnop | hspared
    · rw [hlive] at hnop
      cases hnop
    · exact not_mem_of_spared hreducible hlists hinstr hlive hspared hmem
  · intro hlive hspared
    rw [Program.instructions_clear, hinstr, Option.map_some, if_pos]
    refine ⟨?_, hlive⟩
    by_contra hmem
    exact hspared (spared_of_not_mem hlists hinstr hlive hmem)
  · rintro maxRounds hmax run rfl
    exact minimize_condemned ⟨hreducible, hwell⟩ hlists
      (fun q hthinned => keepsAll_iff hrequired hthinned) hmax

/-- Of the loop and the block in it only the boundaries are removed, as they hold the text that is
kept; the remark next to the text stays, the one in the branch goes with the branch. -/
theorem minimize_keeping_text :
    let program : Program := ⟨[⟨.ofBegin "BeginWhileLoop", []⟩, ⟨.ofBegin "BeginIf", []⟩,
      ⟨.comment, []⟩, ⟨.ofEnd "EndIf", []⟩, ⟨.ofBegin "BeginTry", []⟩,
      ⟨.ofSimple "LoadString", [.string "a"]⟩, ⟨.comment, []⟩, ⟨.ofDivider "BeginCatch", []⟩,
      ⟨.ofEnd "EndTryCatch", []⟩, ⟨.ofEnd "EndWhileLoop", []⟩]⟩
    ∃ required outcome after, Oracle.required .builtin program ["LoadString"] = .ok required ∧
      minimize ((Oracle.keeping required : Oracle Unit String).guarded true) Reducer.standard 10
        { program, state := () } = (.ok outcome, after) ∧ outcome.rounds = 2 ∧
      after.program.instructions[6]? = some ⟨.comment, []⟩ ∧
      after.program.names = (["Nop", "Nop", "Nop", "Nop", "Nop", "LoadString", "Comment", "Nop",
        "Nop", "Nop"] : List Text) := by
  intro program
  have hregistered : program.Registered := by
    intro instr hinstr
    have hbuiltin : instr.operation ∈ Operation.builtins := by
      revert instr
      decide
    exact Instruction.registered_of_builtin hbuiltin instr.args
  have hnames : ∀ name ∈ (["LoadString"] : List Text),
      ∃ op, Registry.lookup .builtin name = .ok op :=
    List.forall_mem_singleton.mpr ⟨_, rfl⟩
  obtain ⟨required, final, hrequired, -, hstays, hrun⟩ :=
    minimize_keeping (σ := Unit) (ε := String) (by decide) hregistered (by decide) hnames
  obtain ⟨outcome, after, hminimize, hafter, -⟩ :=
    hrun 10 (by decide) { program, state := () } rfl
  have hspared : Spared ["LoadString"] program 6 ⟨.comment, []⟩ := by
    refine .inside rfl (.inl rfl) fun group hgroup => ?_
    have haround : BlockGroup.surrounding program 6 = .ok (groupOf program [4, 7, 8]) := rfl
    obtain rfl := Except.ok.inj (haround.symm.trans hgroup)
    exact ⟨5, by decide, _, rfl, rfl, by decide⟩
  have hremark := (hstays 6 _ rfl).1 (.inr hspared)
  rw [← hafter] at hremark
  have hnumber : Oracle.required .builtin program ["LoadString"] = .ok [("LoadString", 1)] := rfl
  obtain rfl := Except.ok.inj (hnumber.symm.trans hrequired)
  have hcount : (minimize ((Oracle.keeping [("LoadString", 1)] : Oracle Unit String).guarded true)
      Reducer.standard 10 { program, state := () }).1.toOption.map Outcome.rounds = some 2 := by
    decide +kernel
  have hleft : (minimize ((Oracle.keeping [("LoadString", 1)] : Oracle Unit String).guarded true)
      Reducer.standard 10 { program, state := () }).2.program.names = (["Nop", "Nop", "Nop", "Nop",
        "Nop", "LoadString", "Comment", "Nop", "Nop", "Nop"] : List Text) := by
    decide +kernel
  rw [hminimize] at hcount hleft
  exact ⟨_, outcome, after, hnumber, hminimize, Option.some.inj hcount, hremark, hleft⟩

end FlatCode
