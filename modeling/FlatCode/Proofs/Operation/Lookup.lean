import FlatCode.Program.Basic

/-!
# Operations of known names

Operations are only ever added behind the built-in ones, so a built-in name always stands for the
same operation. An instruction is registered (`Instruction.Registered`) if it has the operation that
some registry has for its name; then nothing but the removed instruction has its name, and remarks
are simple.
-/

namespace FlatCode

theorem find?_builtins : ∀ op ∈ Operation.builtins,
    Operation.builtins.find? (fun o => o.name == op.name) = some op := by decide +kernel

/-- Operations that are added behind the built-in ones hide none of them. -/
theorem find?_of_builtin {registry : Registry} (h : Operation.builtins <+: registry.entries)
    {op : Operation} (hop : op ∈ Operation.builtins) : registry.find? op.name = some op := by
  obtain ⟨added, hentries⟩ := h
  rw [Registry.find?, ← hentries, List.find?_append, find?_builtins op hop]
  rfl

theorem Registry.find?_eq_some_of_lookup {registry : Registry} {name : Text} {op : Operation}
    (h : registry.lookup name = .ok op) : registry.find? name = some op := by
  unfold Registry.lookup at h
  cases hfound : registry.find? name with
  | none =>
    rw [hfound] at h
    cases h
  | some found =>
    rw [hfound] at h
    cases h
    rfl

/-- What is found for a name has the name and is in the registry. -/
theorem Registry.find?_eq_some {registry : Registry} {name : Text} {op : Operation}
    (h : registry.find? name = some op) : op.name = name ∧ op ∈ registry.entries := by
  have hname := List.find?_some h
  exact ⟨eq_of_beq hname, List.mem_of_find?_eq_some h⟩

theorem Registry.name_of_lookup {registry : Registry} {name : Text} {op : Operation}
    (h : registry.lookup name = .ok op) : op.name = name :=
  (find?_eq_some (find?_eq_some_of_lookup h)).1

/-- Whether an instruction has the operation that a registry has for its name. -/
def Instruction.Registered (instr : Instruction) : Prop :=
  ∃ registry : Registry, Operation.builtins <+: registry.entries ∧
    registry.lookup instr.name = .ok instr.operation

/-- Whether all instructions of a program are registered, each at its time. -/
def Program.Registered (program : Program) : Prop :=
  ∀ instr ∈ program.instructions, instr.Registered

namespace Instruction

theorem registered_of_builtin {op : Operation} (hop : op ∈ Operation.builtins)
    (args : List Json) : Registered ⟨op, args⟩ := by
  refine ⟨.builtin, List.prefix_refl _, ?_⟩
  change Registry.lookup .builtin op.name = .ok op
  have hfound : Registry.find? .builtin op.name = some op :=
    find?_of_builtin (List.prefix_refl _) hop
  rw [Registry.lookup, hfound]

/-- A built-in name stands for the built-in operation. -/
theorem Registered.operation_eq {instr : Instruction} (h : instr.Registered) {op : Operation}
    (hop : op ∈ Operation.builtins) (hname : instr.name = op.name) : instr.operation = op := by
  obtain ⟨registry, hentries, hlookup⟩ := h
  have hfound := Registry.find?_eq_some_of_lookup hlookup
  rw [hname, find?_of_builtin hentries hop] at hfound
  exact (Option.some.inj hfound).symm

/-- What does nothing is no marker. -/
theorem Registered.marker_of_isNop {instr : Instruction} (h : instr.Registered)
    (hnop : instr.isNop = true) : instr.marker = .plain := by
  have hoperation : instr.operation = .nop :=
    h.operation_eq List.mem_cons_self (eq_of_beq hnop)
  rw [marker, hoperation]
  rfl

end Instruction

end FlatCode
