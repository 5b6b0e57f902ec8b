import FlatCode.Cli.Run
import FlatCode.Proofs.Operation.Registration

/-!
# The registry over a session

A session registers operations, goes back to the built-in ones and runs command lines, in any order
and as often as it likes; each call may fail midway. The registry stays sound from call to call
(`Call.sound_step`), and so through the session (`sound_afterCalls`). Built-in names keep their
operations, so removing an instruction always finds the operation that does nothing, and never makes
a marker.

* `Cli.registry_run` — a command line leaves the registry as it found it
* `sound_afterCalls` — the registry is sound after any calls
* `registry_invariant` — what this says about names, markers and the next call
-/

namespace FlatCode

/-- A command line leaves the registry as it found it, however it ends. -/
theorem Cli.registry_run (args : List String) (shell : Cli.Shell) :
    (Cli.run args shell).2.registry = shell.registry := by
  unfold Cli.run
  split
  · rfl
  · dsimp only
    split
    · rfl
    · rfl

/-- What a session does to the registry. -/
inductive Call where
  /-- Registers operations, if asked for after going back to the built-in ones. -/
  | register (declaration : Declaration) (reset : Bool)
  /-- Goes back to the built-in operations. -/
  | clear
  /-- Runs a command line, on the files and the output of a shell. -/
  | commandLine (args : List String) (shell : Cli.Shell)

namespace Call

/-- The registry after a call. -/
def step (registry : Registry) : Call → Registry
  | .register declaration reset => (registry.register declaration reset).2
  | .clear => .builtin
  | .commandLine args shell => (Cli.run args { shell with registry }).2.registry

/-- Whether the operations that are registered have been declared. -/
def Declared : Call → Prop
  | .register declaration _ => declaration.Declared
  | .clear | .commandLine _ _ => True

/-- A call keeps a registry sound. -/
theorem sound_step {registry : Registry} (h : registry.Sound) {call : Call}
    (hcall : call.Declared) : (call.step registry).Sound := by
  cases call with
  | register declaration reset => exact h.register hcall reset
  | clear => exact Registry.sound_builtin
  | commandLine args shell =>
    rw [step, Cli.registry_run]
    exact h

end Call

/-- The registry after several calls. -/
def Registry.afterCalls (registry : Registry) (calls : List Call) : Registry :=
  calls.foldl Call.step registry

/-- **The registry is sound after any calls.** -/
theorem sound_afterCalls {registry : Registry} (h : registry.Sound) {calls : List Call}
    (hcalls : ∀ call ∈ calls, call.Declared) : (registry.afterCalls calls).Sound := by
  induction calls generalizing registry with
  | nil => exact h
  | cons call calls ih =>
    obtain ⟨hcall, hrest⟩ := List.forall_mem_cons.mp hcalls
    exact ih (call.sound_step h hcall) hrest

/-- Removing an instruction leaves its place without a marker, and all other markers as they are. -/
theorem Program.markers_nop {p : Program} {idx : Int} (h : 0 ≤ idx ∧ idx < p.size) :
    ∃ q, p.nop idx = .ok q ∧ q.markers = p.markers.set idx.toNat .plain := by
  refine ⟨p.set idx.toNat .nop, if_pos h, ?_⟩
  rw [markers, set, List.map_set]
  rfl

/-- **The registry keeps its promises through a session.** Whatever is registered, cleared and run,
and whether it succeeds or not, the registry is sound: each built-in name stands for its built-in
operation, what is found for a name has that name, and names are well formed. So removals and
remarks are simple and no markers, and every instruction can be removed. The next call that
registers without going back leaves what is there in its place, and the next command line leaves
the registry as it is. -/
theorem registry_invariant {calls : List Call} (hcalls : ∀ call ∈ calls, call.Declared) :
    let registry := Registry.builtin.afterCalls calls
    registry.Sound ∧
    (∀ op ∈ Operation.builtins, registry.find? op.name = some op) ∧
    (∀ name op, registry.find? name = some op → op.name = name ∧ op.WellNamed) ∧
    (∀ name ∈ ["Nop", "Comment"], ∃ op, registry.find? name = some op ∧
      op.simple = true ∧ op.marker = .plain) ∧
    (Instruction.ofName registry "Nop" [] = .ok .nop ∧
      ∀ (p : Program) (idx : Int), 0 ≤ idx ∧ idx < p.size →
        ∃ q, p.nop idx = .ok q ∧ q.markers = p.markers.set idx.toNat .plain) ∧
    (∀ declaration, registry.entries <+: (registry.register declaration false).2.entries) ∧
    ∀ (args : List String) (shell : Cli.Shell),
      (Cli.run args { shell with registry }).2.registry = registry := by
  intro registry
  have hsound : registry.Sound := sound_afterCalls Registry.sound_builtin hcalls
  have hnop : registry.find? "Nop" = some .nop := hsound.find?_eq List.mem_cons_self
  have hcomment : registry.find? "Comment" = some .comment :=
    hsound.find?_eq (List.mem_cons_of_mem _ List.mem_cons_self)
  refine ⟨hsound, fun op => hsound.find?_eq, fun name op hop => ?_, fun name hname => ?_, ⟨?_, ?_⟩,
    registry.prefix_register, fun args shell => Cli.registry_run args _⟩
  · obtain ⟨heq, hmem⟩ := Registry.find?_eq_some hop
    exact ⟨heq, hsound.wellNamed op hmem⟩
  · rcases List.mem_cons.mp hname with rfl | hname
    · exact ⟨_, hnop, rfl, rfl⟩
    · rw [List.mem_singleton.mp hname]
      exact ⟨_, hcomment, rfl, rfl⟩
  · rw [Instruction.ofName, Registry.lookup, hnop]
    rfl
  · exact fun p idx => Program.markers_nop

/-- A session in which a list of operations is registered up to a built-in name, a command line
registers an operation of its own, and a list that holds text takes the place of what was there. -/
def sampleSession : List Call :=
  [.register (.list [.operation (.ofBegin "Repeat"), .operation (.ofSimple "Nop")]) false,
    .commandLine ["--ops", "Mark: simple"] { registry := .builtin, store := .empty }, .clear,
    .register (.list [.value (.string "Mark: begin, end"), .operation (.ofBegin "Repeat")]) true]

theorem registry_invariant_sample :
    let registry := Registry.builtin.afterCalls sampleSession
    registry.Sound ∧ registry.find? "Nop" = some .nop ∧
      (Cli.run ["--ops", "Mark: simple"] { registry, store := .empty }).2.registry = registry := by
  have hdeclared : ∀ call ∈ sampleSession, call.Declared := by
    have hrepeat : Operation.Declared (.ofBegin "Repeat") :=
      ⟨"Repeat", true, false, false, rfl⟩
    have hnop : Operation.Declared (.ofSimple "Nop") := ⟨"Nop", false, false, true, rfl⟩
    simp [sampleSession, Call.Declared, Declaration.Declared, Declaration.AllDeclared, hrepeat,
      hnop]
  obtain ⟨hsound, hbuiltin, -, -, -, -, hrun⟩ := registry_invariant hdeclared
  exact ⟨hsound, hbuiltin .nop List.mem_cons_self, hrun _ { registry := .builtin, store := .empty }⟩

end FlatCode
