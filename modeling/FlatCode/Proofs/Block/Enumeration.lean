import FlatCode.Block.Group
import FlatCode.Proofs.Block.Level
import FlatCode.Proofs.Results

/-!
# The enumeration of groups

The walk that lists the groups of a program builds each group where it ends. Every open group begins
at a group begin of the program (`StackInv`), and it is closed at a group end, so the group can
always be built: the walk is the one that lists boundaries only (`closingBoundaries`). How many
groups are open is the level of the markers, so the walk succeeds on balanced programs.

* `closingGroups_eq` — the groups are built from the boundaries, and nothing goes wrong there
* `isWellFormed_iff_balanced` — the well-formed programs are those with balanced markers
-/

namespace FlatCode

/-! ## Markers of a program -/

theorem Operation.groupBegin_iff {op : Operation} :
    op.groupBegin = true ↔ op.marker = .groupBegin := by
  unfold Operation.groupBegin Operation.marker
  cases op.blockBegin <;> cases op.blockEnd <;> simp [Marker.ofFacets]

theorem Operation.groupEnd_iff {op : Operation} :
    op.groupEnd = true ↔ op.marker = .groupEnd := by
  unfold Operation.groupEnd Operation.marker
  cases op.blockBegin <;> cases op.blockEnd <;> simp [Marker.ofFacets]

theorem Program.exists_instruction_of_marker {program : Program} {n : Nat} {m : Marker}
    (h : program.markers[n]? = some m) :
    ∃ instr, program.instructions[n]? = some instr ∧ instr.marker = m := by
  rw [Program.markers, List.getElem?_map] at h
  exact Option.map_eq_some_iff.mp h

theorem Program.marker_of_instruction {program : Program} {n : Nat} {instr : Instruction}
    (h : program.instructions[n]? = some instr) : program.markers[n]? = some instr.marker := by
  rw [Program.markers, List.getElem?_map, h]
  rfl

/-! ## Groups from their boundaries -/

theorem natCast_mem_map {n : Nat} {places : List Nat} :
    (n : Int) ∈ places.map (fun n : Nat => (n : Int)) ↔ n ∈ places := by
  rw [List.mem_map]
  constructor
  · rintro ⟨m, hm, heq⟩
    rwa [← Int.ofNat.inj heq]
  · intro hn
    exact ⟨n, hn, rfl⟩

/-- The group of a program with the given boundaries. -/
def groupOf (program : Program) (boundaries : List Nat) : BlockGroup :=
  ⟨program, boundaries.map fun n : Nat => (n : Int)⟩

@[simp] theorem boundaries_groupOf (program : Program) (boundaries : List Nat) :
    (groupOf program boundaries).boundaries = boundaries.map fun n : Nat => (n : Int) := rfl

/-- A group can be built from a group begin, some markers and a group end. -/
theorem ofBoundaries_eq_ok {program : Program} {head last : Nat} (dividers : List Nat)
    (hhead : program.markers[head]? = some .groupBegin)
    (hlast : program.markers[last]? = some .groupEnd) :
    BlockGroup.ofBoundaries program ((head :: dividers ++ [last]).map fun n : Nat => (n : Int))
      = .ok (groupOf program (head :: dividers ++ [last])) := by
  obtain ⟨first, hfirst, hbegin⟩ := Program.exists_instruction_of_marker hhead
  obtain ⟨final, hfinal, hend⟩ := Program.exists_instruction_of_marker hlast
  have hbegin' : first.operation.groupBegin = true := Operation.groupBegin_iff.mpr hbegin
  have hend' : final.operation.groupEnd = true := Operation.groupEnd_iff.mpr hend
  have hlength : ¬((head :: dividers ++ [last]).map fun n : Nat => (n : Int)).length < 2 := by
    simp
  have hfirst' : program.at? (groupOf program (head :: dividers ++ [last])).head = some first := by
    rw [← hfirst, ← Program.at?_natCast]
    rfl
  have hfinal' : program.at? (groupOf program (head :: dividers ++ [last])).tail = some final := by
    rw [BlockGroup.tail, boundaries_groupOf, List.map_append, List.map_singleton,
      List.getLast?_concat, ← hfinal, ← Program.at?_natCast]
    rfl
  unfold BlockGroup.ofBoundaries
  rw [if_neg hlength]
  unfold groupOf at hfirst' hfinal' ⊢
  simp only [hfirst', hfinal', hbegin', hend', Bool.not_true, Bool.false_eq_true, if_false]

/-! ## The walk over boundaries -/

/-- The boundaries of the groups that end from a place on, with the open groups there. -/
def closingBoundaries : Nat → List OpenGroup → List Instruction →
    Except StructureError (List (List Nat))
  | _, stack, [] =>
    match stack with
    | [] => .ok []
    | group :: _ => .error (.groupNeverClosed group.head)
  | idx, stack, instr :: rest =>
    match instr.marker with
    | .plain => closingBoundaries (idx + 1) stack rest
    | .groupBegin => closingBoundaries (idx + 1) (⟨idx, []⟩ :: stack) rest
    | .divider =>
      match stack with
      | [] => .error (.neverOpened idx instr.name)
      | group :: outer =>
        closingBoundaries (idx + 1) (⟨group.head, group.dividers ++ [idx]⟩ :: outer) rest
    | .groupEnd =>
      match stack with
      | [] => .error (.neverOpened idx instr.name)
      | group :: outer =>
        (closingBoundaries (idx + 1) outer rest).map
          ((group.head :: group.dividers ++ [idx]) :: ·)

/-- Whether each open group begins at a group begin of the program. -/
def StackInv (program : Program) (stack : List OpenGroup) : Prop :=
  ∀ group ∈ stack, program.markers[group.head]? = some .groupBegin

/-- **The groups are built from the boundaries**, and no group is refused. -/
theorem closingGroups_eq {program : Program} {front instrs : List Instruction}
    {stack : List OpenGroup} (h : program.instructions = front ++ instrs)
    (hstack : StackInv program stack) :
    closingGroups program front.length stack instrs
      = (closingBoundaries front.length stack instrs).map (List.map (groupOf program)) := by
  induction instrs generalizing front stack with
  | nil =>
    cases stack with
    | nil => rfl
    | cons group outer => rfl
  | cons instr rest ih =>
    -- `front` has been walked over, so the instruction stands at its length
    have hinstr : program.instructions[front.length]? = some instr := by
      rw [h, List.getElem?_append_right (Nat.le_refl _), Nat.sub_self]
      rfl
    have hmarker := Program.marker_of_instruction hinstr
    have hnext : program.instructions = (front ++ [instr]) ++ rest := by
      rw [h, List.append_assoc, List.singleton_append]
    have hlength : (front ++ [instr]).length = front.length + 1 := List.length_append
    have hwalk := fun {stack : List OpenGroup} => @ih (front ++ [instr]) stack hnext
    rw [hlength] at hwalk
    rw [closingGroups.eq_def, closingBoundaries.eq_def]
    dsimp only
    cases hm : instr.marker with
    | plain => exact hwalk hstack
    | groupBegin =>
      refine hwalk (List.forall_mem_cons.mpr ⟨?_, hstack⟩)
      rw [hmarker, hm]
    | divider =>
      cases stack with
      | nil => rfl
      | cons group outer =>
        obtain ⟨hgroup, houter⟩ := List.forall_mem_cons.mp hstack
        exact hwalk (List.forall_mem_cons.mpr ⟨hgroup, houter⟩)
    | groupEnd =>
      cases stack with
      | nil => rfl
      | cons group outer =>
        obtain ⟨hgroup, houter⟩ := List.forall_mem_cons.mp hstack
        rw [hm] at hmarker
        simp only [ofBoundaries_eq_ok group.dividers hgroup hmarker, hwalk houter]
        cases closingBoundaries (front.length + 1) outer rest with
        | error e => rfl
        | ok lists => rfl

theorem Program.groups_eq (program : Program) :
    program.groups
      = (closingBoundaries 0 [] program.instructions).map (List.map (groupOf program)) := by
  have hstack : StackInv program [] := by
    intro group hgroup
    cases hgroup
  exact @closingGroups_eq program [] program.instructions [] rfl hstack

/-- **The walk succeeds exactly on markers that end all open groups and no others.** -/
theorem closingBoundaries_ok_iff {idx : Nat} {stack : List OpenGroup} {instrs : List Instruction} :
    (∃ lists, closingBoundaries idx stack instrs = .ok lists) ↔
      depthAfter stack.length (instrs.map Instruction.marker) = some 0 := by
  induction instrs generalizing idx stack with
  | nil =>
    cases stack with
    | nil => simp [closingBoundaries, depthAfter]
    | cons group outer => simp [closingBoundaries, depthAfter]
  | cons instr rest ih =>
    -- the height of the stack is the level
    rw [closingBoundaries.eq_def, List.map_cons, depthAfter]
    dsimp only
    cases instr.marker with
    | plain => exact ih
    | groupBegin => exact ih
    | divider =>
      cases stack with
      | nil => simp [Marker.next]
      | cons group outer => exact ih
    | groupEnd =>
      cases stack with
      | nil => simp [Marker.next]
      | cons group outer =>
        rw [Marker.next, if_neg (by simp), List.length_cons, Nat.add_sub_cancel, Option.bind_some]
        exact exists_ok_map_iff.trans ih

/-- The two ways in which the walk fails. -/
theorem error_of_closingBoundaries {idx : Nat} {stack : List OpenGroup}
    {instrs : List Instruction} {e : StructureError}
    (h : closingBoundaries idx stack instrs = .error e) :
    (∃ n name, e = .neverOpened n name) ∨ ∃ n, e = .groupNeverClosed n := by
  induction instrs generalizing idx stack with
  | nil =>
    cases stack with
    | nil => cases h
    | cons group outer =>
      cases h
      exact .inr ⟨_, rfl⟩
  | cons instr rest ih =>
    rw [closingBoundaries.eq_def] at h
    dsimp only at h
    cases hm : instr.marker with
    | plain =>
      rw [hm] at h
      exact ih h
    | groupBegin =>
      rw [hm] at h
      exact ih h
    | divider =>
      rw [hm] at h
      cases stack with
      | nil =>
        cases h
        exact .inl ⟨_, _, rfl⟩
      | cons group outer => exact ih h
    | groupEnd =>
      rw [hm] at h
      cases stack with
      | nil =>
        cases h
        exact .inl ⟨_, _, rfl⟩
      | cons group outer =>
        dsimp only at h
        cases hrest : closingBoundaries (idx + 1) outer rest with
        | error e' =>
          rw [hrest] at h
          cases h
          exact ih hrest
        | ok lists =>
          rw [hrest] at h
          cases h

/-! ## Well-formed programs -/

theorem Program.isWellFormed_iff_groups {program : Program} :
    program.isWellFormed = true ↔ ∃ gs, program.groups = .ok gs := by
  unfold Program.isWellFormed Program.checkWellFormed
  cases program.groups with
  | error e => simp [Except.map, Except.isOk, Except.toBool]
  | ok gs => simp [Except.map, Except.isOk, Except.toBool]

/-- **A program is well formed if its markers are balanced.** -/
theorem Program.isWellFormed_iff_balanced {program : Program} :
    program.isWellFormed = true ↔ Balanced program.markers := by
  rw [isWellFormed_iff_groups, groups_eq, exists_ok_map_iff]
  exact closingBoundaries_ok_iff

end FlatCode
