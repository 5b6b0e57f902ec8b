import FlatCode.Proofs.Block.Surrounding

/-!
# Groups that are open at a place

In front of a place some groups have begun and not ended yet, and in each of them one block is open
(`OpenAt`). Every walk over a program that keeps a stack keeps these groups on it, so one step lemma
for each marker is all that a walk needs. Where the innermost open block begins is seen from the
markers alone: those behind it, up to the place, are balanced (`OpensAt`).

* `OpenAt.plain`, `OpenAt.groupBegin`, `OpenAt.divider`, `OpenAt.groupEnd` — the steps of a walk
-/

namespace FlatCode

/-! ## Stretches of markers -/

section Balanced

variable {ms : List Marker} {k n head : Nat}

theorem balanced_empty (ms : List Marker) (n : Nat) : Balanced ((ms.take n).drop n) := by
  have hempty : (ms.take n).drop n = [] := List.drop_eq_nil_of_le (List.length_take_le n ms)
  rw [hempty]
  rfl

theorem balanced_plain (h : Balanced ((ms.take n).drop k)) (hk : k ≤ n)
    (hn : ms[n]? = some .plain) : Balanced ((ms.take (n + 1)).drop k) := by
  rw [stretch_succ hk hn, Balanced, depthAfter_append_of_some h]
  rfl

/-- Behind a group that begins and ends a stretch is as balanced as in front of it. -/
theorem balanced_group (h : Balanced ((ms.take head).drop k)) (hk : k ≤ head) (hlt : head < n)
    (hbegin : ms[head]? = some .groupBegin)
    (hinner : depthAfter 1 (between ms head n) = some 1) (hend : ms[n]? = some .groupEnd) :
    Balanced ((ms.take (n + 1)).drop k) := by
  rw [stretch_succ (by omega) hend, stretch_split hk hlt hbegin, List.append_assoc, Balanced,
    depthAfter_append_of_some h, List.cons_append, depthAfter_cons_of_next rfl,
    depthAfter_append_of_some hinner]
  rfl

/-- In an open group the dividers count for nothing, so the outline tells the number of groups. -/
theorem depthAfter_of_outlined {depth next : Nat} {ms : List Marker}
    (h : depthAfter depth (outlined ms) = some next) :
    depthAfter (depth + 1) ms = some (next + 1) := by
  induction ms generalizing depth with
  | nil =>
    cases h
    rfl
  | cons m ms ih =>
    rw [outlined, List.map_cons, depthAfter] at h
    cases m with
    | plain => exact ih h
    | divider => exact ih h
    | groupBegin => exact ih h
    | groupEnd =>
      cases depth with
      | zero => cases h
      | succ depth => exact ih h

end Balanced

/-! ## Open groups -/

/-- The groups that are open in front of a place, innermost first: where each begins, and where the
block of it begins that is open. -/
inductive OpenAt (ms : List Marker) : Nat → List (Nat × Nat) → Prop where
  | nil {n : Nat} (hbalanced : Balanced (ms.take n)) : OpenAt ms n []
  | cons {n head block : Nat} {outer : List (Nat × Nat)} (hgroup : Encloses ms head n)
    (hblock : OpensAt ms block n) (houter : OpenAt ms head outer) :
    OpenAt ms n ((head, block) :: outer)

section Steps

variable {ms : List Marker} {n head block : Nat} {stack outer : List (Nat × Nat)}

theorem openAt_zero (ms : List Marker) : OpenAt ms 0 [] := .nil rfl

/-- Nothing is opened or closed in front of the place behind a marker that is none. -/
theorem OpenAt.plain (h : OpenAt ms n stack) (hn : ms[n]? = some .plain) :
    OpenAt ms (n + 1) stack := by
  cases h with
  | nil hbalanced => exact .nil (balanced_plain (k := 0) hbalanced (Nat.zero_le n) hn)
  | cons hgroup hblock houter =>
    have houtlined : (outlined ms)[n]? = some .plain := by simp [hn, Marker.outline]
    have hlt := hgroup.lt
    have hlt' := hblock.lt
    exact .cons ⟨by omega, hgroup.begins, balanced_plain hgroup.balanced hlt houtlined⟩
      ⟨by omega, hblock.begins, balanced_plain hblock.balanced hlt' hn⟩ houter

/-- A group begin opens a group and its first block. -/
theorem OpenAt.groupBegin (h : OpenAt ms n stack) (hn : ms[n]? = some .groupBegin) :
    OpenAt ms (n + 1) ((n, n) :: stack) :=
  .cons ⟨Nat.lt_succ_self n, hn, balanced_empty _ _⟩
    ⟨Nat.lt_succ_self n, ⟨_, hn, rfl⟩, balanced_empty _ _⟩ h

/-- A divider opens the next block of the innermost group. -/
theorem OpenAt.divider (h : OpenAt ms n ((head, block) :: outer)) (hn : ms[n]? = some .divider) :
    OpenAt ms (n + 1) ((head, n) :: outer) := by
  cases h with
  | cons hgroup hblock houter =>
    have houtlined : (outlined ms)[n]? = some .plain := by simp [hn, Marker.outline]
    have hlt := hgroup.lt
    exact .cons ⟨by omega, hgroup.begins, balanced_plain hgroup.balanced hlt houtlined⟩
      ⟨Nat.lt_succ_self n, ⟨_, hn, rfl⟩, balanced_empty _ _⟩ houter

/-- **A group end closes the innermost group**, and the blocks around it are open again. -/
theorem OpenAt.groupEnd (h : OpenAt ms n ((head, block) :: outer)) (hn : ms[n]? = some .groupEnd) :
    OpenAt ms (n + 1) outer := by
  cases h with
  | cons hgroup hblock houter =>
    have hlt := hgroup.lt
    have hinner : depthAfter 1 (between ms head n) = some 1 := by
      have hbalanced := hgroup.balanced
      rw [← outlined_between] at hbalanced
      exact depthAfter_of_outlined hbalanced
    cases houter with
    | nil hbalanced =>
      exact .nil (balanced_group (k := 0) hbalanced (Nat.zero_le head) hlt hgroup.begins hinner hn)
    | cons hgroup' hblock' houter' =>
      have hbegin : (outlined ms)[head]? = some .groupBegin := by
        simp [hgroup.begins, Marker.outline]
      have hend : (outlined ms)[n]? = some .groupEnd := by simp [hn, Marker.outline]
      have houtlined : depthAfter 1 (between (outlined ms) head n) = some 1 :=
        depthAfter_add 1 hgroup.balanced
      have hlt' := hgroup'.lt
      have hlt'' := hblock'.lt
      exact .cons
        ⟨by omega, hgroup'.begins,
          balanced_group hgroup'.balanced hlt' hlt hbegin houtlined hend⟩
        ⟨by omega, hblock'.begins,
          balanced_group hblock'.balanced hlt'' hlt hgroup.begins hinner hn⟩ houter'

end Steps

end FlatCode
