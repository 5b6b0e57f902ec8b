import FlatCode.Proofs.Reduction.Quiet

/-!
# Restoring what was removed

A predicate is closed under restoring if with a program it accepts each program between it and the
one that is reduced (`Restorable`): bringing back instructions never turns it to reject. What such a
predicate rejects it rejects too after more has been removed, so a removal that is refused once is
refused from then on.

* `Thinned.eq_without` — which instructions are removed from a thinned program
* `Restorable.accepts_of_thinned` — the property, of programs that come from each other by removals
* `Restorable.refuses` — what is refused stays refused
-/

namespace FlatCode

variable {ε : Type}

/-! ## Removals as sets of places -/

/-- A thinned program is the program without what is removed. -/
theorem Thinned.eq_without {p q : Program} (h : Thinned p q) :
    q = p.without ((p.removedPlaces q).map fun n : Nat => (n : Int)) := by
  refine Program.ext_instructions fun n => ?_
  rw [Program.instructions_without]
  cases hinstr : p.instructions[n]? with
  | none =>
    have hsize := h.size
    rw [Option.map_none, List.getElem?_eq_none_iff]
    rw [List.getElem?_eq_none_iff] at hinstr
    exact hsize.trans_le hinstr
  | some instr =>
    rw [Option.map_some]
    simp only [natCast_mem_map, Program.mem_removedPlaces, hinstr]
    rcases h.kept_or_removed n instr hinstr with hkept | ⟨hlive, hremoved⟩
    · -- what is kept cannot both do something and do nothing
      rw [hkept]
      cases hnop : instr.isNop with
      | true => simp [hnop]
      | false => simp [hnop]
    · have hnop : Instruction.nop.isNop = true := rfl
      simp [hremoved, hlive, hnop]

/-- What is removed is still removed when more is. -/
theorem Thinned.removedPlaces_subset {q r : Program} (h : Thinned q r) (p : Program) :
    p.removedPlaces q ⊆ p.removedPlaces r := by
  intro n hn
  rw [Program.mem_removedPlaces] at hn ⊢
  obtain ⟨⟨instr, hinstr, hlive⟩, other, hother, hnop⟩ := hn
  refine ⟨⟨instr, hinstr, hlive⟩, ?_⟩
  rcases h.kept_or_removed n other hother with hkept | ⟨hdoes, -⟩
  · exact ⟨other, hkept, hnop⟩
  · rw [hnop] at hdoes
    cases hdoes

theorem Program.without_without (program : Program) (first second : List Int) :
    (program.without first).without second = program.without (first ++ second) := by
  refine ext_instructions fun n => ?_
  rw [instructions_without, instructions_without, instructions_without, Option.map_map]
  congr 1
  funext instr
  by_cases hfirst : (n : Int) ∈ first
  · simp [hfirst]
  · simp [hfirst]

/-- What is live in a thinned program was live before. -/
theorem Thinned.isLive {p q : Program} (h : Thinned p q) {idx : Int} (hlive : q.isLive idx = true) :
    p.isLive idx = true := by
  have hplace : ∀ k : Nat, (q.instructions[k]?.any fun instr => !instr.isNop) = true →
      (p.instructions[k]?.any fun instr => !instr.isNop) = true := by
    intro k hk
    obtain ⟨instr, hinstr, hdoes⟩ := (Option.any_eq_true _ _).mp hk
    have hlt : k < p.instructions.length := by
      obtain ⟨hlt, -⟩ := List.getElem?_eq_some_iff.mp hinstr
      exact hlt.trans_eq h.size
    have hbefore := List.getElem?_eq_getElem hlt
    rw [hbefore, Option.any_some]
    rcases h.kept_or_removed k _ hbefore with hkept | ⟨hbefore, -⟩
    · rw [hkept] at hinstr
      rwa [Option.some.inj hinstr]
    · simp [hbefore]
  have hsize : q.instructions.length = p.instructions.length := h.size
  unfold Program.isLive Program.at? select? at hlive ⊢
  rw [hsize] at hlive
  split
  · rename_i hnonneg
    rw [if_pos hnonneg] at hlive
    exact hplace _ hlive
  · rename_i hneg
    rw [if_neg hneg] at hlive
    split
    · rename_i hback
      rw [if_pos hback] at hlive
      exact hplace _ hlive
    · rename_i hback
      rw [if_neg hback] at hlive
      exact hlive

/-- Removing the same from a program and from what is left of it. -/
theorem Thinned.clear {p q : Program} (h : Thinned p q) (indices : List Int) :
    Thinned (p.clear indices) (q.clear indices) := by
  refine ⟨?_, fun n instr hinstr => ?_⟩
  · rw [Program.size_clear, Program.size_clear]
    exact h.size
  rw [Program.instructions_clear] at hinstr ⊢
  obtain ⟨before, hbefore, rfl⟩ := Option.map_eq_some_iff.mp hinstr
  have hnop : Instruction.nop.isNop = true := rfl
  rcases h.kept_or_removed n before hbefore with hkept | ⟨hlive, hremoved⟩
  · rw [hkept]
    exact .inl rfl
  · rw [hremoved]
    by_cases hmem : (n : Int) ∈ indices
    · simp [hmem, hlive, hnop]
    · simp [hmem, hlive]

/-! ## Predicates that are closed under restoring -/

/-- Whether a predicate accepts a program without some instructions if it accepts it without these
and others. -/
def Restorable (accepts : Program → Bool) (program : Program) : Prop :=
  ∀ indices fewer : List Int, fewer ⊆ indices → accepts (program.without indices) = true →
    accepts (program.without fewer) = true

section Restorable

variable {accepts : Program → Bool} {p q r : Program} {indices : List Int}

/-- **What is accepted is accepted with less removed.** -/
theorem Restorable.accepts_of_thinned (h : Restorable accepts p) (hq : Thinned p q)
    (hr : Thinned q r) (haccepts : accepts r = true) : accepts q = true := by
  rw [(hq.trans hr).eq_without] at haccepts
  rw [hq.eq_without]
  exact h _ _ (List.map_subset _ (hr.removedPlaces_subset p)) haccepts

/-- What is left of a program is restored as the program is. -/
theorem Restorable.thinned (h : Restorable accepts p) (hq : Thinned p q) :
    Restorable accepts q := by
  intro indices fewer hsubset
  rw [hq.eq_without, Program.without_without, Program.without_without]
  exact h _ _ (List.append_subset.mpr ⟨List.subset_append_left _ _,
    List.subset_append_of_subset_right _ hsubset⟩)

/-- **What is refused stays refused when more is removed.** -/
theorem Restorable.refuses (h : Restorable accepts p) (hthinned : Thinned p q)
    (hrefuses : p.Refuses (fun c => (.ok (accepts c) : Except ε Bool)) indices) :
    q.Refuses (fun c => (.ok (accepts c) : Except ε Bool)) indices := by
  rcases hrefuses with hidle | hrejected
  · refine .inl (List.filter_eq_nil_iff.mpr fun idx hidx hlive => ?_)
    exact List.filter_eq_nil_iff.mp hidle idx hidx (hthinned.isLive hlive)
  · refine .inr (congrArg Except.ok (Bool.eq_false_iff.mpr fun haccepts => ?_))
    have hbefore := h.accepts_of_thinned (thinned_clear p indices) (hthinned.clear indices) haccepts
    simp [hbefore] at hrejected

theorem Restorable.refusesGroup (h : Restorable accepts p) (hthinned : Thinned p q)
    {group : BlockGroup}
    (hrefuses : p.RefusesGroup (fun c => (.ok (accepts c) : Except ε Bool)) group) :
    q.RefusesGroup (fun c => (.ok (accepts c) : Except ε Bool)) group :=
  ⟨h.refuses hthinned hrefuses.1, h.refuses hthinned hrefuses.2⟩

end Restorable

end FlatCode
