import Mathlib.Data.List.Chain
import FlatCode.Proofs.Block.Paired
import FlatCode.Proofs.Block.TreeGroups

/-!
# Chains of paired markers

The walk over a group goes from each boundary to its partner, through the dividers up to a group end
(`Chained`). It fails where a boundary has no partner. The boundaries of the groups of a tree are
such chains, and the groups begin at the group begins.

* `chained_or_runsOff` — the walk collects a chain, or the chain runs off the end of the markers
* `Items.chained_of_mem` — the groups of a tree are chains
* `Items.count_heads` — one group of a tree begins at each group begin
-/

namespace FlatCode

/-! ## The walk over a group -/

/-- A step of the walk: behind a divider of the group the level starts anew. -/
theorem walkOverGroup_cons (start depth idx : Nat) (m : Marker) (rest : List Marker) :
    walkOverGroup start (depth + 1) idx (m :: rest)
      = match m.next depth with
        | some next => walkOverGroup start (next + 1) (idx + 1) rest
        | none =>
          if m.opens then (walkOverGroup start 1 (idx + 1) rest).map (idx :: ·) else .ok [idx] := by
  rw [walkOverGroup]
  cases m with
  | plain => exact congrFun Except.map_id _
  | groupBegin => exact congrFun Except.map_id _
  | divider =>
    by_cases hzero : depth = 0
    · subst hzero
      rfl
    · have hbeq : (depth == 0) = false := beq_eq_false_iff_ne.mpr hzero
      simp only [Marker.next, Marker.closes, Marker.opens, hzero, hbeq, Bool.true_and, if_true,
        Bool.false_eq_true, if_false, Nat.add_sub_cancel, Nat.add_one_ne_zero]
      exact congrFun Except.map_id _
  | groupEnd =>
    by_cases hzero : depth = 0
    · subst hzero
      rfl
    · have hpos : depth - 1 + 1 = depth := by omega
      simp only [Marker.next, Marker.closes, Marker.opens, hzero, hpos, Bool.false_and, if_true,
        Bool.false_eq_true, if_false, Nat.add_sub_cancel]
      exact congrFun Except.map_id _

/-- **The walk leaves its level at a boundary**, and behind a divider it goes on. -/
theorem walkOverGroup_eq (start depth idx : Nat) (ms : List Marker) :
    walkOverGroup start (depth + 1) idx ms
      = match exit? depth idx ms with
        | none => .error (.groupNeverClosed start)
        | some x =>
          if x.marker.opens then
            (walkOverGroup start 1 (x.place + 1) x.behind).map (x.place :: ·)
          else .ok [x.place] := by
  induction ms generalizing depth idx with
  | nil => rfl
  | cons m ms ih =>
    rw [walkOverGroup_cons, exit?]
    cases m.next depth with
    | none => rfl
    | some next => exact ih next (idx + 1)

/-! ## Chains of paired markers -/

/-- The boundaries behind a place where a block begins. -/
def boundariesFrom (start : Nat) (ms : List Marker) (place : Nat) :
    Except StructureError (List Nat) :=
  walkOverGroup start 1 (place + 1) (ms.drop (place + 1))

/-- **The walk goes from a boundary to its partner.** -/
theorem boundariesFrom_of_paired {ms : List Marker} {b e : Nat} {m : Marker} (start : Nat)
    (h : Paired ms b e) (hm : ms[e]? = some m) :
    boundariesFrom start ms b
      = if m.opens then (boundariesFrom start ms e).map (e :: ·) else .ok [e] := by
  obtain ⟨closing, hclosing, -, hexit⟩ := exit?_of_paired h
  rw [hm] at hclosing
  cases hclosing
  rw [boundariesFrom, walkOverGroup_eq, hexit]
  rfl

/-- Without a partner there is no boundary to go to. -/
theorem boundariesFrom_of_not_paired {ms : List Marker} {b : Nat} {m : Marker} (start : Nat)
    (hm : ms[b]? = some m) (hopens : m.opens = true) (h : ∀ e, ¬Paired ms b e) :
    boundariesFrom start ms b = .error (.groupNeverClosed start) := by
  rw [boundariesFrom, walkOverGroup_eq]
  cases hexit : exit? 0 (b + 1) (ms.drop (b + 1)) with
  | none => rfl
  | some x => exact absurd (paired_of_exit? hm hopens hexit) (h _)

/-- Whether places are the boundaries of a group behind a place: each is the partner of the one in
front of it, the last is a group end and the others are dividers. -/
inductive Chained (ms : List Marker) : Nat → List Nat → Prop where
  | last {b e : Nat} (hpaired : Paired ms b e) (hend : ms[e]? = some .groupEnd) : Chained ms b [e]
  | next {b e : Nat} {rest : List Nat} (hpaired : Paired ms b e) (hdivider : ms[e]? = some .divider)
    (hrest : Chained ms e rest) : Chained ms b (e :: rest)

theorem boundariesFrom_of_chained {ms : List Marker} {b : Nat} {rest : List Nat} (start : Nat)
    (h : Chained ms b rest) : boundariesFrom start ms b = .ok rest := by
  induction h with
  | last hpaired hend =>
    rw [boundariesFrom_of_paired start hpaired hend]
    rfl
  | next hpaired hdivider hrest ih =>
    rw [boundariesFrom_of_paired start hpaired hdivider, if_pos (by rfl), ih]
    rfl

theorem Paired.closing {ms : List Marker} {b e : Nat} (h : Paired ms b e) :
    ms[e]? = some .divider ∨ ms[e]? = some .groupEnd := by
  obtain ⟨-, -, ⟨m, hm, hcloses⟩, -⟩ := paired_iff.mp h
  rw [hm]
  cases m with
  | plain => cases hcloses
  | groupBegin => cases hcloses
  | divider => exact .inl rfl
  | groupEnd => exact .inr rfl

/-- Whether a block begins at a place and no marker ends it. -/
def RunsOff (ms : List Marker) (b : Nat) : Prop :=
  (∃ m, ms[b]? = some m ∧ m.opens = true) ∧ ∀ e, ¬Paired ms b e

/-- **The walk collects a chain, or the chain runs off the end of the markers.** -/
theorem chained_or_runsOff {ms : List Marker} {b : Nat} {m : Marker} (start : Nat)
    (hm : ms[b]? = some m) (hopens : m.opens = true) :
    (∃ rest, Chained ms b rest ∧ boundariesFrom start ms b = .ok rest) ∨
      ∃ visited last, (b :: visited).IsChain (Paired ms) ∧
        (b :: visited).getLast? = some last ∧ RunsOff ms last ∧
        boundariesFrom start ms b = .error (.groupNeverClosed start) := by
  -- each partner is nearer to the end of the markers
  induction hleft : ms.length - b using Nat.strong_induction_on generalizing b m with
  | _ left ih =>
    by_cases hpaired : ∃ e, Paired ms b e
    · obtain ⟨e, hpaired⟩ := hpaired
      rcases hpaired.closing with hdivider | hend
      · obtain ⟨hlt, -⟩ := paired_iff.mp hpaired
        obtain ⟨hsize, -⟩ := List.getElem?_eq_some_iff.mp hdivider
        have hstep := boundariesFrom_of_paired start hpaired hdivider
        rw [if_pos (by rfl)] at hstep
        rcases ih (ms.length - e) (by omega) hdivider rfl rfl with
          ⟨rest, hrest, hlater⟩ | ⟨visited, last, hchain, hlast, hoff, hlater⟩
        · refine .inl ⟨e :: rest, .next hpaired hdivider hrest, ?_⟩
          rw [hstep, hlater]
          rfl
        · refine .inr ⟨e :: visited, last, .cons_cons hpaired hchain, ?_, hoff, ?_⟩
          · rw [List.getLast?_cons_cons]
            exact hlast
          · rw [hstep, hlater]
            rfl
      · exact .inl ⟨[e], .last hpaired hend, boundariesFrom_of_paired start hpaired hend⟩
    · have hnone := not_exists.mp hpaired
      exact .inr ⟨[], b, .singleton b, rfl, ⟨⟨m, hm, hopens⟩, hnone⟩,
        boundariesFrom_of_not_paired start hm hopens hnone⟩

theorem boundariesFrom_eq_ok_iff {ms : List Marker} {start b : Nat} {m : Marker}
    {rest : List Nat} (hm : ms[b]? = some m) (hopens : m.opens = true) :
    boundariesFrom start ms b = .ok rest ↔ Chained ms b rest := by
  constructor
  · intro h
    rcases chained_or_runsOff start hm hopens with ⟨rest', hchained, hwalk⟩ | ⟨_, _, _, _, _, hwalk⟩
    · rw [hwalk] at h
      cases h
      exact hchained
    · rw [hwalk] at h
      cases h
  · exact boundariesFrom_of_chained start

theorem Chained.paired {ms : List Marker} {b : Nat} {rest : List Nat} (h : Chained ms b rest) :
    (b :: rest).IsChain (Paired ms) := by
  induction h with
  | last hpaired hend => exact .cons_cons hpaired (.singleton _)
  | next hpaired hdivider hrest ih => exact .cons_cons hpaired ih

theorem Chained.eq_concat {ms : List Marker} {b : Nat} {rest : List Nat} (h : Chained ms b rest) :
    ∃ dividers last, rest = dividers ++ [last] ∧ ms[last]? = some .groupEnd ∧
      ∀ n ∈ dividers, ms[n]? = some .divider := by
  induction h with
  | last hpaired hend => exact ⟨[], _, rfl, hend, by simp⟩
  | next hpaired hdivider hrest ih =>
    obtain ⟨dividers, last, rfl, hlast, hdividers⟩ := ih
    exact ⟨_ :: dividers, last, rfl, hlast, List.forall_mem_cons.mpr ⟨hdivider, hdividers⟩⟩

theorem chained_of_isChain {ms : List Marker} {b last : Nat} {dividers : List Nat}
    (hchain : (b :: (dividers ++ [last])).IsChain (Paired ms)) (hlast : ms[last]? = some .groupEnd)
    (hdividers : ∀ n ∈ dividers, ms[n]? = some .divider) : Chained ms b (dividers ++ [last]) := by
  induction dividers generalizing b with
  | nil =>
    obtain ⟨hpaired, -⟩ := List.isChain_cons_cons.mp hchain
    exact .last hpaired hlast
  | cons n dividers ih =>
    obtain ⟨hpaired, hrest⟩ := List.isChain_cons_cons.mp hchain
    obtain ⟨hn, hdividers'⟩ := List.forall_mem_cons.mp hdividers
    exact .next hpaired hn (ih hrest hdividers')

/-! ## Chains of a tree -/

theorem drop_of_drop_append {α : Type} {items front back : List α} {idx : Nat}
    (h : items.drop idx = front ++ back) : items.drop (idx + front.length) = back := by
  rw [← List.drop_drop, h, List.drop_left]

theorem drop_of_drop_cons {α : Type} {items back : List α} {item : α} {idx : Nat}
    (h : items.drop idx = item :: back) : items.drop (idx + 1) = back := by
  rw [← List.drop_drop, h]
  rfl

theorem getElem?_of_drop_cons {α : Type} {items rest : List α} {item : α} {idx : Nat}
    (h : items.drop idx = item :: rest) : items[idx]? = some item := by
  have hzero : (items.drop idx)[0]? = items[idx + 0]? := List.getElem?_drop
  rw [h, Nat.add_zero] at hzero
  exact hzero.symm

theorem paired_of_drop {ms inner back : List Marker} {opening closing : Marker} {b : Nat}
    (h : ms.drop b = opening :: (inner ++ closing :: back)) (hopens : opening.opens = true)
    (hcloses : closing.closes = true) (hinner : Balanced inner) :
    Paired ms b (b + 1 + inner.length) := by
  have hlength : (ms.take b).length = b := by
    obtain ⟨hlt, -⟩ := List.getElem?_eq_some_iff.mp (getElem?_of_drop_cons h)
    rw [List.length_take]
    omega
  refine ⟨ms.take b, opening, inner, closing, back, ?_, hopens, hcloses, hinner, hlength.symm, ?_⟩
  · rw [← h, List.take_append_drop]
  · rw [hlength]

/-- The boundaries of the sections of a group are a chain, which starts where their first body
begins. -/
theorem Sections.chained : ∀ (s : Sections) {ms inner back : List Marker} {opening : Marker}
    {b : Nat}, ms.drop b = opening :: (inner ++ (s.markers ++ back)) → opening.opens = true →
    Balanced inner → Chained ms b (s.boundaries (b + 1 + inner.length))
  | .close, ms, inner, back, opening, b, h, hopens, hinner => by
    rw [Sections.markers, List.singleton_append] at h
    have hend : ms.drop (b + 1 + inner.length) = .groupEnd :: back :=
      drop_of_drop_append (drop_of_drop_cons h)
    rw [Sections.boundaries]
    exact .last (paired_of_drop h hopens rfl hinner) (getElem?_of_drop_cons hend)
  | .divide body more, ms, inner, back, opening, b, h, hopens, hinner => by
    rw [Sections.markers, List.cons_append, List.append_assoc] at h
    have hdivider : ms.drop (b + 1 + inner.length)
        = .divider :: (body.markers ++ (more.markers ++ back)) :=
      drop_of_drop_append (drop_of_drop_cons h)
    -- the divider begins the next block
    have hmore := Sections.chained more hdivider rfl (body.depthAfter_markers 0)
    rw [Sections.boundaries]
    exact .next (paired_of_drop h hopens rfl hinner) (getElem?_of_drop_cons hdivider) hmore

mutual

/-- **The boundaries of each group of items are a chain that starts at a group begin.** -/
theorem Items.chained_of_mem : ∀ (t : Items) {ms back : List Marker} {idx : Nat} {bs : List Nat},
    ms.drop idx = t.markers ++ back → bs ∈ t.groups idx →
    ∃ head rest, bs = head :: rest ∧ ms[head]? = some .groupBegin ∧ Chained ms head rest
  | .empty, ms, back, idx, bs, h, hbs => by
    rw [Items.groups] at hbs
    cases hbs
  | .plain rest, ms, back, idx, bs, h, hbs => by
    rw [Items.markers, List.cons_append] at h
    rw [Items.groups] at hbs
    exact Items.chained_of_mem rest (drop_of_drop_cons h) hbs
  | .group body more rest, ms, back, idx, bs, h, hbs => by
    rw [Items.markers, List.cons_append, List.append_assoc, List.append_assoc] at h
    have hbody : ms.drop (idx + 1)
        = body.markers ++ (more.markers ++ (rest.markers ++ back)) :=
      drop_of_drop_cons h
    have hmore := drop_of_drop_append hbody
    have hrest := drop_of_drop_append hmore
    rw [Items.groups, List.mem_append, List.mem_append, List.mem_cons] at hbs
    rcases hbs with hbs | hbs | rfl | hbs
    · exact Items.chained_of_mem body hbody hbs
    · exact Sections.chained_of_mem more hmore hbs
    · exact ⟨idx, _, rfl, getElem?_of_drop_cons h,
        Sections.chained more h rfl (body.depthAfter_markers 0)⟩
    · exact Items.chained_of_mem rest hrest hbs

theorem Sections.chained_of_mem : ∀ (s : Sections) {ms back : List Marker} {idx : Nat}
    {bs : List Nat}, ms.drop idx = s.markers ++ back → bs ∈ s.groups idx →
    ∃ head rest, bs = head :: rest ∧ ms[head]? = some .groupBegin ∧ Chained ms head rest
  | .close, ms, back, idx, bs, h, hbs => by
    rw [Sections.groups] at hbs
    cases hbs
  | .divide body more, ms, back, idx, bs, h, hbs => by
    rw [Sections.markers, List.cons_append, List.append_assoc] at h
    have hbody : ms.drop (idx + 1) = body.markers ++ (more.markers ++ back) :=
      drop_of_drop_cons h
    have hmore := drop_of_drop_append hbody
    rw [Sections.groups, List.mem_append] at hbs
    rcases hbs with hbs | hbs
    · exact Items.chained_of_mem body hbody hbs
    · exact Sections.chained_of_mem more hmore hbs

end

/-- Whether a marker begins a group. -/
def Marker.beginsGroup (m : Marker) : Bool := m.opens && !m.closes

mutual

/-- **The groups of items begin at the group begins**, one at each. -/
theorem Items.count_heads : ∀ (t : Items) (idx : Nat) (n : Option Nat),
    ((t.groups idx).map List.head?).count n
      = ((placesOf Marker.beginsGroup idx t.markers).map some).count n
  | .empty, idx, n => by
    rw [Items.groups, Items.markers]
    rfl
  | .plain rest, idx, n => by
    have hrest := Items.count_heads rest (idx + 1) n
    rw [Items.groups, Items.markers]
    exact hrest
  | .group body more rest, idx, n => by
    have hbody := Items.count_heads body (idx + 1) n
    have hmore := Sections.count_heads more (idx + 1 + body.markers.length) n
    have hrest := Items.count_heads rest (idx + 1 + body.markers.length + more.markers.length) n
    rw [Items.groups, Items.markers, placesOf, if_pos (by rfl), placesOf_append, placesOf_append]
    simp only [List.map_append, List.map_cons, List.count_append, List.count_cons,
      List.head?_cons] at *
    omega

theorem Sections.count_heads : ∀ (s : Sections) (idx : Nat) (n : Option Nat),
    ((s.groups idx).map List.head?).count n
      = ((placesOf Marker.beginsGroup idx s.markers).map some).count n
  | .close, idx, n => by
    rw [Sections.groups, Sections.markers]
    rfl
  | .divide body more, idx, n => by
    have hbody := Items.count_heads body (idx + 1) n
    have hmore := Sections.count_heads more (idx + 1 + body.markers.length) n
    rw [Sections.groups, Sections.markers, placesOf, if_neg (by decide), placesOf_append]
    simp only [List.map_append, List.count_append] at *
    omega

end

end FlatCode
