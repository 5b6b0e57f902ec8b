import FlatCode.Proofs.Json.Unambiguous

/-!
# Text that forgets the order of fields

The canonical style writes the fields of every object by name. Two values have the same canonical
text if and only if one is the other with the fields of its objects in another order, at any depth.
Numbers that are equal by value stay apart: an integer and a double have different texts, and so
have the two zeros.

A canonical text is the plain text of an ordered value. Ordering erases the order of fields if the
keys of each object differ, and plain text tells the ordered value.

* `Rearranged` — values that differ in the order of fields only
* `writeAt_canonical` — canonical text is the text of the ordered value
* `ordered_eq_iff` — ordering forgets the order of fields and nothing else
* `Rearranged.write_canonical_eq`, `rearranged_of_write_canonical_eq` — so does canonical text
-/

namespace FlatCode.Json

open Number

/-! ## Values up to the order of fields -/

mutual

/-- Whether a value is another one with the fields of its objects in another order. Doubles are
compared by their texts. -/
inductive Rearranged : Json → Json → Prop where
  | null : Rearranged .null .null
  | bool (b : Bool) : Rearranged (.bool b) (.bool b)
  | int (n : Int) : Rearranged (.int n) (.int n)
  | float {x y : Binary64} (h : writeFloat x = writeFloat y) : Rearranged (.float x) (.float y)
  | string (s : Text) : Rearranged (.string s) (.string s)
  | array {items others : List Json} (h : RearrangedItems items others) :
      Rearranged (.array items) (.array others)
  | object {fields middle others : List (Text × Json)} (hperm : fields.Perm middle)
      (h : RearrangedFields middle others) : Rearranged (.object fields) (.object others)

/-- Whether items are others up to the order of fields inside them, in the same places. -/
inductive RearrangedItems : List Json → List Json → Prop where
  | nil : RearrangedItems [] []
  | cons {item other : Json} {rest rest' : List Json} (h : Rearranged item other)
      (hrest : RearrangedItems rest rest') : RearrangedItems (item :: rest) (other :: rest')

/-- Whether fields have the same names as others and values that are others up to the order of
fields, in the same places. -/
inductive RearrangedFields : List (Text × Json) → List (Text × Json) → Prop where
  | nil : RearrangedFields [] []
  | cons {name : Text} {value other : Json} {rest rest' : List (Text × Json)}
      (h : Rearranged value other) (hrest : RearrangedFields rest rest') :
      RearrangedFields ((name, value) :: rest) ((name, other) :: rest')

end

/-- Items are others up to the order of fields if they are so place by place. -/
theorem rearrangedItems_iff {items others : List Json} :
    RearrangedItems items others ↔ items.length = others.length ∧
      ∀ (n : Nat) (item other : Json), items[n]? = some item → others[n]? = some other →
        Rearranged item other := by
  induction items generalizing others with
  | nil =>
    cases others with
    | nil => exact ⟨fun _ => ⟨rfl, nofun⟩, fun _ => .nil⟩
    | cons other others => exact ⟨nofun, fun h => absurd h.1 (by simp)⟩
  | cons item items ih =>
    cases others with
    | nil => exact ⟨nofun, fun h => absurd h.1 (by simp)⟩
    | cons other others =>
      constructor
      · intro h
        cases h with
        | cons hfirst hrest =>
          obtain ⟨hlength, hplaces⟩ := ih.mp hrest
          refine ⟨congrArg (· + 1) hlength, fun n x y hx hy => ?_⟩
          cases n with
          | zero =>
            obtain rfl := Option.some.inj hx
            obtain rfl := Option.some.inj hy
            exact hfirst
          | succ n => exact hplaces n x y hx hy
      · rintro ⟨hlength, hplaces⟩
        exact .cons (hplaces 0 item other rfl rfl)
          (ih.mpr ⟨Nat.succ.inj hlength, fun n => hplaces (n + 1)⟩)

mutual

/-- Whether no key is repeated, in the objects of a value at any depth. -/
def DistinctKeys : Json → Prop
  | .array items => DistinctKeysItems items
  | .object fields => (fields.map Prod.fst).Nodup ∧ DistinctKeysFields fields
  | .null | .bool _ | .int _ | .float _ | .string _ => True

/-- Whether no key is repeated in any of the items. -/
def DistinctKeysItems : List Json → Prop
  | [] => True
  | item :: rest => DistinctKeys item ∧ DistinctKeysItems rest

/-- Whether no key is repeated in any of the values. -/
def DistinctKeysFields : List (Text × Json) → Prop
  | [] => True
  | (_, value) :: rest => DistinctKeys value ∧ DistinctKeysFields rest

end

theorem distinctKeysItems_iff {items : List Json} :
    DistinctKeysItems items ↔ ∀ item ∈ items, DistinctKeys item := by
  induction items with
  | nil => simp [DistinctKeysItems]
  | cons item rest ih => rw [DistinctKeysItems, ih, List.forall_mem_cons]

theorem distinctKeysFields_iff {fields : List (Text × Json)} :
    DistinctKeysFields fields ↔ ∀ field ∈ fields, DistinctKeys field.2 := by
  induction fields with
  | nil => simp [DistinctKeysFields]
  | cons field rest ih => rw [DistinctKeysFields, ih, List.forall_mem_cons]

/-! ## Ordered values -/

mutual

/-- The value with the fields of every object by name. -/
def ordered : Json → Json
  | .array items => .array (orderedItems items)
  | .object fields => .object ((orderedFields fields).mergeSort fieldLe)
  | .null => .null
  | .bool b => .bool b
  | .int n => .int n
  | .float x => .float x
  | .string s => .string s

/-- Ordered items, in their places. -/
def orderedItems : List Json → List Json
  | [] => []
  | item :: rest => ordered item :: orderedItems rest

/-- Fields with ordered values, in their places. -/
def orderedFields : List (Text × Json) → List (Text × Json)
  | [] => []
  | (name, value) :: rest => (name, ordered value) :: orderedFields rest

end

theorem orderedItems_eq_map (items : List Json) : orderedItems items = items.map ordered := by
  induction items with
  | nil => rfl
  | cons item rest ih => rw [orderedItems, ih, List.map_cons]

/-- A field with its value ordered. -/
def orderedField (field : Text × Json) : Text × Json := (field.1, ordered field.2)

theorem orderedFields_eq_map (fields : List (Text × Json)) :
    orderedFields fields = fields.map orderedField := by
  induction fields with
  | nil => rfl
  | cons field rest ih => rw [orderedFields, ih, List.map_cons, orderedField]

/-- Ordering keeps the keys of an object. -/
theorem map_fst_orderedField (fields : List (Text × Json)) :
    (fields.map orderedField).map Prod.fst = fields.map Prod.fst := by
  rw [List.map_map]
  rfl

/-! ## Canonical text -/

/-- Fields are put in order by name, before or after their values are written. -/
theorem writeFields_mergeSort (style : Style) (depth : Nat) (fields : List (Text × Json)) :
    writeFields style depth (fields.mergeSort fieldLe)
      = (writeFields style depth fields).mergeSort fieldLe := by
  rw [writeFields_eq_map, writeFields_eq_map]
  refine List.map_mergeSort fun a _ b _ => ?_
  rfl

mutual

/-- **Canonical text is the plain text of the ordered value.** -/
theorem writeAt_canonical (depth : Nat) :
    ∀ value : Json, writeAt .canonical depth value = writeAt .spaced depth (ordered value)
  | .null => by rw [ordered, writeAt, writeAt]
  | .bool b => by cases b <;> rw [ordered, writeAt, writeAt]
  | .int n => by rw [ordered, writeAt, writeAt]
  | .float x => by rw [ordered, writeAt, writeAt]
  | .string s => by rw [ordered, writeAt, writeAt]
  | .array items => by
    rw [ordered, writeAt, writeAt, writeItems_canonical]
    rfl
  | .object fields => by
    rw [ordered, writeAt, writeAt, writeFields_canonical, writeFields_mergeSort]
    rfl

theorem writeItems_canonical (depth : Nat) :
    ∀ items : List Json,
      writeItems .canonical depth items = writeItems .spaced depth (orderedItems items)
  | [] => rfl
  | item :: rest => by
    rw [orderedItems, writeItems, writeItems, writeAt_canonical, writeItems_canonical]

theorem writeFields_canonical (depth : Nat) :
    ∀ fields : List (Text × Json),
      writeFields .canonical depth fields = writeFields .spaced depth (orderedFields fields)
  | [] => rfl
  | (name, value) :: rest => by
    rw [orderedFields, writeFields, writeFields, writeAt_canonical, writeFields_canonical]

end

/-! ## Ordering erases the order of fields -/

/-- Fields with the same key are the same if no key is repeated. -/
theorem eq_of_mem_of_nodup {α : Type} {fields : List (Text × α)} {f g : Text × α}
    (hkeys : (fields.map Prod.fst).Nodup) (hf : f ∈ fields) (hg : g ∈ fields)
    (h : f.1 = g.1) : f = g := by
  induction fields with
  | nil => cases hf
  | cons head rest ih =>
    rw [List.map_cons, List.nodup_cons] at hkeys
    have hhead : ∀ {field : Text × α}, field ∈ rest → field.1 ≠ head.1 :=
      fun hmem heq => hkeys.1 (heq ▸ List.mem_map_of_mem hmem)
    cases hf with
    | head =>
      cases hg with
      | head => rfl
      | tail _ hg => exact absurd h.symm (hhead hg)
    | tail _ hf =>
      cases hg with
      | head => exact absurd h (hhead hf)
      | tail _ hg => exact ih hkeys.2 hf hg

/-- Fields whose keys differ are ordered in one way only. -/
theorem mergeSort_eq_of_perm {α : Type} {fields others : List (Text × α)}
    (hperm : fields.Perm others) (hkeys : (fields.map Prod.fst).Nodup) :
    fields.mergeSort fieldLe = others.mergeSort fieldLe := by
  have hsorted : ∀ l : List (Text × α),
      (l.mergeSort fieldLe).Pairwise fun a b => fieldLe a b = true :=
    List.pairwise_mergeSort (fun _ _ _ hab hbc => Text.le_trans hab hbc)
      fun a b => Bool.or_eq_true_iff.mpr (Text.le_total a.1 b.1)
  refine List.Perm.eq_of_pairwise (fun a b ha hb hab hba => ?_) (hsorted fields) (hsorted others)
    ((List.mergeSort_perm _ _).trans (hperm.trans (List.mergeSort_perm _ _).symm))
  exact eq_of_mem_of_nodup hkeys ((List.mergeSort_perm _ _).mem_iff.mp ha)
    (hperm.mem_iff.mpr ((List.mergeSort_perm _ _).mem_iff.mp hb)) (Text.le_antisymm hab hba)

theorem writeFloat_injective {x y : Binary64} (h : writeFloat x = writeFloat y) : x = y := by
  have hsame : write .spaced (.float x) = write .spaced (.float y) := by
    rw [write, write, writeAt, writeAt, h]
  exact Json.float.inj (write_injective Style.spaced_plain trivial trivial hsame)

mutual

/-- **Values that differ in the order of fields only are ordered alike**, if no key is repeated. -/
theorem Rearranged.ordered_eq : ∀ {value other : Json}, Rearranged value other →
    DistinctKeys value → ordered value = ordered other
  | _, _, .null, _ => rfl
  | _, _, .bool _, _ => rfl
  | _, _, .int _, _ => rfl
  | _, _, .float h, _ => by rw [writeFloat_injective h]
  | _, _, .string _, _ => rfl
  | _, _, .array h, hkeys => by
    rw [DistinctKeys] at hkeys
    rw [ordered, ordered, h.ordered_eq hkeys]
  | _, _, .object hperm h, hkeys => by
    rw [DistinctKeys, distinctKeysFields_iff] at hkeys
    have hmiddle := h.ordered_eq
      (distinctKeysFields_iff.mpr fun field hfield => hkeys.2 field (hperm.mem_iff.mpr hfield))
    rw [ordered, ordered, ← hmiddle, orderedFields_eq_map, orderedFields_eq_map,
      mergeSort_eq_of_perm (hperm.map _) (by rw [map_fst_orderedField]; exact hkeys.1)]

theorem RearrangedItems.ordered_eq : ∀ {items others : List Json}, RearrangedItems items others →
    DistinctKeysItems items → orderedItems items = orderedItems others
  | _, _, .nil, _ => rfl
  | _, _, .cons h hrest, hkeys => by
    rw [DistinctKeysItems] at hkeys
    rw [orderedItems, orderedItems, h.ordered_eq hkeys.1, hrest.ordered_eq hkeys.2]

theorem RearrangedFields.ordered_eq : ∀ {fields others : List (Text × Json)},
    RearrangedFields fields others → DistinctKeysFields fields →
      orderedFields fields = orderedFields others
  | _, _, .nil, _ => rfl
  | _, _, .cons h hrest, hkeys => by
    rw [DistinctKeysFields] at hkeys
    rw [orderedFields, orderedFields, h.ordered_eq hkeys.1, hrest.ordered_eq hkeys.2]

end

/-! ## Ordering keeps all else -/

/-- A list whose image is another in a different order can be put in the order of that list. -/
theorem exists_perm_map_eq {α β : Type} {f : α → β} {image image' : List β}
    (h : image.Perm image') :
    ∀ {l : List α}, l.map f = image → ∃ l', l.Perm l' ∧ l'.map f = image' := by
  induction h with
  | nil => exact fun hl => ⟨_, .refl _, hl⟩
  | @cons b rest rest' _ ih =>
    intro l hl
    obtain ⟨a, l, rfl, rfl, hrest⟩ := List.map_eq_cons_iff.mp hl
    obtain ⟨l', hperm, hl'⟩ := ih hrest
    exact ⟨a :: l', hperm.cons a, by rw [List.map_cons, hl']⟩
  | swap b c rest =>
    intro l hl
    obtain ⟨a, l, rfl, rfl, hrest⟩ := List.map_eq_cons_iff.mp hl
    obtain ⟨a', l, rfl, rfl, rfl⟩ := List.map_eq_cons_iff.mp hrest
    exact ⟨a' :: a :: l, .swap a' a l, rfl⟩
  | trans _ _ ih ih' =>
    intro l hl
    obtain ⟨middle, hperm, hmiddle⟩ := ih hl
    obtain ⟨l', hperm', hl'⟩ := ih' hmiddle
    exact ⟨l', hperm.trans hperm', hl'⟩

theorem rearrangedItems_of_map_eq {items : List Json}
    (h : ∀ item ∈ items, ∀ other, ordered item = ordered other → Rearranged item other) :
    ∀ {others : List Json}, items.map ordered = others.map ordered →
      RearrangedItems items others := by
  induction items with
  | nil =>
    intro others hmap
    rw [List.map_eq_nil_iff.mp hmap.symm]
    exact .nil
  | cons item rest ih =>
    intro others hmap
    obtain ⟨other, others, rfl, hother, hrest⟩ := List.map_eq_cons_iff.mp hmap.symm
    exact .cons (h item List.mem_cons_self other hother.symm)
      (ih (fun i hi => h i (List.mem_cons_of_mem item hi)) hrest.symm)

theorem rearrangedFields_of_map_eq {fields : List (Text × Json)}
    (h : ∀ field ∈ fields, ∀ other, ordered field.2 = ordered other → Rearranged field.2 other) :
    ∀ {others : List (Text × Json)}, fields.map orderedField = others.map orderedField →
      RearrangedFields fields others := by
  induction fields with
  | nil =>
    intro others hmap
    rw [List.map_eq_nil_iff.mp hmap.symm]
    exact .nil
  | cons field rest ih =>
    intro others hmap
    obtain ⟨⟨name, other⟩, others, rfl, hother, hrest⟩ := List.map_eq_cons_iff.mp hmap.symm
    obtain ⟨hname, hvalue⟩ := Prod.mk.inj hother
    obtain ⟨name', value⟩ := field
    obtain rfl : name = name' := hname
    exact .cons (h _ List.mem_cons_self other hvalue.symm)
      (ih (fun f hf => h f (List.mem_cons_of_mem _ hf)) hrest.symm)

/-- **Values that are ordered alike differ in the order of fields only.** -/
theorem rearranged_of_ordered_eq : ∀ (value other : Json), ordered value = ordered other →
    Rearranged value other
  | .array items, other, h => by
    cases other with
    | array others =>
      simp only [ordered, orderedItems_eq_map, Json.array.injEq] at h
      refine .array (rearrangedItems_of_map_eq (fun item hitem other heq => ?_) h)
      have hweight := weight_le_of_mem hitem
      exact rearranged_of_ordered_eq item other heq
    | null | bool b | int n | float x | string s | object fields => simp [ordered] at h
  | .object fields, other, h => by
    cases other with
    | object others =>
      simp only [ordered, orderedFields_eq_map, Json.object.injEq] at h
      have hperm : (fields.map orderedField).Perm (others.map orderedField) :=
        (List.mergeSort_perm _ fieldLe).symm.trans (h ▸ List.mergeSort_perm _ _)
      obtain ⟨middle, hmiddle, hmap⟩ := exists_perm_map_eq hperm rfl
      refine .object hmiddle (rearrangedFields_of_map_eq (fun field hfield other heq => ?_) hmap)
      have hweight := weight_le_of_mem_fields (hmiddle.mem_iff.mpr hfield)
      exact rearranged_of_ordered_eq field.2 other heq
    | null | bool b | int n | float x | string s | array items => simp [ordered] at h
  | .null, other, h => by
    cases other <;> simp [ordered] at h
    exact .null
  | .bool b, other, h => by
    cases other <;> simp [ordered] at h
    exact h ▸ .bool b
  | .int n, other, h => by
    cases other <;> simp [ordered] at h
    exact h ▸ .int n
  | .float x, other, h => by
    cases other <;> simp [ordered] at h
    exact .float (congrArg writeFloat h)
  | .string s, other, h => by
    cases other <;> simp [ordered] at h
    exact h ▸ .string s
termination_by value => weight value
decreasing_by
  · rw [weight]
    omega
  · rw [weight]
    omega

/-- **Ordering forgets the order of fields and nothing else.** -/
theorem ordered_eq_iff {value other : Json} (h : DistinctKeys value) :
    ordered value = ordered other ↔ Rearranged value other :=
  ⟨rearranged_of_ordered_eq value other, fun hsame => hsame.ordered_eq h⟩

mutual

theorem pairFree_ordered : ∀ {value : Json}, PairFree value → PairFree (ordered value)
  | .array items, h => by
    rw [PairFree] at h
    rw [ordered, PairFree]
    exact pairFreeItems_ordered h
  | .object fields, h => by
    rw [PairFree] at h
    rw [ordered, PairFree, pairFreeFields_iff]
    exact fun field hfield =>
      pairFreeFields_iff.mp (pairFreeFields_ordered h) field
        ((List.mergeSort_perm _ _).mem_iff.mp hfield)
  | .null, h | .bool _, h | .int _, h | .float _, h | .string _, h => by rwa [ordered]

theorem pairFreeItems_ordered : ∀ {items : List Json}, PairFreeItems items →
    PairFreeItems (orderedItems items)
  | [], _ => trivial
  | _ :: _, h => by
    rw [PairFreeItems] at h
    rw [orderedItems, PairFreeItems]
    exact ⟨pairFree_ordered h.1, pairFreeItems_ordered h.2⟩

theorem pairFreeFields_ordered : ∀ {fields : List (Text × Json)}, PairFreeFields fields →
    PairFreeFields (orderedFields fields)
  | [], _ => trivial
  | _ :: _, h => by
    rw [PairFreeFields] at h
    rw [orderedFields, PairFreeFields]
    exact ⟨h.1, pairFree_ordered h.2.1, pairFreeFields_ordered h.2.2⟩

end

/-- Canonical text forgets the order of fields. -/
theorem Rearranged.write_canonical_eq {value other : Json} (h : Rearranged value other)
    (hkeys : DistinctKeys value) : write .canonical value = write .canonical other := by
  rw [write, write, writeAt_canonical, writeAt_canonical, (ordered_eq_iff hkeys).mpr h]

/-- **Canonical text forgets nothing else**, where no halves of a pair stand side by side. -/
theorem rearranged_of_write_canonical_eq {value other : Json} (hvalue : PairFree value)
    (hother : PairFree other) (h : write .canonical value = write .canonical other) :
    Rearranged value other := by
  rw [write, write, writeAt_canonical, writeAt_canonical] at h
  exact rearranged_of_ordered_eq value other
    (write_injective Style.spaced_plain (pairFree_ordered hvalue) (pairFree_ordered hother) h)

end FlatCode.Json
