import FlatCode.Block.Error

/-!
# Depth-counting scans

The partner of a marker is found by walking over the markers with a count of open blocks. Forward
walks take the markers behind the start; backward walks take those in front of it, nearest first, so
that the number of markers left over is the index of the one just seen.

* `blockEnd` — forward, from a block begin to the end of that block
* `blockBegin` — backward, from a block end to the begin of that block
* `groupHead` — backward, to the begin of the innermost group around an instruction
* `groupBoundaries` — forward, all boundaries of the group that begins at an instruction

The walks to a block partner test the count before they count the other facet of the same marker,
the walk to a group head counts both facets first: a divider ends and begins a block, so it is a
partner of its neighbours and no head of a group.

## Termination

Each walk recurses on the list of markers.
-/

namespace FlatCode

/-! ## Walks over markers -/

/-- Walks to the marker that ends the block begun at `start`, with `depth` blocks open before the
marker `idx`. -/
def walkToEnd (start : Nat) : Nat → Nat → List Marker → Except StructureError Nat
  | _, _, [] => .error (.blockNeverClosed start)
  | depth, idx, m :: rest =>
    let depth := if m.closes then depth - 1 else depth
    if depth = 0 then if m.closes then .ok idx else .error (.closesOnNonEnd start idx)
    else walkToEnd start (if m.opens then depth + 1 else depth) (idx + 1) rest

/-- Walks back to the marker that begins the block ended at `stop`. -/
def walkToBegin (stop : Nat) : Nat → List Marker → Except StructureError Nat
  | _, [] => .error (.blockNeverOpened stop)
  | depth, m :: rest =>
    let depth := if m.opens then depth - 1 else depth
    if depth = 0 then if m.opens then .ok rest.length else .error (.opensOnNonBegin stop rest.length)
    else walkToBegin stop (if m.closes then depth + 1 else depth) rest

/-- Walks back to the marker that begins the group around `start`. -/
def walkToHead (start : Nat) : Nat → List Marker → Except StructureError Nat
  | _, [] => .error (.noGroupAround start)
  | depth, m :: rest =>
    let depth := if m.opens then depth - 1 else depth
    let depth := if m.closes then depth + 1 else depth
    if depth = 0 then
      if m = .groupBegin then .ok rest.length else .error (.opensOnNonGroupBegin start rest.length)
    else walkToHead start depth rest

/-- Walks over the group begun at `start` and collects its boundaries behind the first. -/
def walkOverGroup (start : Nat) : Nat → Nat → List Marker → Except StructureError (List Nat)
  | _, _, [] => .error (.groupNeverClosed start)
  | depth, idx, m :: rest =>
    let depth := if m.closes then depth - 1 else depth
    let boundary := m.opens && depth == 0
    let depth := if m.opens then depth + 1 else depth
    if depth = 0 then
      if m = .groupEnd then .ok [idx] else .error (.closesOnNonGroupEnd start idx)
    else
      (walkOverGroup start depth (idx + 1) rest).map fun later =>
        if boundary then idx :: later else later

/-! ## Questions about a program -/

namespace Program

/-- The place of the instruction at an index; negative indices are none. -/
def place (program : Program) (idx : Int) : Except StructureError Nat :=
  if 0 ≤ idx ∧ idx < program.size then .ok idx.toNat else .error (.outOfRange idx program.size)

/-- The place of the instruction at an index, which has to have a facet. -/
def placeWith (program : Program) (idx : Int) (facet : Facet) : Except StructureError Nat :=
  match program.place idx with
  | .error e => .error e
  | .ok n =>
    match program.instructions[n]? with
    | none => .error (.outOfRange idx program.size)
    | some instr => if facet.holds instr then .ok n else .error (.lacksFacet n instr.name facet)

/-- The markers behind a place. -/
def markersAfter (program : Program) (n : Nat) : List Marker := program.markers.drop (n + 1)

/-- The markers in front of a place, nearest first. -/
def markersBefore (program : Program) (n : Nat) : List Marker := (program.markers.take n).reverse

/-- The end of the block that begins at an index. -/
def blockEnd (program : Program) (start : Int) : Except StructureError Nat :=
  match program.placeWith start .blockBegin with
  | .error e => .error e
  | .ok n => walkToEnd n 1 (n + 1) (program.markersAfter n)

/-- The begin of the block that ends at an index. -/
def blockBegin (program : Program) (stop : Int) : Except StructureError Nat :=
  match program.placeWith stop .blockEnd with
  | .error e => .error e
  | .ok n => walkToBegin n 1 (program.markersBefore n)

/-- The begin of the innermost group around an index; a group begin is its own. -/
def groupHead (program : Program) (idx : Int) : Except StructureError Nat :=
  match program.place idx with
  | .error e => .error e
  | .ok n =>
    if program.markers[n]? = some .groupBegin then .ok n
    else walkToHead n 1 (program.markersBefore n)

/-- The boundaries of the group that begins at an index. -/
def groupBoundaries (program : Program) (start : Int) : Except StructureError (List Nat) :=
  match program.placeWith start .groupBegin with
  | .error e => .error e
  | .ok n => (walkOverGroup n 1 (n + 1) (program.markersAfter n)).map (n :: ·)

end Program

end FlatCode
