import FlatCode.Text.CodePoint

/-!
# Operations

An operation is a name with three facets: it may begin a block, end a block, and be simple, which
means that a reduction may remove its instructions one by one. The two block facets together make
its `Marker`: what an instruction of the operation does to the nesting.

The built-in operations are the table `Operation.builtins`; markers are never simple there.
-/

namespace FlatCode

/-! ## Markers -/

/-- What an instruction does to the nesting of blocks. -/
inductive Marker where
  /-- Nothing. -/
  | plain
  /-- It begins a block and with it a group. -/
  | groupBegin
  /-- It ends a block and begins the next one of the same group. -/
  | divider
  /-- It ends a block and with it the group. -/
  | groupEnd
  deriving DecidableEq, Repr

/-- Whether a block begins here. -/
def Marker.opens : Marker → Bool
  | .groupBegin | .divider => true
  | .plain | .groupEnd => false

/-- Whether a block ends here. -/
def Marker.closes : Marker → Bool
  | .divider | .groupEnd => true
  | .plain | .groupBegin => false

/-- The marker of two facets. -/
def Marker.ofFacets (opens closes : Bool) : Marker :=
  match opens, closes with
  | false, false => .plain
  | true, false => .groupBegin
  | true, true => .divider
  | false, true => .groupEnd

@[simp] theorem Marker.opens_ofFacets (opens closes : Bool) :
    (Marker.ofFacets opens closes).opens = opens := by
  cases opens <;> cases closes <;> rfl

@[simp] theorem Marker.closes_ofFacets (opens closes : Bool) :
    (Marker.ofFacets opens closes).closes = closes := by
  cases opens <;> cases closes <;> rfl

/-! ## Operations -/

/-- A named operation and its facets. -/
structure Operation where
  name : Text
  blockBegin : Bool := false
  blockEnd : Bool := false
  simple : Bool := false
  deriving DecidableEq, Repr

namespace Operation

/-- What its instructions do to the nesting. -/
def marker (op : Operation) : Marker := .ofFacets op.blockBegin op.blockEnd

/-- Whether a group begins: a block begins and none ends. -/
def groupBegin (op : Operation) : Bool := op.blockBegin && !op.blockEnd

/-- Whether a group ends: a block ends and none begins. -/
def groupEnd (op : Operation) : Bool := op.blockEnd && !op.blockBegin

/-- The operation that does nothing; removed instructions become it. -/
def nop : Operation := { name := "Nop", simple := true }

/-- The operation whose instructions are remarks; a reduction keeps them. -/
def comment : Operation := { name := "Comment", simple := true }

/-- A simple operation. -/
def ofSimple (name : Text) : Operation := { name, simple := true }

/-- An operation that begins a group. -/
def ofBegin (name : Text) : Operation := { name, blockBegin := true }

/-- An operation that ends a block and begins the next. -/
def ofDivider (name : Text) : Operation := { name, blockBegin := true, blockEnd := true }

/-- An operation that ends a group. -/
def ofEnd (name : Text) : Operation := { name, blockEnd := true }

/-- The built-in operations, in the order in which they are listed. -/
def builtins : List Operation :=
  [nop, comment,
    ofSimple "LoadInteger", ofSimple "LoadFloat", ofSimple "LoadString", ofSimple "LoadBoolean",
    ofSimple "LoadUndefined", ofSimple "LoadNull", ofSimple "LoadBuiltin",
    ofSimple "CreateObject", ofSimple "CreateArray",
    ofSimple "LoadProperty", ofSimple "StoreProperty", ofSimple "DeleteProperty",
    ofSimple "LoadElement", ofSimple "StoreElement",
    ofSimple "CallFunction", ofSimple "CallMethod", ofSimple "Construct",
    ofSimple "UnaryOperation", ofSimple "BinaryOperation", ofSimple "Compare",
    ofSimple "Reassign", ofSimple "TypeOf",
    ofSimple "Return", ofSimple "Break", ofSimple "Continue", ofSimple "ThrowException",
    ofBegin "BeginIf", ofDivider "BeginElse", ofEnd "EndIf",
    ofBegin "BeginWhileLoop", ofEnd "EndWhileLoop",
    ofBegin "BeginDoWhileLoop", ofEnd "EndDoWhileLoop",
    ofBegin "BeginForLoop", ofEnd "EndForLoop",
    ofBegin "BeginForInLoop", ofEnd "EndForInLoop",
    ofBegin "BeginForOfLoop", ofEnd "EndForOfLoop",
    ofBegin "BeginTry", ofDivider "BeginCatch", ofDivider "BeginFinally", ofEnd "EndTryCatch",
    ofBegin "BeginFunctionDefinition", ofEnd "EndFunctionDefinition",
    ofBegin "BeginWith", ofEnd "EndWith"]

end Operation

end FlatCode
