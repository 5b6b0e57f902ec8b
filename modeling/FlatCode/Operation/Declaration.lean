import FlatCode.Operation.Basic
import FlatCode.Text.Blank
import FlatCode.Text.Letter
import FlatCode.Text.Lines
import FlatCode.Json.Reader

/-!
# Declarations of operations

An operation can be declared as a value (a JSON object with a name and facets), in a small text
schema (`Name: begin, end, simple`, a line each), or in lists of such declarations nested to any
depth; a string among them may hold the schema or JSON text again. `Declaration.operations` flattens
all of that into the operations in the order in which they are written.

A name is trimmed and starts with a letter. A facet holds if its value counts as true.

## Termination

Following a JSON text inside a value gives a new value, which may be nested deeper. The measure is
`Json.weight`: a decoded value weighs at most as much as the text is long (`Json.weight_read`), and
the string that holds the text weighs one more.
-/

namespace FlatCode

open Text

/-! ## Errors -/

/-- The kinds of value that declare nothing. -/
inductive ScalarKind where
  | int
  | float
  | bool
  deriving DecidableEq, Repr

/-- How a kind is named in a message. -/
def ScalarKind.name : ScalarKind → String
  | .int => "int"
  | .float => "float"
  | .bool => "bool"

/-- Why operations are not declared, registered or found. -/
inductive DeclarationError where
  /-- The name is missing or blank. -/
  | nameMissing
  /-- The name is a value, but no text. -/
  | nameNotText
  /-- The name starts with something else than a letter. -/
  | nameNotLetter (name : Text)
  /-- A line of the schema is no declaration. -/
  | malformedEntry (entry : Text)
  /-- A line of the schema has an unknown flag. -/
  | unknownFlag (flag entry : Text)
  /-- A string that starts like JSON is no JSON text. -/
  | malformedText (error : Json.TextError)
  /-- An object was asked for. -/
  | notObject
  /-- A number or a boolean declares nothing. -/
  | unsupported (kind : ScalarKind)
  /-- The name is taken. -/
  | duplicate (name : Text)
  /-- No operation has the name. -/
  | unknown (name : Text)
  deriving DecidableEq, Repr

/-- The wording of an error. -/
def DeclarationError.message : DeclarationError → Text
  | .nameMissing => "Operation declaration requires a name"
  | .nameNotText => "Operation name must be a text"
  | .nameNotLetter name => "Operation name must start with a letter: " ++ name
  | .malformedEntry entry => "Invalid inline operation declaration: " ++ entry
  | .unknownFlag flag entry => "Unknown operation flag '" ++ flag ++ "' in: " ++ entry
  | .malformedText error => error.message
  | .notObject => "Operation declaration must be built from a mapping"
  | .unsupported kind => s!"Unsupported operation spec type: <class '{kind.name}'>"
  | .duplicate name => "Duplicate operation declaration for " ++ name
  | .unknown name => "Unknown operation '" ++ name ++ "'"

/-! ## One operation -/

namespace Operation

/-- The operation of a name, trimmed, and facets. -/
def declare (name : Text) (blockBegin blockEnd simple : Bool) :
    Except DeclarationError Operation :=
  match trim name with
  | [] => .error .nameMissing
  | c :: rest =>
    if isLetter c then .ok { name := c :: rest, blockBegin, blockEnd, simple }
    else .error (.nameNotLetter (c :: rest))

/-- The operation of a name and facets that are given as values. A name that counts as false is a
missing one. -/
def ofValues (name blockBegin blockEnd simple : Json) : Except DeclarationError Operation :=
  match name with
  | .string s => declare s blockBegin.truthy blockEnd.truthy simple.truthy
  | value => .error (if value.truthy then .nameNotText else .nameMissing)

/-- The operation of the fields of an object. The block facets have a long and a short name; the
long one wins. -/
def ofFields (fields : List (Text × Json)) : Except DeclarationError Operation :=
  let find (key : Text) (default : Json) : Json := (Json.field? key fields).getD default
  ofValues (find "name" .null)
    (find "block_begin" (find "begin" (.bool false)))
    (find "block_end" (find "end" (.bool false)))
    (find "simple" (.bool false))

/-- The operation that a value declares; it has to be an object. -/
def ofJson : Json → Except DeclarationError Operation
  | .object fields => ofFields fields
  | _ => .error .notObject

/-! ## The text schema -/

/-- The characters of a name in the schema: ASCII letters, digits and the underscore. -/
def isNameChar : CodePoint → Bool
  | .char c => c.isAlpha || c.isDigit || c == '_'
  | .surrogate _ => false

/-- The characters behind the colon: small ASCII letters, commas and blanks. -/
def isFlagChar : CodePoint → Bool
  | .char c => c.isLower || c == ',' || isBlank (.char c)
  | .surrogate _ => false

/-- The parts of a text between commas. -/
def splitCommas : Text → List Text
  | [] => [[]]
  | c :: rest => if c = .char ',' then [] :: splitCommas rest else extendFirst c (splitCommas rest)

/-- The name and the flags of a line of the schema, cut at the colon. -/
def splitEntry? (entry : Text) : Option (Text × Text) :=
  match entry.takeWhile isNameChar, dropBlanks (entry.dropWhile isNameChar) with
  | .char c :: name, .char ':' :: flags =>
    if !c.isDigit && flags.all isFlagChar then some (.char c :: name, flags) else none
  | _, _ => none

/-- The flags that are set, without empty ones. -/
def flagWords (flags : Text) : List Text :=
  ((splitCommas flags).map trim).filter fun word => !word.isEmpty

/-- The flags of the schema. -/
def knownFlags : List Text := ["begin", "end", "simple"]

/-- The operation that a line of the schema declares. -/
def ofEntry (entry : Text) : Except DeclarationError Operation :=
  match splitEntry? entry with
  | none => .error (.malformedEntry entry)
  | some (name, flags) =>
    let words := flagWords flags
    match words.find? fun word => !knownFlags.contains word with
    | some word => .error (.unknownFlag word entry)
    | none =>
      declare name (words.contains "begin") (words.contains "end") (words.contains "simple")

/-- The lines of a schema that declare something: trimmed, not empty, no remark. -/
def schemaEntries (schema : Text) : List Text :=
  ((splitLines schema).map trim).filter fun entry =>
    !entry.isEmpty && entry.head? != some (.char '#')

/-- The operations of a schema. -/
def ofSchema (schema : Text) : Except DeclarationError (List Operation) :=
  (schemaEntries schema).mapM ofEntry

end Operation

/-! ## Declarations of any form -/

/-- Whether a text is read as JSON: it starts like a list or an object. -/
def startsJson : Text → Bool
  | .char '[' :: _ | .char '{' :: _ => true
  | _ => false

mutual

/-- The operations that a value declares. -/
def operationsOfJson (value : Json) : Except DeclarationError (List Operation) :=
  match value with
  | .null => .ok []
  | .bool _ => .error (.unsupported .bool)
  | .int _ => .error (.unsupported .int)
  | .float _ => .error (.unsupported .float)
  | .string s =>
    if startsJson (trim s) then
      match _h : Json.read (trim s) with
      | .error e => .error (.malformedText e)
      | .ok decoded => operationsOfJson decoded
    else Operation.ofSchema (trim s)
  | .array items => operationsOfItems items
  | .object fields =>
    match _h : Json.field? "operations" fields with
    | some (.array items) => operationsOfItems items
    | _ => (Operation.ofFields fields).map fun op => [op]
termination_by (value.weight, 0)
decreasing_by
  · have h1 := Json.weight_read _h
    have h2 := length_trim_le s
    simp only [Json.weight, Prod.lex_def]
    omega
  · simp only [Json.weight, Prod.lex_def]
    omega
  · have h1 := Json.weight_le_of_field? _h
    simp only [Json.weight, Prod.lex_def] at h1 ⊢
    omega

/-- The operations that the items of a list declare, one after the other. -/
def operationsOfItems (items : List Json) : Except DeclarationError (List Operation) :=
  match items with
  | [] => .ok []
  | item :: rest =>
    match operationsOfJson item with
    | .error e => .error e
    | .ok ops =>
      match operationsOfItems rest with
      | .error e => .error e
      | .ok more => .ok (ops ++ more)
termination_by (Json.itemsWeight items, 1)
decreasing_by
  · simp only [Json.itemsWeight, Prod.lex_def]
    omega
  · have := Json.one_le_weight item
    simp only [Json.itemsWeight, Prod.lex_def]
    omega

end

/-- A declaration: an operation, a value, or a list of declarations. -/
inductive Declaration where
  | operation (op : Operation)
  | value (value : Json)
  | list (items : List Declaration)

mutual

/-- The operations that a declaration declares. -/
def Declaration.operations : Declaration → Except DeclarationError (List Operation)
  | .operation op => .ok [op]
  | .value json => operationsOfJson json
  | .list items => Declaration.allOperations items

/-- The operations of a list of declarations, one after the other. -/
def Declaration.allOperations : List Declaration → Except DeclarationError (List Operation)
  | [] => .ok []
  | item :: rest =>
    match item.operations with
    | .error e => .error e
    | .ok ops =>
      match Declaration.allOperations rest with
      | .error e => .error e
      | .ok more => .ok (ops ++ more)

end

end FlatCode
