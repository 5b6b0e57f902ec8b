import FlatCode.Storage.FileStore
import FlatCode.Program.Source
import FlatCode.Program.Document

/-!
# Programs in files

A file whose suffix is `.json` holds a program document, any other file its line text. Files are
UTF-8; when a file is read, each of the three line ends counts as a line feed.
-/

namespace FlatCode

/-- Why a program is not loaded. -/
inductive LoadError where
  | file (error : FileError)
  | encoding (error : Text.Utf8Error)
  | text (error : Json.TextError)
  | document (error : DocumentError)
  | source (error : SourceError)
  deriving DecidableEq, Repr

/-- The wording of an error. -/
def LoadError.message : LoadError → Text
  | .file error => error.message
  | .encoding error => error.message
  | .text error => error.message
  | .document error => error.message
  | .source error => error.message

/-- Why a program is not saved. -/
inductive SaveError where
  | write (error : WriteError)
  | format (error : FormatError)
  deriving DecidableEq, Repr

/-- The wording of an error. -/
def SaveError.message : SaveError → Text
  | .write error => error.message
  | .format error => error.message

/-- A text in which every line end is a line feed. -/
def lineFeeds : List Char → List Char
  | [] => []
  | '\r' :: '\n' :: rest => '\n' :: lineFeeds rest
  | c :: rest => (if c = '\r' then '\n' else c) :: lineFeeds rest

/-- Whether the file of a path holds a document. -/
def Path.holdsDocument (path : Path) : Bool := path.suffix == ".json"

namespace Program

/-- The text of a document file. -/
def documentText (program : Program) : Text := .ofChars (Json.write .indented program.toJson)

/-- Saves a program at a path; answers with the store after it, also when it fails. -/
def save (program : Program) (path : Path) (store : FileStore) :
    Except SaveError Unit × FileStore :=
  let text := if path.holdsDocument then .ok program.documentText else program.format
  match text with
  | .error e => (.error (.format e), store)
  | .ok text =>
    match store.writeText path text with
    | (.error e, store) => (.error (.write e), store)
    | (.ok (), store) => (.ok (), store)

/-- What is said when a program has been saved. -/
def savedMessage (path : Path) : String := s!"  ✓ Program written → {path.text}\n"

/-- The program of the text of a file. -/
def ofFileText (registry : Registry) (path : Path) (text : Text) :
    Except LoadError Program :=
  if path.holdsDocument then
    match Json.read text with
    | .error e => .error (.text e)
    | .ok document => (ofJson registry document).mapError .document
  else (parse registry text).mapError .source

/-- The program at a path. -/
def load (registry : Registry) (path : Path) (store : FileStore) : Except LoadError Program :=
  match store.read path with
  | .error e => .error (.file e)
  | .ok bytes =>
    match Text.decode bytes with
    | .error e => .error (.encoding e)
    | .ok text => ofFileText registry path (.ofChars (lineFeeds text))

end Program

end FlatCode
