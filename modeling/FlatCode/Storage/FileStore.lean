import FlatCode.Storage.Path
import FlatCode.Text.Quoted
import FlatCode.Text.Utf8

/-!
# Stores of files

A store is what a program sees of a tree of directories and files, with a working directory at its
top. It is kept as the list of the directories and the list of the files with their bytes, each by
its place: the parts that lead to it from the top.

Two dots lead up. Above the top and at the root of absolute paths there are directories that hold
nothing but what is written there; such places start with two dots or a slash.

## Termination

`walk` recurses on the parts of a path, `makeDirsWithin` on the number of directories above it.
-/

namespace FlatCode

/-- Why a path cannot be used. -/
inductive FileError where
  | notFound (path : String)
  | isDirectory (path : String)
  | notDirectory (path : String)
  | exists (path : String)
  | nameTooLong (path : String)
  /-- The path holds the character that ends names for the system. -/
  | nullCharacter
  deriving DecidableEq, Repr

/-- The wording of an error. -/
def FileError.message : FileError → String
  | .notFound path => s!"[Errno 2] No such file or directory: {Text.quoted path}"
  | .exists path => s!"[Errno 17] File exists: {Text.quoted path}"
  | .notDirectory path => s!"[Errno 20] Not a directory: {Text.quoted path}"
  | .isDirectory path => s!"[Errno 21] Is a directory: {Text.quoted path}"
  | .nameTooLong path => s!"[Errno 36] File name too long: {Text.quoted path}"
  | .nullCharacter => "embedded null byte"

/-- Why a text is not written. -/
inductive WriteError where
  | file (error : FileError)
  | encoding (error : Text.EncodeError)
  deriving DecidableEq, Repr

/-- The wording of an error. -/
def WriteError.message : WriteError → String
  | .file error => error.message
  | .encoding error => error.message

/-! ## Places -/

/-- Where something is: the parts that lead to it from the top. -/
abbrev Place := List String

namespace Place

/-- Where a path starts: at the top, or at the root. -/
def start (path : Path) : Place := if path.root.isEmpty then [] else ["/"]

/-- The place that one more part leads to. Up from the top leads out of it; up from the root leads
to the root. -/
def follow (place : Place) (part : String) : Place :=
  if part ≠ ".." then place ++ [part]
  else
    match place.getLast? with
    | none | some ".." => place ++ [".."]
    | some "/" => place
    | some _ => place.dropLast

/-- The place of a path, if all directories on the way exist. -/
def ofPath (path : Path) : Place := path.parts.foldl follow (start path)

/-- Whether a place lies in the working directory. -/
def isInside : Place → Bool
  | [] => true
  | part :: _ => part != ".." && part != "/"

/-- The name of a place, for somebody in the working directory. -/
def name : Place → String
  | "/" :: parts => "/" ++ "/".intercalate parts
  | parts => "/".intercalate parts

end Place

/-! ## Stores -/

/-- Directories and files with their bytes, by their places. -/
structure FileStore where
  dirs : List Place
  files : List (Place × List UInt8)

namespace FileStore

/-- The store of nothing but the top directory. -/
def empty : FileStore := ⟨[], []⟩

/-- Whether a directory is at a place. The top, what is above it, and the root always are. -/
def isDir (store : FileStore) (place : Place) : Bool :=
  place.all (· == "..") || place == ["/"] || store.dirs.contains place

/-- The bytes of the file at a place. -/
def bytes? (store : FileStore) (place : Place) : Option (List UInt8) :=
  store.files.lookup place

/-- What the parts of a path lead to. -/
inductive Target where
  /-- A place in a directory that exists. -/
  | place (place : Place)
  /-- A directory on the way is missing. -/
  | missing
  /-- A file stands where a directory is needed. -/
  | blocked
  /-- A part is longer than a name may be. -/
  | tooLong

/-- The number of bytes that a name may have. -/
def maxNameBytes : Nat := 255

/-- The number of bytes that a path may have. -/
def maxPathBytes : Nat := 4095

/-- Walks along parts from a place. -/
def walk (store : FileStore) : Place → List String → Target
  | current, [] => .place current
  | current, part :: rest =>
    if store.isDir current then
      if maxNameBytes < part.utf8ByteSize then .tooLong else walk store (current.follow part) rest
    else if (store.bytes? current).isSome then .blocked
    else .missing

/-- The place that a path leads to. -/
def resolve (store : FileStore) (path : Path) : Except FileError Place :=
  if path.text.toList.contains '\x00' then .error .nullCharacter
  else if maxPathBytes < path.text.utf8ByteSize then .error (.nameTooLong path.text)
  else
    match store.walk (.start path) path.parts with
    | .place place => .ok place
    | .missing => .error (.notFound path.text)
    | .blocked => .error (.notDirectory path.text)
    | .tooLong => .error (.nameTooLong path.text)

/-- The bytes of the file at a path. -/
def read (store : FileStore) (path : Path) : Except FileError (List UInt8) :=
  match store.resolve path with
  | .error e => .error e
  | .ok place =>
    if store.isDir place then .error (.isDirectory path.text)
    else
      match store.bytes? place with
      | some bytes => .ok bytes
      | none => .error (.notFound path.text)

/-- The files with one of them set: where it is if it is there, else at the end. -/
def setFile (place : Place) (bytes : List UInt8) :
    List (Place × List UInt8) → List (Place × List UInt8)
  | [] => [(place, bytes)]
  | (p, b) :: rest =>
    if p = place then (place, bytes) :: rest else (p, b) :: setFile place bytes rest

/-- The store with bytes written to the file at a path. -/
def write (store : FileStore) (path : Path) (bytes : List UInt8) : Except FileError FileStore :=
  match store.resolve path with
  | .error e => .error e
  | .ok place =>
    if store.isDir place then .error (.isDirectory path.text)
    else .ok { store with files := setFile place bytes store.files }

/-- Writes a text to the file at a path; answers with the store after it, also when it fails. The
file is emptied first, so it stays empty if the text has no bytes. -/
def writeText (store : FileStore) (path : Path) (text : Text) :
    Except WriteError Unit × FileStore :=
  match Text.encode text with
  | .ok bytes =>
    match store.write path bytes with
    | .error e => (.error (.file e), store)
    | .ok store => (.ok (), store)
  | .error e =>
    match store.write path [] with
    | .error e => (.error (.file e), store)
    | .ok store => (.error (.encoding e), store)

/-! ## Making directories -/

/-- The store with a directory at a place, if none is there yet. -/
def addDir (store : FileStore) (place : Place) : FileStore :=
  if store.isDir place then store else { store with dirs := store.dirs ++ [place] }

/-- Makes the directory of a path in a directory that exists; one that is there already is left. -/
def makeDir (store : FileStore) (path : Path) : Except FileError FileStore :=
  match store.resolve path with
  | .error e => .error e
  | .ok place =>
    if (store.bytes? place).isSome then .error (.exists path.text) else .ok (store.addDir place)

/-- Makes the directory of a path. If the one it stands in is missing, that is made first, at most
the given number of directories up. -/
def makeDirsWithin : Nat → FileStore → Path → Except FileError FileStore
  | 0, store, path => store.makeDir path
  | levels + 1, store, path =>
    match store.makeDir path with
    | .error (.notFound _) =>
      match makeDirsWithin levels store path.parent with
      | .error e => .error e
      | .ok store => store.makeDir path
    | result => result

/-- Makes the directory of a path and those that lead to it. -/
def makeDirs (store : FileStore) (path : Path) : Except FileError FileStore :=
  makeDirsWithin path.parts.length store path

/-- The store in which something is at a path: a directory is made if there is nothing. A path that
cannot be followed leads to nothing, unless it is too long to be tried. -/
def ensure (store : FileStore) (path : Path) : Except FileError FileStore :=
  match store.resolve path with
  | .error (.nameTooLong name) => .error (.nameTooLong name)
  | .error _ => store.makeDirs path
  | .ok place =>
    if store.isDir place || (store.bytes? place).isSome then .ok store else store.makeDirs path

/-! ## Filling a store -/

/-- The store with the directory of a path and all directories on the way to it. -/
def addDirs (store : FileStore) (path : Path) : FileStore :=
  (List.range (path.parts.length + 1)).foldl
    (fun store n => store.addDir (Place.ofPath { path with parts := path.parts.take n })) store

/-- The store with a file and the directories on the way to it. -/
def addFile (store : FileStore) (name : String) (bytes : List UInt8) : FileStore :=
  let path := Path.ofString name
  let store := store.addDirs path.parent
  { store with files := setFile (.ofPath path) bytes store.files }

/-- The files in the working directory by name, in order. -/
def listing (store : FileStore) : List (String × List UInt8) :=
  (store.files.filter fun file => file.1.isInside).map fun (place, bytes) => (place.name, bytes)

end FileStore

end FlatCode
