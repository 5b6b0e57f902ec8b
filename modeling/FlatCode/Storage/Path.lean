/-!
# Paths

A path is the list of its parts between slashes; empty parts and single dots say nothing and are
left out. The suffix of the last part decides the format of a file.
-/

namespace FlatCode

/-- A path, relative unless it has a root of one or two slashes. -/
structure Path where
  root : String
  parts : List String
  deriving DecidableEq, Repr

namespace Path

/-- The parts of a text between slashes. -/
def splitSlashes : List Char → List (List Char)
  | [] => [[]]
  | c :: rest =>
    match c, splitSlashes rest with
    | '/', later => [] :: later
    | _, [] => [[c]]
    | _, part :: later => (c :: part) :: later

/-- The path of a text. Two slashes in front are a root of their own, more are one. -/
def ofString (s : String) : Path where
  root := match s.toList with
    | '/' :: '/' :: '/' :: _ => "/"
    | '/' :: '/' :: _ => "//"
    | '/' :: _ => "/"
    | _ => ""
  parts := ((splitSlashes s.toList).filter fun part => !part.isEmpty && part != ['.']).map
    String.ofList

/-- The text of a path. -/
def text (path : Path) : String :=
  if path.root.isEmpty && path.parts.isEmpty then "."
  else path.root ++ "/".intercalate path.parts

/-- The last part. -/
def fileName (path : Path) : String := path.parts.getLast?.getD ""

/-- The end of the last part from its last dot on; a dot at either end of it starts no suffix. -/
def suffix (path : Path) : String :=
  let reversed := path.fileName.toList.reverse
  let ending := reversed.takeWhile (· != '.')
  let front := reversed.dropWhile (· != '.')
  if ending.isEmpty || front.length ≤ 1 then "" else String.ofList ('.' :: ending.reverse)

/-- The path without its last part. -/
def parent (path : Path) : Path := { path with parts := path.parts.dropLast }

end Path

end FlatCode
