import FlatCode.Cli.Run

/-!
# The command line program

Reads the file that is to be loaded, runs the command line on it, and writes out what the run has
written: its text, its log, and the files that it has saved.
-/

namespace FlatCode.Main

open Cli

/-- What is said about the options. -/
def usage : String :=
  "usage: flatcode [-h] [--load FILE] [--src PROGRAM] [--ops SCHEMA] [--groups] [--depths]\n"
    ++ "                [--block IDX] [--group IDX] [--hash] [--reduce] [--keep OP]\n"
    ++ "                [--max-rounds N] [--output FILE] [--viz FILE] [-v]\n"

/-- What is shown of a text: a surrogate cannot be written, so another character stands for it. -/
def shown (text : Text) : String :=
  String.ofList (text.map fun
    | .char c => c
    | .surrogate _ => '\ufffd')

/-- The store of the file at a path, if there is one. -/
def readFile (store : FileStore) (name : String) : IO FileStore := do
  try
    let bytes ← IO.FS.readBinFile name
    return store.addFile name bytes.toList
  catch _ => return store

/-- The store that the options speak of. Whether the directories of saved files exist shows when
they are written. -/
def readStore (options : Options) : IO FileStore := do
  let place (store : FileStore) (name : Option String) : FileStore :=
    match nonempty name with
    | some name => store.addDirs (Path.ofString name).parent
    | none => store
  match nonempty options.load with
  | some name => readFile (place .empty options.output) name
  | none => return place .empty options.output

/-- Writes the files that differ from those before. -/
def writeStore (before after : FileStore) : IO Unit := do
  for (place, bytes) in after.files do
    if before.bytes? place ≠ some bytes then
      let dir : Place := place.dropLast
      if !before.isDir dir then
        IO.FS.createDirAll dir.name
      IO.FS.writeBinFile place.name ⟨bytes.toArray⟩

/-- The code that an ending gives to the system, after what is to be said about it. -/
def finish : Ending → IO UInt32
  | .exit code => return code.toUInt32
  | .stopped .help => do
    IO.print usage
    return 0
  | .stopped .usage => do
    IO.eprint usage
    return 2
  | .failed failure => do
    IO.eprintln (shown failure.message)
    return 1

/-- Runs a command line. -/
def runArgs (args : List String) : IO UInt32 := do
  let store ← match standardOptions.parse args with
    | .ok options => readStore options
    | .error _ => pure .empty
  let (ending, shell) := Cli.run args { registry := .builtin, store }
  IO.print (shown shell.output)
  for entry in shell.log do
    IO.eprintln entry.line
  writeStore store shell.store
  finish ending

end FlatCode.Main

/-- The program. -/
def main (args : List String) : IO UInt32 := FlatCode.Main.runArgs args
