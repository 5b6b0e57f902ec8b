import FlatCode.Cli.Options
import FlatCode.Cli.Inline
import FlatCode.Storage.ProgramFile
import FlatCode.Program.Digest
import FlatCode.Reduction.Minimize
import FlatCode.Nesting.Distance
import FlatCode.Nesting.Dot
import FlatCode.Nesting.Listing

/-!
# Running a command line

A run loads a program, shows it, and does what the options ask for, in a fixed order. What it works
on is a `Shell`: the registry, the files and what has been written so far.

Errors in what the user gave are reported on a line and end the run with code one
(`Ending.exit 1`). Other errors end it as failures (`Ending.failed`); what was written before
stays written. The registry is as it was before in any case.
-/

namespace FlatCode.Cli

/-- The program that is used when none is given. -/
def standardSource : String :=
  "BeginIf; LoadInteger 1; BeginWhileLoop; CallFunction f; EndWhileLoop; "
    ++ "BeginElse; LoadString foo; EndIf; Return"

/-- The options of an empty command line. -/
def standardOptions : Options := { source := standardSource, maxRounds := .value standardRounds }

/-- What a run works on. -/
structure Shell where
  registry : Registry
  store : FileStore
  output : Text := []
  log : List LogEntry := []

/-- An error that is not reported but ends the run. -/
inductive Failure where
  | declaration (error : DeclarationError)
  | load (error : LoadError)
  | save (error : SaveError)
  | write (error : WriteError)
  | file (error : FileError)
  | structural (error : StructureError)
  | nesting (error : NestingError)
  | format (error : FormatError)
  | reduction (error : ReductionError Empty)
  /-- An option whose value is used was given nothing. -/
  | noValue (setting : Setting)
  /-- No program draws graphs. -/
  | noRenderer
  deriving DecidableEq, Repr

/-- The wording of a failure. -/
def Failure.message : Failure → Text
  | .declaration error => error.message
  | .load error => error.message
  | .save error => error.message
  | .write error => error.message
  | .file error => error.message
  | .structural error => error.message
  | .nesting error => error.message
  | .format error => error.message
  | .reduction error => error.message nofun
  | .noValue setting => s!"option {setting.name} was given nothing"
  | .noRenderer => "[Errno 2] \"dot\" not found in path."

/-- How a command line ends. -/
inductive Ending where
  /-- There was nothing to run. -/
  | stopped (stop : Stop)
  | exit (code : Nat)
  | failed (failure : Failure)
  deriving DecidableEq, Repr

namespace Shell

/-- The shell with more text written. -/
def print (shell : Shell) (text : Text) : Shell := { shell with output := shell.output ++ text }

/-- The shell with a line about an error written. -/
def report (shell : Shell) (message : Text) : Shell := shell.print ("  ✗ " ++ message ++ "\n")

end Shell

/-- A part of a run: it goes on with a value, or it ends the run. -/
abbrev Part (α : Type) := Shell → Except Ending α × Shell

/-- Does one part, then the next with its value. -/
def Part.andThen {α β : Type} (first : Part α) (next : α → Part β) : Part β := fun shell =>
  match first shell with
  | (.error ending, shell) => (.error ending, shell)
  | (.ok value, shell) => next value shell

/-- Writes text. -/
def say (text : Text) : Part Unit := fun shell => (.ok (), shell.print text)

/-- Reports an error and ends the run with code one. -/
def complain {α : Type} (message : Text) : Part α := fun shell =>
  (.error (.exit 1), shell.report message)

/-- Ends the run with a failure. -/
def fail {α : Type} (failure : Failure) : Part α := fun shell => (.error (.failed failure), shell)

/-- Goes on with a result, or ends the run with the failure of its error. -/
def orFail {ε α : Type} (ofError : ε → Failure) (result : Except ε α) : Part α :=
  match result with
  | .ok value => fun shell => (.ok value, shell)
  | .error e => fail (ofError e)

/-- Does a part if it is asked for. -/
def whenAsked {α : Type} (asked : Option α) (part : α → Part Unit) : Part Unit :=
  match asked with
  | some value => part value
  | none => fun shell => (.ok (), shell)

/-- Does a part if a flag is set. -/
def whenSet (flag : Bool) (part : Part Unit) : Part Unit :=
  if flag then part else fun shell => (.ok (), shell)

/-- Goes on with the value that an option was given, or ends the run. -/
def demand {α : Type} (setting : Setting) : Given α → Part α
  | .value value => fun shell => (.ok value, shell)
  | .nothing => fail (.noValue setting)

/-- A text that is given and not empty. -/
def nonempty (text : Option String) : Option String := text.filter fun s => !s.isEmpty

/-! ## Loading -/

/-- Whether an error of a declaration is about what the user wrote: an unusable kind of value is
not. -/
def isReportedDeclaration : DeclarationError → Bool
  | .nameNotText | .notObject | .unsupported _ => false
  | _ => true

/-- Whether an error of loading is about what the file says: a missing file and a document of
unusable kinds of values are not. -/
def isReportedLoad : LoadError → Bool
  | .file .nullCharacter => true
  | .file _ => false
  | .document .missingInstructions => true
  | .document (.operation error) => isReportedDeclaration error
  | .document _ => false
  | .encoding _ | .text _ | .source _ => true

/-- Registers the operations of the command line. -/
def registerPart (text : String) : Part Unit := fun shell =>
  let lines := text.map fun c => if c = ';' then '\n' else c
  match shell.registry.register (.value (.string lines)) false with
  | (.ok (), registry) => (.ok (), { shell with registry })
  | (.error e, registry) =>
    let shell := { shell with registry }
    if isReportedDeclaration e then complain e.message shell else fail (.declaration e) shell

/-- The program of the command line. -/
def loadPart (options : Options) : Part Program := fun shell =>
  match nonempty options.load with
  | some name =>
    match Program.load shell.registry (Path.ofString name) shell.store with
    | .ok program => (.ok program, shell)
    | .error e => if isReportedLoad e then complain e.message shell else fail (.load e) shell
  | none =>
    match Program.parse shell.registry (splitInline options.source) with
    | .ok program => (.ok program, shell)
    | .error e => complain e.message shell

/-! ## Showing -/

/-- A number with spaces in front of it up to a width of four. -/
def column (n : Nat) : String :=
  let digits := Nat.toDigits 10 n
  String.ofList (List.replicate (4 - digits.length) ' ' ++ digits)

/-- The text of a program without blanks at its end. -/
def formatted (program : Program) : Part Text :=
  (orFail .format program.format).andThen fun text shell => (.ok (Text.dropBlanksEnd text), shell)

/-- The instructions with their indices. -/
def instructionLines (program : Program) : Text :=
  program.instructions.zipIdx.flatMap fun (instr, idx) =>
    s!"  {column idx}  " ++ instr.display ++ "\n"

/-- Shows the program; one whose markers do not fit together is listed and ends the run. -/
def showPart (program : Program) : Part Unit :=
  (say "Program:\n").andThen fun _ =>
    match program.checkWellFormed with
    | .error e => (say (instructionLines program)).andThen fun _ => complain e.message
    | .ok () =>
      (if program.size = 0 then say "  (empty)\n"
        else (formatted program).andThen fun text => say (text ++ "\n")).andThen fun _ =>
      (orFail .nesting program.maxGroupDepth).andThen fun depth =>
        say s!"  ✓ Well formed, {depth} level(s) of nesting\n"

/-- Shows the digest. -/
def digestPart (program : Program) : Part Unit := say s!"\nSHA256 = {program.digest}\n"

/-- Shows the nesting depth of each instruction. -/
def depthsPart (program : Program) : Part Unit :=
  (say "\nNesting depths:\n").andThen fun _ =>
    (orFail .structural program.depths).andThen fun depths =>
      say ((depths.zip program.instructions).zipIdx.flatMap fun ((depth, instr), idx) =>
        s!"  {column idx}  {depth}  " ++ instr.name ++ "\n")

/-- Shows all groups. -/
def groupsPart (program : Program) : Part Unit :=
  (say "\nBlock groups:\n").andThen fun _ =>
    (orFail .structural program.listing).andThen say

/-- The text about the block at an index: the one that begins there, else the one that ends there. -/
def blockText (program : Program) (idx : Int) : Except StructureError Text :=
  let opens := match program.placeWith idx .blockBegin with
    | .ok _ => true
    | .error _ => false
  (if opens then Block.startingAt program idx else Block.endingAt program idx).map fun block =>
    s!"\nBlock at {idx}: " ++ block.beginName ++ s!" {block.head}..{block.tail}\n"
      ++ s!"  → size: {block.size}\n"
      ++ s!"  → body: {StructureError.showIndices block.body}\n"

/-- The text about the innermost group around an index. -/
def groupText (program : Program) (idx : Int) : Except StructureError Text := do
  let group ← BlockGroup.surrounding program idx
  let blocks ← group.blocks
  let lines : List Text := blocks.map fun block =>
    "    • " ++ block.beginName
      ++ s!" {block.head}..{block.tail} ({block.body.length} inside)\n"
  .ok (s!"\nBlock group surrounding {idx}: " ++ group.beginName
    ++ s!" {group.head}..{group.tail}\n"
    ++ s!"  → block instructions: {StructureError.showIndices group.boundaries}\n"
    ++ lines.flatten)

/-- Shows a text about blocks, or reports that there is none. -/
def structurePart (text : Except StructureError Text) : Part Unit :=
  match text with
  | .ok text => say text
  | .error e => if e.kind = .selection then fail (.structural e) else complain e.message

/-! ## Reducing and saving -/

/-- Whether an error of a reduction is about what the user asked for. -/
def isReportedReduction : ReductionError Empty → Bool
  | .structural e => e.kind ≠ .selection
  | .tooFewRounds => true
  | _ => false

/-- The names to keep, up to the first that is given as nothing. -/
def keptNames : List (Given String) → List Text
  | .value name :: rest => name :: keptNames rest
  | _ => []

/-- What a reduction has to keep. The names are looked up in their order. -/
def requiredPart (program : Program) (keep : List (Given String)) : Part Oracle.Required :=
  fun shell =>
    match Oracle.required shell.registry program (keptNames keep) with
    | .error e => complain e.message shell
    | .ok required =>
      if keep.contains .nothing then fail (.noValue .keep) shell else (.ok required, shell)

/-- Runs a reduction that keeps what is required, and tells what it did. -/
def minimizePart (required : Oracle.Required) (maxRounds : Int) (program : Program) :
    Part Program := fun shell =>
  let oracle : Oracle Unit Empty := (Oracle.keeping required).guarded true
  match minimize oracle Reducer.standard maxRounds { program, state := () } with
  | (.error e, run) =>
    let shell := { shell with log := shell.log ++ run.log }
    if isReportedReduction e then complain (e.message nofun) shell else fail (.reduction e) shell
  | (.ok outcome, run) =>
    let shell := { shell with log := shell.log ++ run.log }
    ((say ("\nReduction:\n"
        ++ s!"  → rounds: {outcome.rounds}\n"
        ++ s!"  → attempts: {outcome.attempts} ({outcome.accepted} accepted)\n"
        ++ s!"  → removed: {outcome.removed} instruction(s)\n")).andThen fun _ =>
      (formatted run.program).andThen fun text =>
      (say (text ++ "\n")).andThen fun _ shell => (.ok run.program, shell)) shell

/-- Reduces the program, keeping what the options say. -/
def reducePart (options : Options) (program : Program) : Part Program :=
  (requiredPart program options.keep).andThen fun required =>
  (demand .maxRounds options.maxRounds).andThen fun maxRounds =>
  minimizePart required maxRounds program

/-- Saves the program. -/
def savePart (program : Program) (name : String) : Part Unit := fun shell =>
  let path := Path.ofString name
  match program.save path shell.store with
  | (.error e, store) => fail (.save e) { shell with store }
  | (.ok (), store) => say (Program.savedMessage path) { shell with store }

/-- Saves the nesting graph, after making the directory that it goes to. -/
def graphPart (program : Program) (name : String) : Part Unit := fun shell =>
  let path := Path.ofString name
  match program.dot with
  | .error e => fail (.nesting e) shell
  | .ok text =>
    match shell.store.ensure path.parent with
    | .error e => fail (.file e) shell
    | .ok store =>
      let shell := { shell with store }
      if path.suffix ≠ ".dot" then fail .noRenderer shell
      else
        match store.writeText path text with
        | (.error e, store) => fail (.write e) { shell with store }
        | (.ok (), store) =>
          say s!"  ✓ Nesting graph exported → {path.text}\n" { shell with store }

/-! ## The whole run -/

/-- Does what the options ask for. -/
def runOptions (options : Options) : Part Unit :=
  (whenAsked (nonempty options.operations) registerPart).andThen fun _ =>
  (loadPart options).andThen fun program =>
  (showPart program).andThen fun _ =>
  (whenSet options.digest (digestPart program)).andThen fun _ =>
  (whenSet options.depths (depthsPart program)).andThen fun _ =>
  (whenSet options.groups (groupsPart program)).andThen fun _ =>
  (whenAsked options.block fun given =>
    (demand .block given).andThen fun idx => structurePart (blockText program idx)).andThen fun _ =>
  (whenAsked options.group fun given =>
    (demand .group given).andThen fun idx => structurePart (groupText program idx)).andThen fun _ =>
  (if options.reduce then reducePart options program
    else fun shell => (.ok program, shell)).andThen fun program =>
  (whenAsked (nonempty options.output) (savePart program)).andThen fun _ =>
  whenAsked (nonempty options.graph) (graphPart program)

/-- The log entries that are shown: all of them, or those of level info. -/
def shownLog (verbose : Bool) (log : List LogEntry) : List LogEntry :=
  log.filter fun entry => verbose || entry.level == .info

/-- Runs a command line; the registry afterwards is the one before. -/
def run (args : List String) (shell : Shell) : Ending × Shell :=
  match standardOptions.parse args with
  | .error stop => (.stopped stop, shell)
  | .ok options =>
    let (result, after) := runOptions options shell
    let after := { after with
      registry := shell.registry, log := shownLog options.verbose after.log }
    match result with
    | .ok () => (.exit 0, after)
    | .error ending => (ending, after)

end FlatCode.Cli
