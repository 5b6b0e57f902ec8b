import FlatCode.Text.Integer

/-!
# Options of the command line

The words of a command line are options with or without a value, in any order.

* A long option may be cut short as long as only one option starts that way; its value is the next
  word or stands behind an equals sign.
* Short options have no value and may be put together behind one dash, with an equals sign behind
  the first or without. All of them are known, or none takes effect.
* A word that looks like a negative number or holds a space, and no option starts like it, is a
  value. Behind two dashes alone all words are values.
* Two dashes as the attached value of an option give it nothing (`Given.nothing`). A text that is
  given as nothing is not set; a number or a name that is given as nothing fails where it is used.

First every word is told apart (`Word.classify`), then the options take effect from left to right
(`takeWords`). Help ends the reading where it stands; a word that is left over is an error at the
end.

## Termination

`takeWords` recurses on the words, `cluster` on the letters behind a dash.
-/

namespace FlatCode.Cli

/-! ## The options -/

/-- Options without a value. -/
inductive Flag where
  | help
  | groups
  | depths
  | digest
  | reduce
  | verbose
  deriving DecidableEq, Repr

/-- Options with a value. -/
inductive Setting where
  | load
  | source
  | operations
  | block
  | group
  | keep
  | maxRounds
  | output
  | graph
  deriving DecidableEq, Repr

/-- An option. -/
inductive Switch where
  | flag (flag : Flag)
  | setting (setting : Setting)
  deriving DecidableEq, Repr

/-- The name of an option with a value. -/
def Setting.name : Setting → String
  | .load => "--load"
  | .source => "--src"
  | .operations => "--ops"
  | .block => "--block"
  | .group => "--group"
  | .keep => "--keep"
  | .maxRounds => "--max-rounds"
  | .output => "--output"
  | .graph => "--viz"

/-- The names of the options without a value. -/
def flagNames : List (List Char × Flag) :=
  [("-h".toList, .help), ("--help".toList, .help), ("--groups".toList, .groups),
    ("--depths".toList, .depths), ("--hash".toList, .digest), ("--reduce".toList, .reduce),
    ("-v".toList, .verbose), ("--verbose".toList, .verbose)]

/-- The options with a value. -/
def settings : List Setting :=
  [.load, .source, .operations, .block, .group, .keep, .maxRounds, .output, .graph]

/-- All options by their names. -/
def switches : List (List Char × Switch) :=
  flagNames.map (fun (name, flag) => (name, .flag flag))
    ++ settings.map fun setting => (setting.name.toList, .setting setting)

/-- What an option was given. -/
inductive Given (α : Type) where
  | value (value : α)
  | nothing
  deriving DecidableEq, Repr

/-- The value, if there is one. -/
def Given.value? {α : Type} : Given α → Option α
  | .value a => some a
  | .nothing => none

/-- What the options ask for. -/
structure Options where
  load : Option String := none
  source : String
  operations : Option String := none
  groups : Bool := false
  depths : Bool := false
  block : Option (Given Int) := none
  group : Option (Given Int) := none
  digest : Bool := false
  reduce : Bool := false
  keep : List (Given String) := []
  maxRounds : Given Int
  output : Option String := none
  graph : Option String := none
  verbose : Bool := false
  deriving DecidableEq, Repr

/-- Why there is nothing to run. -/
inductive Stop where
  /-- Help was asked for. -/
  | help
  /-- The words are no command line. -/
  | usage
  deriving DecidableEq, Repr

/-! ## Telling words apart -/

/-- A word of the command line. -/
inductive Word where
  | value (text : List Char)
  /-- An option, and what stands behind its name in the same word. -/
  | option (switch : Switch) (long : Bool) (attached : Option (List Char))
  | unknownOption
  | terminator
  deriving DecidableEq, Repr

/-- Whether a text starts with another. -/
def startsWith : List Char → List Char → Bool
  | _, [] => true
  | [], _ :: _ => false
  | c :: s, d :: front => c == d && startsWith s front

/-- A text cut at its first equals sign, if it has one. -/
def splitEquals (s : List Char) : List Char × Option (List Char) :=
  match s.dropWhile (· != '=') with
  | [] => (s, none)
  | _ :: rest => (s.takeWhile (· != '='), some rest)

/-- Whether a text is a negative number, in digits of any script; a line feed may follow. -/
def isNegativeNumber (s : List Char) : Bool :=
  match s with
  | '-' :: rest =>
    let rest := if rest.getLast? = some '\n' then rest.dropLast else rest
    match rest.dropWhile Text.isDecimalDigit with
    | [] => !rest.isEmpty
    | '.' :: fraction => !fraction.isEmpty && fraction.all Text.isDecimalDigit
    | _ => false
  | _ => false

/-- The options that a word which names none exactly may mean. -/
def candidates (s : List Char) : List Word :=
  match s with
  | '-' :: '-' :: _ =>
    let (name, behind) := splitEquals s
    (switches.filter fun entry => startsWith entry.1 name).map fun entry =>
      .option entry.2 true behind
  | '-' :: c :: rest =>
    (switches.filter fun entry => entry.1 == ['-', c]).map fun entry =>
      .option entry.2 false (some rest)
  | _ => []

/-- What a word is. -/
def Word.classify (s : List Char) : Except Stop Word :=
  match s with
  | '-' :: _ :: _ =>
    match switches.lookup s with
    | some switch => .ok (.option switch (startsWith s ['-', '-']) none)
    | none =>
      let (name, behind) := splitEquals s
      match switches.lookup name, behind with
      | some switch, some text =>
        .ok (.option switch (startsWith s ['-', '-']) (some text))
      | _, _ =>
        match candidates s with
        | [word] => .ok word
        | _ :: _ :: _ => .error .usage
        | [] => .ok (if isNegativeNumber s || s.contains ' ' then .value s else .unknownOption)
  | _ => .ok (.value s)

/-- What the words are. -/
def classifyAll : List (List Char) → Except Stop (List Word)
  | [] => .ok []
  | s :: rest =>
    if s = ['-', '-'] then .ok (.terminator :: rest.map .value)
    else
      match Word.classify s with
      | .error e => .error e
      | .ok word => (classifyAll rest).map (word :: ·)

/-! ## Taking effect -/

/-- The options with a flag set. -/
def Options.setFlag (options : Options) : Flag → Except Stop Options
  | .help => .error .help
  | .groups => .ok { options with groups := true }
  | .depths => .ok { options with depths := true }
  | .digest => .ok { options with digest := true }
  | .reduce => .ok { options with reduce := true }
  | .verbose => .ok { options with verbose := true }

/-- An attached value; two dashes give nothing. -/
def Given.ofAttached (text : List Char) : Given (List Char) :=
  if text = ['-', '-'] then .nothing else .value text

/-- The text that is given. -/
def Given.text : Given (List Char) → Given String
  | .value text => .value (String.ofList text)
  | .nothing => .nothing

/-- The integer that is given. -/
def Given.integer : Given (List Char) → Except Stop (Given Int)
  | .value text =>
    match Text.integer? text with
    | some n => .ok (.value n)
    | none => .error .usage
  | .nothing => .ok .nothing

/-- The options with what one of them was given; the program of the command line is empty if it is
given as nothing. -/
def Options.set (options : Options) (given : Given (List Char)) : Setting → Except Stop Options
  | .load => .ok { options with load := given.text.value? }
  | .source => .ok { options with source := given.text.value?.getD "" }
  | .operations => .ok { options with operations := given.text.value? }
  | .block => given.integer.map fun n => { options with block := some n }
  | .group => given.integer.map fun n => { options with group := some n }
  | .keep => .ok { options with keep := options.keep ++ [given.text] }
  | .maxRounds => given.integer.map fun n => { options with maxRounds := n }
  | .output => .ok { options with output := given.text.value? }
  | .graph => .ok { options with graph := given.text.value? }

/-- The flags that letters stand for; every letter has to be one. -/
def cluster : List Char → Except Stop (List Flag)
  | [] => .ok []
  | c :: rest =>
    match switches.lookup ['-', c] with
    | some (.flag flag) => (cluster rest).map (flag :: ·)
    | _ => .error .usage

/-- The flags of a word: its flag, and behind a short one the flags of the letters attached to it.
A long flag has nothing attached to it, and an equals sign has something behind it. -/
def flagsOf (flag : Flag) (long : Bool) : Option (List Char) → Except Stop (List Flag)
  | none => .ok [flag]
  | some letters =>
    if long || letters.isEmpty then .error .usage else (cluster letters).map (flag :: ·)

/-- Lets options take effect from left to right; answers also whether a word was left over. -/
def takeWords : List Word → Options → Except Stop (Options × Bool)
  | [], options => .ok (options, false)
  | .option (.flag flag) long attached :: rest, options =>
    match flagsOf flag long attached with
    | .error e => .error e
    | .ok flags =>
      match flags.foldlM Options.setFlag options with
      | .error e => .error e
      | .ok options => takeWords rest options
  | .option (.setting setting) _ (some attached) :: rest, options =>
    match options.set (.ofAttached attached) setting with
    | .error e => .error e
    | .ok options => takeWords rest options
  | .option (.setting setting) _ none :: .value text :: rest, options =>
    match options.set (.value text) setting with
    | .error e => .error e
    | .ok options => takeWords rest options
  | .option (.setting _) _ none :: _, _ => .error .usage
  | _ :: rest, options => (takeWords rest options).map fun (options, _) => (options, true)

/-- The options of a command line, over the options of an empty one. -/
def Options.parse (standard : Options) (args : List String) : Except Stop Options :=
  match classifyAll (args.map String.toList) with
  | .error e => .error e
  | .ok words =>
    match takeWords words standard with
    | .error e => .error e
    | .ok (_, true) => .error .usage
    | .ok (options, false) => .ok options

end FlatCode.Cli
