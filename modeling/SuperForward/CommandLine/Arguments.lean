/-
  The arguments of the command line.

  Options that concern every command stand before the name of the command. After it, options
  and arguments may mix; `--` ends the options. An option that takes a value takes what comes
  next, whatever it looks like, or what stands after its equals sign. Short options may be
  written together. Everything is read before anything is asked for, so that a wrong option is
  found even if help is wanted; help is given even if arguments are missing.
-/
namespace SuperForward.CommandLine

/-- What a run is asked to do. -/
inductive Command where
  | audit (project : String) (tags : List String)
  | clean (project : String) (tags : List String) (dryRun yes skipUnparsable : Bool)
  | restore (id project : String)
  deriving DecidableEq, Repr

/-- The project that a command is about. -/
def Command.project : Command → String
  | .audit project _ => project
  | .clean project _ _ _ _ => project
  | .restore _ project => project

/-- What the arguments ask for. -/
inductive Request where
  | version
  | help
  | run (verbose : Bool) (command : Command)
  deriving DecidableEq, Repr

/-! ## Options -/

/-- An option: its long name, its short one, and whether it takes a value. -/
structure OptionSpec where
  long : String
  short : Option Char
  takesValue : Bool
  deriving DecidableEq, Repr

/-- An option with its value, or an argument. -/
inductive Item where
  | option (long : String) (value : String)
  | argument (text : String)
  deriving DecidableEq, Repr

/-- The option that asks for help. -/
def helpOption : OptionSpec := ⟨"--help", none, false⟩

/-- The options before the name of the command. -/
def commonOptions : List OptionSpec :=
  [⟨"--verbose", some 'v', false⟩, ⟨"--version", none, false⟩, helpOption]

/-- The option that names a tag. -/
def tagOption : OptionSpec := ⟨"--exclude-tag", none, true⟩

/-- The options of the commands. -/
def optionsOf (command : String) : Option (List OptionSpec) :=
  if command == "audit" then some [tagOption, helpOption]
  else if command == "clean" then some [
    ⟨"--dry-run", none, false⟩, ⟨"--yes", some 'y', false⟩, tagOption,
    ⟨"--skip-unparsable", none, false⟩, helpOption]
  else if command == "restore" then some [helpOption]
  else none

/-- Short options written together; none if one of them does not exist. -/
def shortOptions (options : List OptionSpec) : List Char → Option (List Item)
  | [] => some []
  | c :: rest => do
    let o ← options.find? fun o => o.short == some c && !o.takesValue
    return .option o.long "" :: (← shortOptions options rest)

/-- The text before the first equals sign, and the text after it. -/
def splitValue (cs : List Char) : String × Option String :=
  let (name, rest) := cs.span (· != '=')
  (String.ofList name, match rest with
    | [] => none
    | _ :: value => some (String.ofList value))

/-- Reads an option; `rest` are the arguments after it. The result are the items and the
arguments that are left. -/
def readOption (options : List OptionSpec) (cs : List Char) (rest : List String) :
    Option (List Item × List String) :=
  let (name, value) := splitValue cs
  match options.find? (·.long == name) with
  | some o =>
    if o.takesValue then
      match value, rest with
      | some value, rest => some ([.option o.long value], rest)
      | none, value :: rest => some ([.option o.long value], rest)
      | none, [] => none
    else if value.isSome then none
    else some ([.option o.long ""], rest)
  | none =>
    match cs with
    | '-' :: '-' :: _ => none
    | '-' :: letters => (shortOptions options letters).map fun items => (items, rest)
    | _ => none

/-- The argument looks like an option. -/
def looksLikeOption (arg : String) : Bool :=
  match arg.toList with
  | '-' :: _ :: _ => true
  | _ => false

/-- Reads items. If options and arguments may not mix, the first argument ends the options, and
what is left from there is given back. An argument is taken in each step, so their number bounds
the number of steps. -/
def readItems (options : List OptionSpec) (mayMix : Bool) :
    (bound : Nat) → List String → Option (List Item × List String)
  | 0, rest => some ([], rest)
  | _, [] => some ([], [])
  | bound + 1, arg :: rest =>
    if arg == "--" then some ([], rest)
    else if looksLikeOption arg then do
      let (items, rest) ← readOption options arg.toList rest
      let (more, rest) ← readItems options mayMix bound rest
      return (items ++ more, rest)
    else if mayMix then do
      let (more, rest) ← readItems options mayMix bound rest
      return (.argument arg :: more, rest)
    else some ([], arg :: rest)

/-! ## Commands -/

/-- The option occurs. -/
def has (items : List Item) (long : String) : Bool :=
  items.any fun
    | .option name _ => name == long
    | .argument _ => false

/-- The values of an option, in order. -/
def valuesOf (items : List Item) (long : String) : List String :=
  items.filterMap fun
    | .option name value => if name == long then some value else none
    | .argument _ => none

/-- The arguments that are no options, in order. -/
def argumentsOf (items : List Item) : List String :=
  items.filterMap fun
    | .argument text => some text
    | .option .. => none

/-- The project if none is named. -/
def defaultProject : String := "."

/-- The project that the arguments name; none if there are too many. -/
def projectOf : List String → Option String
  | [] => some defaultProject
  | [project] => some project
  | _ => none

/-- The command with its options and arguments. -/
def commandOf (name : String) (items : List Item) (arguments : List String) : Option Command :=
  let tags := valuesOf items tagOption.long
  if name == "restore" then
    match arguments with
    | id :: rest => (projectOf rest).map (.restore id)
    | [] => none
  else if name == "clean" then do
    return .clean (← projectOf arguments) tags (has items "--dry-run") (has items "--yes")
      (has items "--skip-unparsable")
  else do return .audit (← projectOf arguments) tags

/-- What a command and its arguments ask for; none if they are wrong. -/
def readCommand (verbose : Bool) (name : String) (args : List String) : Option Request := do
  let options ← optionsOf name
  let (items, rest) ← readItems options true (args.length + 1) args
  if has items helpOption.long then return .help
  let command ← commandOf name items (argumentsOf items ++ rest)
  return .run verbose command

/-- What the arguments ask for; none if they are wrong. -/
def readRequest (args : List String) : Option Request := do
  let (items, rest) ← readItems commonOptions false (args.length + 1) args
  let first := items.findSome? fun
    | .option name _ =>
      if name == "--version" then some Request.version
      else if name == helpOption.long then some .help
      else none
    | .argument _ => none
  match first, rest with
  | some request, _ => return request
  | none, name :: args => readCommand (has items "--verbose") name args
  | none, [] => none

end SuperForward.CommandLine
