import ComponentMarkers.Path

/-!
# The arguments of the program

The first argument names a command.  Options may stand before, between and after the roots; an option
with a value takes it from the same argument or from the next one.  What an option lacks is noticed when
the next part of the line is taken up, so of several mistakes the one noticed first is reported.
-/

namespace ComponentMarkers.CommandLine

/-- What the program is asked to do. -/
inductive Command where
  | scan (roots : List Path) (out : Path) (dryRun json : Bool)
  | watch (roots : List Path) (out : Path)
  | capabilities
  deriving DecidableEq, Repr

/-- Why there is no command to carry out. -/
inductive UsageStop where
  | unknownArgument
  | unknownCommand
  | invalidValue
  | unwantedValue
  | repeatedOption
  | missingArgument
  /-- The line says nothing. -/
  | nothingAsked
  | helpAsked
  | versionAsked
  deriving DecidableEq, Repr

/-- The names of the commands that can be asked about. -/
def commandNames : List String :=
  ["scan", "watch", "capabilities", "help"]

/-- An argument by its form. -/
inductive Argument where
  /-- Two dashes: everything after them is a value. -/
  | separator
  /-- A name after two dashes, and a value after an equals sign. -/
  | long (name : String) (value : Option String)
  /-- Letters after one dash. -/
  | short (letters : List Char)
  | value (text : String)
  deriving DecidableEq, Repr

namespace Argument

/-- The form of an argument.  A single dash is a value. -/
def ofText (text : String) : Argument :=
  match text.toList with
  | '-' :: '-' :: [] => separator
  | '-' :: '-' :: rest =>
    let name := String.ofList (rest.takeWhile (· ≠ '='))
    match rest.dropWhile (· ≠ '=') with
    | _ :: given => long name (some (String.ofList given))
    | [] => long name none
  | '-' :: c :: rest => short (c :: rest)
  | _ => value text

end Argument

/-- What was begun and may still go on. -/
inductive Pending where
  | nothing
  /-- The option for the output, with its value if that was read. -/
  | out (value : Option String)
  /-- Roots in a row. -/
  | roots (values : List String)
  deriving DecidableEq, Repr

/-- What was read of the arguments of a command with roots. -/
structure Reading where
  roots : List String
  out : Option String
  dryRun : Bool
  json : Bool
  pending : Pending
  deriving DecidableEq, Repr

namespace Reading

/-- Nothing has been read. -/
def start : Reading :=
  ⟨[], none, false, false, .nothing⟩

/-- Takes up the value of the output option, which may be given once. -/
def setOut (reading : Reading) (value : String) : Except UsageStop Reading :=
  if reading.out.isSome then .error .repeatedOption
  else if value.isEmpty then .error .invalidValue
  else .ok { reading with out := some value }

/-- Ends what was begun. -/
def settle (reading : Reading) : Except UsageStop Reading :=
  let settled := { reading with pending := .nothing }
  match reading.pending with
  | .nothing => .ok settled
  | .out none => .error .invalidValue
  | .out (some value) => settled.setOut value
  | .roots values =>
    if values.contains "" then
      .error .invalidValue
    else
      .ok { settled with roots := settled.roots ++ values }

/-- Takes a value that belongs to no option: a root. -/
def addRoot (reading : Reading) (value : String) : Except UsageStop Reading :=
  match reading.pending with
  | .roots values => .ok { reading with pending := .roots (values ++ [value]) }
  | _ => reading.settle.map fun reading => { reading with pending := .roots [value] }

/-- Takes a value that stands by itself. -/
def addValue (reading : Reading) (value : String) : Except UsageStop Reading :=
  match reading.pending with
  | .out none => .ok { reading with pending := .out (some value) }
  | _ => reading.addRoot value

/-- Takes the output option, with its value if it has one. -/
def addOut (reading : Reading) (value : Option String) : Except UsageStop Reading :=
  match value with
  | some value => reading.settle.bind fun reading => reading.setOut value
  | none => reading.settle.map fun reading => { reading with pending := .out none }

/-- Takes an option that is given or not. -/
def addFlag (reading : Reading) (name : String) : Except UsageStop Reading :=
  reading.settle.bind fun reading =>
    match name with
    | "dry-run" =>
      if reading.dryRun then .error .repeatedOption else .ok { reading with dryRun := true }
    | _ => if reading.json then .error .repeatedOption else .ok { reading with json := true }

/-- Takes the question for help. -/
def askHelp (reading : Reading) : Except UsageStop Reading :=
  reading.settle.bind fun _ => .error .helpAsked

/-- Takes an option given by its name. -/
def addLong (flags : List String) (reading : Reading) (name : String) (value : Option String) :
    Except UsageStop Reading :=
  if name = "out" then reading.addOut value
  else if name = "help" || flags.contains name then
    if value.isSome then .error .unwantedValue
    else if name = "help" then reading.askHelp
    else reading.addFlag name
  else .error .unknownArgument

/-- Takes an option given by its letter.  What comes after the letter of the output option is its
value. -/
def addShort (reading : Reading) (letters : List Char) : Except UsageStop Reading :=
  match letters with
  | 'h' :: _ => reading.askHelp
  | 'o' :: [] => reading.addOut none
  | 'o' :: '=' :: value => reading.addOut (some (String.ofList value))
  | 'o' :: value => reading.addOut (some (String.ofList value))
  | _ => .error .unknownArgument

/-- Reads the arguments of a command with roots and the given flags. -/
def readAll (flags : List String) : Reading → List String → Except UsageStop Reading
  | reading, [] => reading.settle
  | reading, argument :: rest =>
    match Argument.ofText argument with
    | .separator => (rest.foldlM addRoot reading).bind settle
    | .long name value => (reading.addLong flags name value).bind fun next => readAll flags next rest
    | .short letters => (reading.addShort letters).bind fun next => readAll flags next rest
    | .value value => (reading.addValue value).bind fun next => readAll flags next rest

/-- The roots and the output, both of which have to be given. -/
def required (reading : Reading) : Except UsageStop (List Path × Path) :=
  match reading.roots, reading.out with
  | [], _ => .error .missingArgument
  | _, none => .error .missingArgument
  | roots, some out => .ok (roots.map Path.mk, ⟨out⟩)

end Reading

/-- The options of `scan` that are given or not. -/
def scanFlags : List String :=
  ["dry-run", "json"]

/-- The arguments of `scan`. -/
def scanCommand (arguments : List String) : Except UsageStop Command := do
  let reading ← Reading.readAll scanFlags .start arguments
  let (roots, out) ← reading.required
  return .scan roots out reading.dryRun reading.json

/-- The arguments of `watch`. -/
def watchCommand (arguments : List String) : Except UsageStop Command := do
  let reading ← Reading.readAll [] .start arguments
  let (roots, out) ← reading.required
  return .watch roots out

/-- The arguments of `capabilities`, which takes none but the question for help. -/
def capabilitiesCommand (arguments : List String) : Except UsageStop Command :=
  match arguments with
  | [] => .ok .capabilities
  | argument :: rest =>
    match Argument.ofText argument with
    | .separator => if rest.isEmpty then .ok .capabilities else .error .unknownArgument
    | .long "help" none => .error .helpAsked
    | .long "help" (some _) => .error .unwantedValue
    | .short ('h' :: _) => .error .helpAsked
    | _ => .error .unknownArgument

/-- The commands that help is asked for; there are no commands within commands. -/
def helpStop (names : List String) : UsageStop :=
  match names with
  | [] => .helpAsked
  | [name] => if commandNames.contains name then .helpAsked else .unknownCommand
  | _ => .unknownCommand

/-- What an option before the command asks for. -/
def leadingOption (argument : Argument) : UsageStop :=
  match argument with
  | .long "help" none => .helpAsked
  | .long "version" none => .versionAsked
  | .long "help" (some _) => .unwantedValue
  | .long "version" (some _) => .unwantedValue
  | .short ('h' :: _) => .helpAsked
  | .short ('V' :: _) => .versionAsked
  | _ => .unknownArgument

/-- The command that the arguments of the program give. -/
def readCommand (arguments : List String) : Except UsageStop Command :=
  match arguments with
  | [] => .error .nothingAsked
  | "scan" :: rest => scanCommand rest
  | "watch" :: rest => watchCommand rest
  | "capabilities" :: rest => capabilitiesCommand rest
  | "help" :: rest => .error (helpStop rest)
  | argument :: rest =>
    match Argument.ofText argument with
    | .separator =>
      match rest with
      | [] => .error .nothingAsked
      | name :: _ =>
        .error (if commandNames.contains name then .unknownArgument else .unknownCommand)
    | .value _ => .error .unknownCommand
    | option => .error (leadingOption option)

end ComponentMarkers.CommandLine
