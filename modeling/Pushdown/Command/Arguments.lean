import Pushdown.Config

/-!
The arguments of the command line.
-/

namespace Pushdown.Command

/-- What is to be done. -/
inductive Action where
  /-- Load a grammar and show its summary. -/
  | check (grammar : String)
  /-- Show the tokens of a file. -/
  | tokens (file : String) (format : Option OutputFormat)
  /-- Parse a file and show its tree. -/
  | parse (file : String) (grammar start : Option String) (format : Option OutputFormat)
deriving DecidableEq, Repr

/-- The arguments, understood. -/
inductive Request where
  | run (config : Option String) (verbose : Bool) (action : Action)
  | help
  | version
deriving DecidableEq, Repr

/-- Why arguments make no sense. -/
inductive UsageError where
  | missingCommand
  | unknownCommand (name : String)
  | unknownOption (option : String)
  | missingValue (option : String)
  | invalidValue (name value : String)
  /-- A flag that was given a value. -/
  | unexpectedValue (option value : String)
  | repeated (option : String)
  | missingArgument (name : String)
  | unexpectedArgument (value : String)
deriving DecidableEq, Repr

def UsageError.message : UsageError → String
  | missingCommand => "a command is required"
  | unknownCommand name => s!"unrecognized command '{name}'"
  | unknownOption option => s!"unexpected option '{option}'"
  | missingValue option => s!"a value is required for '{option}'"
  | invalidValue name value => s!"invalid value '{value}' for '{name}'"
  | unexpectedValue option value => s!"unexpected value '{value}' for '{option}'"
  | repeated option => s!"'{option}' cannot be used multiple times"
  | missingArgument name => s!"'{name}' is required"
  | unexpectedArgument value => s!"unexpected argument '{value}'"

/-- The commands by name. -/
inductive CommandName where
  | check
  | tokens
  | parse
deriving DecidableEq, Repr

namespace CommandName

def ofName? (name : String) : Option CommandName :=
  if name = "check" then some check
  else if name = "tokens" then some tokens
  else if name = "parse" then some parse
  else none

/-- The option of a name that takes a value, for a command or, without one, in front of it. -/
def valueOptions : Option CommandName → List String
  | none => ["config"]
  | some check => ["config"]
  | some tokens => ["config", "format"]
  | some parse => ["config", "grammar", "start", "format"]

/-- The name of the one argument that a command takes besides its options. -/
def argumentName : CommandName → String
  | check => "GRAMMAR"
  | _ => "FILE"

end CommandName

/-- What has been read in front of a command, or after it. -/
structure Scope where
  command : Option CommandName
  /-- Options with their values. -/
  values : List (String × String)
  verbose : Bool
  argument : Option String
deriving DecidableEq, Repr

namespace Scope

def start (command : Option CommandName) : Scope := ⟨command, [], false, none⟩

/-- Only a start name may be empty, and a format has to be known. -/
def checkValue (name value : String) : Except UsageError Unit :=
  if name = "format" then
    if (OutputFormat.ofName? value).isSome then .ok () else .error (.invalidValue name value)
  else if value.isEmpty && name ≠ "start" then .error (.invalidValue name value)
  else .ok ()

/-- Notes an option with its value. -/
def setValue (scope : Scope) (name value : String) : Except UsageError Scope := do
  if (scope.values.lookup name).isSome then throw (.repeated name)
  checkValue name value
  return { scope with values := (name, value) :: scope.values }

def setVerbose (scope : Scope) : Except UsageError Scope :=
  if scope.verbose then .error (.repeated "verbose") else .ok { scope with verbose := true }

/-- Notes the argument of the command. -/
def setArgument (scope : Scope) (name value : String) : Except UsageError Scope :=
  if scope.argument.isSome then .error (.unexpectedArgument value)
  else if value.isEmpty then .error (.invalidValue name value)
  else .ok { scope with argument := some value }

end Scope

/-- How an argument looks. -/
inductive Shape where
  /-- Two dashes alone: all that follow are no options. -/
  | separator
  | long (name : String) (value : Option String)
  /-- Single letters after one dash. -/
  | short (letters : List Char)
  | plain
deriving DecidableEq, Repr

def Shape.of (argument : String) : Shape :=
  match argument.toList with
  | ['-', '-'] => .separator
  | '-' :: '-' :: body =>
    let name := String.ofList (body.takeWhile (· ≠ '='))
    match body.dropWhile (· ≠ '=') with
    | [] => .long name none
    | _ :: value => .long name (some (String.ofList value))
  | '-' :: letter :: letters => .short (letter :: letters)
  | _ => .plain

/-- Where reading of the arguments stops early. -/
inductive Stop where
  | error (error : UsageError)
  | help
  | version
deriving DecidableEq, Repr

/-- Takes single letters. The version can be asked for only in front of a command. -/
def readLetters (scope : Scope) : List Char → Except Stop Scope
  | [] => .ok scope
  | 'v' :: letters => do
    let scope ← scope.setVerbose.mapError .error
    readLetters scope letters
  | 'h' :: _ => .error .help
  | letter :: _ =>
    if letter = 'V' && scope.command.isNone then .error .version
    else .error (.error (.unknownOption (String.ofList ['-', letter])))

/-- Takes an option without a value of its own. -/
def readFlag (scope : Scope) (name : String) (value : Option String) : Except Stop Scope :=
  let known := name = "verbose" || name = "help" || (name = "version" && scope.command.isNone)
  match known, value with
  | false, _ => .error (.error (.unknownOption ("--" ++ name)))
  | true, some value => .error (.error (.unexpectedValue ("--" ++ name) value))
  | true, none =>
    if name = "verbose" then scope.setVerbose.mapError .error
    else if name = "help" then .error .help
    else .error .version

/-- How far the arguments have been read. -/
structure Progress where
  /-- What stood in front of the command, once there is one. -/
  front : Scope
  scope : Scope
  /-- An option that waits for its value. -/
  pending : Option String
  /-- Whether all that follow are no options. -/
  closed : Bool
  /-- The commands to explain, if that is what is asked for. -/
  topics : Option (List String)
deriving DecidableEq, Repr

namespace Progress

def start : Progress := ⟨.start none, .start none, none, false, none⟩

/-- Takes an argument that is no option: the name of the command, or what the command works on. -/
def readPlain (progress : Progress) (argument : String) : Except Stop Progress :=
  match progress.scope.command with
  | some command => do
    let scope ← (progress.scope.setArgument command.argumentName argument).mapError .error
    return { progress with scope }
  | none =>
    match CommandName.ofName? argument with
    | some command => .ok { progress with front := progress.scope, scope := .start (some command) }
    | none =>
      if argument = "help" then .ok { progress with topics := some [] }
      else .error (.error (.unknownCommand argument))

/-- Takes the name of a command to explain. No command has commands of its own. -/
def readTopic (progress : Progress) (topics : List String) (argument : String) : Except Stop Progress :=
  if topics.isEmpty && ((CommandName.ofName? argument).isSome || argument = "help") then
    .ok { progress with topics := some [argument] }
  else .error (.error (.unknownCommand argument))

/-- Gives an option its value. -/
def readValue (progress : Progress) (name value : String) : Except Stop Progress := do
  let scope ← (progress.scope.setValue name value).mapError .error
  return { progress with scope, pending := none }

/-- Takes an argument that may be an option. -/
def readOption (progress : Progress) (argument : String) : Except Stop Progress :=
  match Shape.of argument with
  | .separator =>
    if progress.scope.command.isNone then .error (.error .missingCommand)
    else .ok { progress with closed := true }
  | .long name value =>
    if (CommandName.valueOptions progress.scope.command).contains name then
      match value with
      | some value => progress.readValue name value
      | none => .ok { progress with pending := some name }
    else do return { progress with scope := ← readFlag progress.scope name value }
  | .short letters => do return { progress with scope := ← readLetters progress.scope letters }
  | .plain => progress.readPlain argument

/-- Takes one argument. The value of an option must not look like an option itself. -/
def step (progress : Progress) (argument : String) : Except Stop Progress :=
  match progress.topics, progress.pending with
  | some topics, _ => progress.readTopic topics argument
  | none, some name =>
    if Shape.of argument = .plain then progress.readValue name argument
    else .error (.error (.missingValue name))
  | none, none => if progress.closed then progress.readPlain argument else progress.readOption argument

end Progress

/-- The action of a command with its options. -/
def actionOf (command : CommandName) (argument : String) (scope : Scope) : Action :=
  let format := (scope.values.lookup "format").bind OutputFormat.ofName?
  match command with
  | .check => .check argument
  | .tokens => .tokens argument format
  | .parse => .parse argument (scope.values.lookup "grammar") (scope.values.lookup "start") format

/-- Reads all arguments. Of two configuration files the one given after the command is used. -/
def readArguments (arguments : List String) : Except Stop Request := do
  let progress ← arguments.foldlM Progress.step .start
  if progress.topics.isSome then throw .help
  -- An option at the very end still waits for its value.
  if let some name := progress.pending then throw (.error (.missingValue name))
  match progress.scope.command, progress.scope.argument with
  | none, _ => throw (.error .missingCommand)
  | some command, none => throw (.error (.missingArgument command.argumentName))
  | some command, some argument =>
    return .run ((progress.scope.values.lookup "config").or (progress.front.values.lookup "config"))
      (progress.front.verbose || progress.scope.verbose) (actionOf command argument progress.scope)

/-- What the arguments ask for. -/
def Request.ofArguments (arguments : List String) : Except UsageError Request :=
  match readArguments arguments with
  | .ok request => .ok request
  | .error .help => .ok .help
  | .error .version => .ok .version
  | .error (.error error) => .error error

end Pushdown.Command
