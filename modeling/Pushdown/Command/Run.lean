import Pushdown.Command.Arguments
import Pushdown.Command.Files
import Pushdown.Grammar.Compile
import Pushdown.Parser.Run
import Pushdown.Text.Position

/-!
The commands of the program. They read files through a given access and say what is to be printed, so they can be run
on files in memory as well.
-/

namespace Pushdown

namespace Grammar

/-- The line of a nonterminal: its id and name, the number of its states, and what can begin it. -/
def symbolLine (grammar : Grammar) (automaton : Automaton) : String :=
  let first := ", ".intercalate (automaton.first.labels.map grammar.describeLabel)
  s!"  {automaton.symbol.code} {automaton.name}: {automaton.states.size} states, first {first}\n"

/-- The line of the label at a position. -/
def labelLine (grammar : Grammar) (i : Nat) : String :=
  let label := labelAt i
  s!"  {label.code} {grammar.describeLabel label}\n"

/-- The line of a start name: the nonterminal that it stands for. -/
def startLine (grammar : Grammar) (name : String) (id : SymbolId) : String :=
  s!"  {name} = " ++ (grammar.symbolName? id).getD "?" ++ "\n"

/-- A grammar at a glance: its size, nonterminals, labels and start names. -/
def report (grammar : Grammar) : String :=
  s!"grammar: {grammar.summary.describe}\n" ++
    "symbols:\n" ++ String.join (grammar.automata.toList.map grammar.symbolLine) ++
    "labels:\n" ++ String.join ((List.range grammar.labels.size).map grammar.labelLine) ++
    "start:\n" ++ String.join (grammar.starts.entries.map fun (name, id) => grammar.startLine name id)

end Grammar

namespace Command

/-- What a run of the program leaves behind. -/
structure Outcome where
  exitCode : UInt32
  output : String
  errors : String
deriving DecidableEq, Repr

namespace Outcome

/-- A run that prints a text and nothing else. -/
def printed (text : String) : Outcome := ⟨0, text, ""⟩

/-- A run that cannot go on. -/
def failed (reason : String) : Outcome := ⟨1, "", s!"Error: {reason}\n"⟩

/-- A run whose arguments make no sense. -/
def misused (error : UsageError) : Outcome := ⟨2, "", s!"error: {error.message}\n"⟩

end Outcome

/-- How the program is used. -/
def usage : String :=
  "Usage: pgen [--config CONFIG] [--verbose] COMMAND\n\n" ++
    "Commands:\n" ++
    "  check GRAMMAR\n" ++
    "  tokens [--format tree|json] FILE\n" ++
    "  parse [--grammar GRAMMAR] [--start START] [--format tree|json] FILE\n"

def versionLine : String := "pgen 0.1.0\n"

/-- One line for each token, with its place if places are shown. -/
def tokenLines (places : Bool) (tokens : List Token) : String :=
  String.join (tokens.map fun token =>
    token.kind.standardName?.getD "?" ++ Tree.place places (some token.span) ++ " " ++ Text.quoted token.text ++
      "\n")

/-- The tokens as they are printed. -/
def showTokens (format : OutputFormat) (places : Bool) (tokens : List Token) : String :=
  match format with
  | .tree => tokenLines places tokens
  | .json => (Json.array (tokens.map Token.toJson)).compact ++ "\n"

/-- A tree with the names of all nonterminals. -/
def treeDocument (grammar : Grammar) (tree : Tree) : Json :=
  .ofFields [
    ("symbols", .ofFields (grammar.automata.toList.map fun automaton =>
      (toString automaton.symbol.code.toNat, .ofText automaton.name))),
    ("tree", tree.toJson)]

/-- The tree as it is printed. -/
def showTree (format : OutputFormat) (places : Bool) (grammar : Grammar) (tree : Tree) : String :=
  match format with
  | .tree => tree.render grammar places
  | .json => (treeDocument grammar tree).sortKeys.compact ++ "\n"

/-- A parse error with its place in the file. -/
def diagnostic (file source : String) (grammar : Grammar) (error : ParseError) : String :=
  let position := Text.Position.ofOffset source error.token.span.start
  s!"{file}:{position.line}:{position.column}: " ++ error.render grammar

/-- The nonterminal of a start name. Without a name it is that of the first one. -/
def chooseStart (grammar : Grammar) : Option String → Except String SymbolId
  | some name =>
    match grammar.start? name with
    | some id => .ok id
    | none =>
      let known := ", ".intercalate (grammar.starts.entries.map Prod.fst)
      .error (s!"unknown start symbol `{name}` (known: " ++ known ++ ")")
  | none =>
    match grammar.starts.entries with
    | (_, id) :: _ => .ok id
    | [] => .error "grammar declares no start symbols"

/-- Parses a source and shows its tree or what is wrong with it. -/
def parseAndShow (options : ParseOptions) (file source : String) (grammar : Grammar) (start : SymbolId) :
    Outcome :=
  match grammar.parseSource start source with
  | .error undefined => .failed undefined.message
  | .ok ⟨.ok tree, _⟩ => .printed (showTree options.format options.ranges grammar tree)
  | .ok ⟨.error error, _⟩ => ⟨1, "", diagnostic file source grammar error ++ "\n"⟩

section

variable {m : Type → Type} [Monad m]

/-- Reads the text of a file, or says what could not be read. -/
def readText (files : FileAccess m) (what path : String) : ExceptT String m String := do
  match ← files.read path with
  | .ok text => return text
  | .error error => throw s!"failed to read {what}{path}: {error.message}"

-- What is said of a text that is no table.
variable (explain : String → String)

def loadGrammar (files : FileAccess m) (path : String) : ExceptT String m Grammar := do
  match Grammar.load explain (← readText files "grammar " path) with
  | .ok grammar => return grammar
  | .error defect => throw s!"invalid grammar {path}: {defect.message}"

/-- The configuration file of a folder, if it has one. -/
def findConfig (files : FileAccess m) (folder : String) : m (Option String) :=
  (Config.fileNames.map (Text.Path.join folder)).findM? files.isFile

/-- The settings of a given configuration file, or of the one in the folder. -/
def loadConfig (files : FileAccess m) (folder : String) (given : Option String) : m Config := do
  let path ← match given with
    | some path => pure (some path)
    | none => findConfig files folder
  match path with
  | none => return {}
  | some path =>
    match ← files.read path with
    | .ok text => return .ofText (some path) text
    | .error error => return { configPath := some path, warnings := [Config.readWarning path error.message] }

def runCheck (files : FileAccess m) (path : String) : ExceptT String m Outcome := do
  return .printed (← loadGrammar explain files path).report

def runTokens (files : FileAccess m) (file : String) (format : OutputFormat) (places : Bool) :
    ExceptT String m Outcome := do
  return .printed (showTokens format places (lex (← readText files "" file)))

def runParse (files : FileAccess m) (file : String) (options : ParseOptions) : ExceptT String m Outcome := do
  let some path := options.grammar
    | throw "no grammar given; pass --grammar or set [grammar] path in pgen.toml"
  -- The grammar and the start name are looked at before the file, and their errors go first.
  let grammar ← loadGrammar explain files path
  let start ← chooseStart grammar options.start
  return parseAndShow options file (← readText files "" file) grammar start

/-- Does what is asked for, with the settings given. -/
def perform (files : FileAccess m) (config : Config) : Action → ExceptT String m Outcome
  | .check path => runCheck explain files path
  | .tokens file format => runTokens files file (format.getD config.format) config.ranges
  | .parse file grammar start format => runParse explain files file (.merge grammar start format config)

/-- Runs the program in a folder. -/
def run (files : FileAccess m) (folder : String) (arguments : List String) : m Outcome :=
  match Request.ofArguments arguments with
  | .error error => return .misused error
  | .ok .help => return .printed usage
  | .ok .version => return .printed versionLine
  | .ok (.run given _ action) => do
    let config ← loadConfig files folder given
    match ← (perform explain files config action).run with
    | .ok outcome => return outcome
    | .error reason => return .failed reason

end

end Command

end Pushdown
