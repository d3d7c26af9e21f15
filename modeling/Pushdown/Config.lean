import Pushdown.Text.Path
import Pushdown.Toml.Reader

/-!
Settings for the command line, read from a configuration file.
-/

namespace Pushdown

/-- How trees and tokens are printed. -/
inductive OutputFormat where
  | tree
  | json
deriving DecidableEq, Repr

/-- The format of a name. -/
def OutputFormat.ofName? (name : String) : Option OutputFormat :=
  if name = "tree" then some .tree else if name = "json" then some .json else none

/-- Settings with their defaults. -/
structure Config where
  /-- The file that the settings come from. -/
  configPath : Option String := none
  /-- The path of the grammar, relative to where the program runs. -/
  grammar : Option String := none
  /-- The start name to parse. -/
  start : Option String := none
  logFilter : Option String := none
  format : OutputFormat := .tree
  /-- Whether places in the source are printed. -/
  ranges : Bool := true
  /-- What went wrong while the settings were read. -/
  warnings : List String := []
deriving DecidableEq, Repr

/-- What a configuration file says. -/
structure ConfigFile where
  grammarPath : Option String
  start : Option String
  logFilter : Option String
  format : Option OutputFormat
  ranges : Option Bool
deriving DecidableEq, Repr

namespace Toml

def text? : Toml → Option String
  | string text => some text
  | _ => none

def bool? : Toml → Option Bool
  | bool value => some value
  | _ => none

/-- A format is given by its name, or by a table with the name as its only key and nothing below it. -/
def format? : Toml → Option OutputFormat
  | string name => OutputFormat.ofName? name
  | table _ [(name, table _ [])] => OutputFormat.ofName? name
  | table _ [(name, array _ [])] => OutputFormat.ofName? name
  | _ => none

/-- The values of the keys in a table that has no others. -/
def only? (keys : List String) (fields : Fields) : Option (List (Option Toml)) :=
  if fields.all fun (key, _) => keys.contains key then some (keys.map fun key => fields.lookup key) else none

/-- The values of a section: a table that has no other keys, or an array with the values in the order of the keys. -/
def section? (keys : List String) : Option Toml → Option (List (Option Toml))
  | none => some (keys.map fun _ => none)
  | some (table _ fields) => only? keys fields
  | some (array _ items) => some ((List.range keys.length).map (items[·]?))
  | some _ => none

/-- A value that may be missing. -/
def optional? {α : Type} (read? : Toml → Option α) : Option Toml → Option (Option α)
  | none => some none
  | some value => (read? value).map some

end Toml

namespace ConfigFile

/-- The settings of a document. Every section may be missing, but nothing else may be there. -/
def ofFields? (fields : Toml.Fields) : Option ConfigFile := do
  match ← Toml.only? ["grammar", "log", "output"] fields with
  | [grammar, log, output] =>
    match ← Toml.section? ["path", "start"] grammar, ← Toml.section? ["filter"] log,
        ← Toml.section? ["format", "ranges"] output with
    | [path, start], [filter], [format, ranges] =>
      return {
        grammarPath := ← Toml.optional? Toml.text? path
        start := ← Toml.optional? Toml.text? start
        logFilter := ← Toml.optional? Toml.text? filter
        format := ← Toml.optional? Toml.format? format
        ranges := ← Toml.optional? Toml.bool? ranges }
    | _, _, _ => none
  | _ => none

def ofText? (text : String) : Option ConfigFile := do ofFields? (← Toml.read? text)

end ConfigFile

namespace Config

/-- The names that a configuration file may have, the preferred one first. -/
def fileNames : List String := ["pgen.toml", ".pgen.toml"]

/-- The warning that a configuration file makes no sense. -/
def parseWarning : Option String → String
  | some path => s!"Failed to parse pgen config at {path}"
  | none => "Failed to parse pgen config"

/-- The warning that a configuration file cannot be read. -/
def readWarning (path reason : String) : String := s!"Failed to read pgen config at {path}: {reason}"

/--
The settings of the text of a configuration file. A path in it is relative to the folder of the file. A text that
makes no sense leaves all settings at their defaults.
-/
def ofText (path : Option String) (text : String) : Config :=
  match ConfigFile.ofText? text with
  | none => { configPath := path, warnings := [parseWarning path] }
  | some file =>
    let folder := (path.bind Text.Path.parent?).getD ""
    { configPath := path
      grammar := file.grammarPath.map (Text.Path.join folder)
      start := file.start
      logFilter := file.logFilter
      format := file.format.getD .tree
      ranges := file.ranges.getD true }

end Config

/-- What to parse with, and how to print it. -/
structure ParseOptions where
  grammar : Option String
  start : Option String
  format : OutputFormat
  ranges : Bool
deriving DecidableEq, Repr

/-- Choices made on the command line go before settings. -/
def ParseOptions.merge (grammar start : Option String) (format : Option OutputFormat) (config : Config) :
    ParseOptions where
  grammar := grammar.or config.grammar
  start := start.or config.start
  format := format.getD config.format
  ranges := config.ranges

end Pushdown
