import Pushdown.Json.Basic
import Pushdown.Json.Reader
import Pushdown.Json.Writer
import Pushdown.Table.Basic

/-!
Grammar tables in JSON form: `Table.toJson` and `Table.ofJson?`.

Both work part by part, so each part of a table has its form (`LabelEntry.toJson`, `Arc.toJson`, ...) and its
reader. Fields that have a default may be left out by a table that is read; the writer leaves out an empty
map of token names and the spelling of a label that has none.
-/

namespace Pushdown

namespace LabelEntry

def toJson : LabelEntry → Json
  | token kind none => .ofFields [("token", .ofFields [("type", .ofNat kind.code.toNat)])]
  | token kind (some text) =>
    .ofFields [("token", .ofFields [("type", .ofNat kind.code.toNat), ("text", .ofText text)])]
  | symbol id => .ofFields [("symbol", .ofNat id.code.toNat)]

/-- A spelling may be absent or null. -/
def spelling? : Option Json → Option (Option String)
  | none => some none
  | some .null => some none
  | some value => value.text?.map some

def ofJson? (value : Json) : Option LabelEntry := do
  match ← value.fields? with
  | [("token", payload)] =>
    match ← payload.record? ["type", "text"] with
    | [some kind, text] => return token ⟨← kind.uint16?⟩ (← spelling? text)
    | _ => none
  | [("symbol", payload)] => return symbol ⟨← payload.uint16?⟩
  | _ => none

end LabelEntry

namespace Arc

def toJson (arc : Arc) : Json := .array [.ofNat arc.label.code.toNat, .ofNat arc.target.toNat]

def ofJson? (value : Json) : Option Arc := do
  match ← value.items? with
  | [label, target] => return ⟨⟨← label.uint16?⟩, ← target.uint32?⟩
  | _ => none

end Arc

namespace StateEntry

def toJson (state : StateEntry) : Json :=
  .ofFields [("arcs", .array (state.arcs.map Arc.toJson)), ("accepting", .bool state.accepting)]

/-- A state is not accepting unless it says so. -/
def accepting? : Option Json → Option Bool
  | none => some false
  | some value => value.bool?

def ofJson? (value : Json) : Option StateEntry := do
  match ← value.record? ["arcs", "accepting"] with
  | [some arcs, accepting] => return ⟨← arcs.listOf? Arc.ofJson?, ← accepting? accepting⟩
  | _ => none

end StateEntry

namespace SymbolEntry

def toJson (symbol : SymbolEntry) : Json :=
  .ofFields [
    ("name", .ofText symbol.name),
    ("states", .array (symbol.states.toList.map StateEntry.toJson)),
    ("first", .array (symbol.first.map fun label => .ofNat label.code.toNat))]

def ofJson? (value : Json) : Option SymbolEntry := do
  match ← value.record? ["name", "states", "first"] with
  | [some name, some states, some first] =>
    return ⟨← name.text?, (← states.listOf? StateEntry.ofJson?).toArray,
      ← first.listOf? fun label => label.uint16?.map Label.mk⟩
  | _ => none

end SymbolEntry

namespace TokenNames

def toJson (names : TokenNames) : Json :=
  .object (names.entries.map fun (kind, name) => (toString kind.code.toNat, .ofText name))

/-- The kind that a key stands for: its code in decimal digits, without superfluous zeros. -/
def kind? (key : String) : Option TokenKind :=
  if Json.naturalPattern.accepts key.toList then (Json.digits? 65536 key).map fun code => ⟨code.toUInt16⟩
  else none

/-- Of several names for a kind the last one holds. -/
def ofJson? : Json → Option TokenNames
  | .object fields => fields.foldlM (fun names (key, value) => do
      return names.insert (← kind? key) (← value.text?)) empty
  | _ => none

end TokenNames

namespace StartMap

def toJson (starts : StartMap String) : Json :=
  .ofFields (starts.entries.map fun (name, symbol) => (name, .ofText symbol))

/-- Of several nonterminals for a name the last one holds, at the place of the first. -/
def ofJson? (value : Json) : Option (StartMap String) := do
  (← value.fields?).foldlM (fun starts (name, symbol) => return starts.insert name (← symbol.text?)) empty

end StartMap

namespace Table

def toJson (table : Table) : Json :=
  .ofFields <|
    [("version", .ofNat table.version.toNat)] ++
    (if table.tokenNames.entries.isEmpty then [] else [("token_names", table.tokenNames.toJson)]) ++
    [("labels", .array (table.labels.toList.map LabelEntry.toJson)),
     ("symbols", .array (table.symbols.toList.map SymbolEntry.toJson)),
     ("start", table.starts.toJson)]

/-- Token names may be left out. -/
def tokenNames? : Option Json → Option TokenNames
  | none => some .empty
  | some value => TokenNames.ofJson? value

def ofJson? (value : Json) : Option Table := do
  match ← value.record? ["version", "token_names", "labels", "symbols", "start"] with
  | [some version, names, some labels, some symbols, some starts] =>
    return {
      version := ← version.uint32?
      tokenNames := ← tokenNames? names
      labels := (← labels.listOf? LabelEntry.ofJson?).toArray
      symbols := (← symbols.listOf? SymbolEntry.ofJson?).toArray
      starts := ← StartMap.ofJson? starts }
  | _ => none

/-- Reads the text of a table. -/
def ofText? (text : String) : Option Table := do ofJson? (← Json.read? text)

end Table

end Pushdown
