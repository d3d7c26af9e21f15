import Std.Data.HashMap
import Pushdown.Grammar.Compile

/-!
Label tables: the labels of a grammar by what they stand for.

The label of a spelling is found in two steps, by the kind of the token and then by its text. The tables are filled
while the entries are checked, and an entry that they have already is a duplicate.
-/

namespace Pushdown

/-- Where to look for the label of an entry. -/
structure LabelTables where
  /-- For tokens with one spelling, by kind and text. -/
  exact : Std.HashMap TokenKind (Std.HashMap String Label)
  /-- For all other tokens of a kind. -/
  generic : Std.HashMap TokenKind Label
  symbols : Std.HashMap SymbolId Label

namespace LabelTables

def empty : LabelTables := ⟨∅, ∅, ∅⟩

/-- The label of a spelling. -/
def spelled? (tables : LabelTables) (kind : TokenKind) (text : String) : Option Label := do
  let byText ← tables.exact[kind]?
  byText[text]?

/-- The label of an entry. -/
def get? (tables : LabelTables) : LabelEntry → Option Label
  | .token kind (some text) => tables.spelled? kind text
  | .token kind none => tables.generic[kind]?
  | .symbol id => tables.symbols[id]?

/-- Gives an entry its label. The texts of a kind have a table of their own from the first one on. -/
def insert (tables : LabelTables) (entry : LabelEntry) (label : Label) : LabelTables :=
  match entry with
  | .token kind (some text) =>
    { tables with exact := tables.exact.insert kind ((tables.exact.getD kind ∅).insert text label) }
  | .token kind none => { tables with generic := tables.generic.insert kind label }
  | .symbol id => { tables with symbols := tables.symbols.insert id label }

/-- Checks the entries from position `i` on, and gives them their labels. -/
def fill (table : Table) (tables : LabelTables) (i : Nat) : List LabelEntry → Except Defect LabelTables
  | [] => .ok tables
  | entry :: rest => do
    let label := Grammar.labelAt i
    table.checkEntry label entry
    match tables.get? entry with
    | some previous => throw (.duplicateLabel label previous)
    | none => fill table (tables.insert entry label) (i + 1) rest

/-- The tables of all entries of a table. -/
def ofTable (table : Table) : Except Defect LabelTables := fill table empty 0 table.labels.toList

/-- The label of a token: that of its spelling, else that of its kind. An end marker always has a label. -/
def resolve? (tables : LabelTables) (kind : TokenKind) (text : String) : Option Label :=
  (tables.spelled? kind text).or <|
    tables.generic[kind]?.or <|
      if kind.isEndMarker then some .implicitEnd else none

end LabelTables

end Pushdown
