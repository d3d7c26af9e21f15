import Std.Data.HashMap
import Std.Data.HashSet
import Pushdown.Grammar.Basic
import Pushdown.Grammar.FirstSets
import Pushdown.Table.Json

/-!
From tables to grammars and back, and from texts to grammars and back.

`Grammar.ofTable` checks a table and builds the grammar. All that a parser relies on is established here: every
number in range, exact first sets, and at most one arc for a label in each state. The first defect is reported.
-/

namespace Pushdown

namespace Table

/-- As many nonterminals as there are codes for them. -/
def maxSymbols : Nat := 65280

/-- All 16-bit numbers but the one of `Label.implicitEnd`. -/
def maxLabels : Nat := 65535

def checkSize (table : Table) : Except Defect Unit := do
  if table.version ≠ currentVersion then throw (.unsupportedVersion table.version)
  if table.symbols.size = 0 then throw .noSymbols
  if maxSymbols < table.symbols.size then throw (.tooManySymbols table.symbols.size)
  if maxLabels < table.labels.size then throw (.tooManyLabels table.labels.size)

/-- The names have to differ from each other and from those seen before. -/
def checkNames (seen : Std.HashSet String) : List String → Except Defect Unit
  | [] => .ok ()
  | name :: rest =>
    if seen.contains name then .error (.duplicateSymbol name) else checkNames (seen.insert name) rest

/-- A label stands for a kind of tokens or for a nonterminal of the table. -/
def checkEntry (table : Table) (label : Label) : LabelEntry → Except Defect Unit
  | .token kind _ => if kind.isTerminal then .ok () else .error (.notATerminal label kind)
  | .symbol id =>
    if id.code < SymbolId.firstCode ∨ table.symbols.size ≤ id.index then .error (.unknownSymbol label id)
    else .ok ()

/-- Checks the entries from position `i` on. They have to differ from those seen before. -/
def checkLabels (table : Table) (seen : Std.HashMap LabelEntry Label) (i : Nat) :
    List LabelEntry → Except Defect Unit
  | [] => .ok ()
  | entry :: rest => do
    let label := Grammar.labelAt i
    table.checkEntry label entry
    match seen[entry]? with
    | some previous => throw (.duplicateLabel label previous)
    | none => checkLabels table (seen.insert entry label) (i + 1) rest

/-- An arc of the state at position `i` leads along a label of the table to a state of the same nonterminal. -/
def checkArc (table : Table) (symbol : SymbolEntry) (i : Nat) (arc : Arc) : Except Defect Unit := do
  if table.labels.size ≤ arc.label.index then throw (.labelOutOfRange symbol.name i.toUInt32 arc.label)
  if symbol.states.size ≤ arc.target.toNat then throw (.targetOutOfRange symbol.name i.toUInt32 arc.target)

/-- A nonterminal has an initial state, which is not accepting, and its arcs are sound. -/
def checkSymbol (table : Table) (symbol : SymbolEntry) : Except Defect Unit := do
  match symbol.states[0]? with
  | none => throw (.noStates symbol.name)
  | some initial => if initial.accepting then throw (.nullable symbol.name)
  symbol.states.toList.zipIdx.forM fun (state, i) => state.arcs.forM (table.checkArc symbol i)

/-- All checks that look at one part of the table at a time. -/
def checkStructure (table : Table) : Except Defect Unit := do
  table.checkSize
  checkNames ∅ (table.symbols.toList.map (·.name))
  table.checkLabels ∅ 0 table.labels.toList
  table.symbols.toList.forM table.checkSymbol

/-- The labels said to begin a nonterminal are exactly those that do, each named once. -/
def checkFirst (symbol : SymbolEntry) (first : LabelSet) : Except Defect Unit :=
  if LabelSet.ofList symbol.first = first ∧ symbol.first.length = first.labels.length then .ok ()
  else .error (.firstMismatch symbol.name)

/-- The state of a grammar for the state at position `i` of a nonterminal. -/
def compileState (table : Table) (first : Array LabelSet) (symbol : SymbolEntry) (state : StateEntry)
    (i : Nat) : Except Defect State :=
  match table.lookupOf first state.arcs with
  | .ok lookup => .ok { arcs := state.arcs, accepting := state.accepting, lookup }
  | .error label => .error (.ambiguous symbol.name i.toUInt32 label)

/-- The automaton of the nonterminal at position `i`. -/
def compileSymbol (table : Table) (first : Array LabelSet) (symbol : SymbolEntry) (i : Nat) :
    Except Defect Automaton := do
  let states ← symbol.states.toList.zipIdx.mapM fun (state, j) => table.compileState first symbol state j
  return {
    symbol := .ofIndex i
    name := symbol.name
    states := states.toArray
    first := (first[i]?).getD .empty }

/-- The nonterminals that the start names stand for. -/
def compileStarts (table : Table) : Except Defect (StartMap SymbolId) := do
  if table.starts.entries.isEmpty then throw .noStarts
  table.starts.entries.foldlM
    (fun starts (name, symbol) =>
      match table.symbols.findIdx? (·.name = symbol) with
      | some i => .ok (starts.insert name (.ofIndex i))
      | none => .error (.unknownStart name symbol))
    StartMap.empty

end Table

namespace Grammar

/-- The grammar that a table describes. -/
def ofTable (table : Table) : Except Defect Grammar := do
  table.checkStructure
  let first ← table.firstSets
  -- All first sets are compared before any state is looked at.
  (table.symbols.toList.zip first.toList).forM fun (symbol, set) => Table.checkFirst symbol set
  let automata ← table.symbols.toList.zipIdx.mapM fun (symbol, i) => table.compileSymbol first symbol i
  let starts ← table.compileStarts
  return { labels := table.labels, automata := automata.toArray, starts, tokenNames := table.tokenNames }

/-- The state of a table for a state of the grammar. -/
def stateEntry (state : State) : StateEntry := ⟨state.arcs, state.accepting⟩

/-- The nonterminal of a table for an automaton of the grammar. -/
def symbolEntry (automaton : Automaton) : SymbolEntry where
  name := automaton.name
  states := automaton.states.map stateEntry
  first := automaton.first.labels

/-- The start map with the names of the nonterminals. -/
def startNames (grammar : Grammar) : StartMap String :=
  grammar.starts.entries.foldl
    (fun starts (name, id) => starts.insert name ((grammar.symbolName? id).getD "")) .empty

/-- The table that describes a grammar. -/
def toTable (grammar : Grammar) : Table where
  version := Table.currentVersion
  tokenNames := grammar.tokenNames
  labels := grammar.labels
  symbols := grammar.automata.map symbolEntry
  starts := grammar.startNames

/-- Reads and checks the text of a table. Of a text that is no table, `explain` says why it is none. -/
def load (explain : String → String) (text : String) : Except Defect Grammar :=
  match Table.ofText? text with
  | none => .error (.notATable (explain text))
  | some table => ofTable table

/-- The text of the grammar's table, with one item per line. -/
def dump (grammar : Grammar) : String := grammar.toTable.toJson.pretty

end Grammar

end Pushdown
