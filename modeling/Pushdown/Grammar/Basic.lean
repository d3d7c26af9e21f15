import Pushdown.Grammar.LabelSet
import Pushdown.Table.Basic

/-!
Compiled grammars: for each nonterminal an automaton whose states know, for every terminal label, the one arc
that can consume it.
-/

namespace Pushdown

/-- A state of an automaton. -/
structure State where
  /-- The outgoing arcs, in the order of the table. -/
  arcs : List Arc
  /-- Whether the nonterminal may end here. -/
  accepting : Bool
  /-- The terminal labels that can be consumed here, ascending, each with the arc that consumes it. -/
  lookup : List (Label × Arc)
deriving DecidableEq, Repr

namespace State

/-- A state that nothing leaves and in which nothing may end. -/
def dead : State := ⟨[], false, []⟩

/-- The arc that consumes a terminal label, by the label itself or through a nonterminal that it can begin. -/
def arcFor? (state : State) (label : Label) : Option Arc := state.lookup.lookup label

/-- The terminal labels that can be consumed, ascending. -/
def expected (state : State) : List Label := state.lookup.map Prod.fst

end State

/-- The automaton of a nonterminal. State 0 is the initial state. -/
structure Automaton where
  symbol : SymbolId
  name : String
  states : Array State
  /-- The terminal labels that can begin the nonterminal. -/
  first : LabelSet
deriving DecidableEq, Repr

/-- A state by number. No arc of a compiled grammar leads to a number without a state. -/
def Automaton.state (automaton : Automaton) (number : UInt32) : State :=
  (automaton.states[number.toNat]?).getD .dead

/-- A compiled grammar. -/
structure Grammar where
  labels : Array LabelEntry
  /-- One automaton for each nonterminal, by position. -/
  automata : Array Automaton
  starts : StartMap SymbolId
  tokenNames : TokenNames
deriving DecidableEq, Repr

/-- The size of a grammar. -/
structure GrammarSummary where
  symbols : Nat
  labels : Nat
  states : Nat
  arcs : Nat
  starts : Nat
deriving DecidableEq, Repr

def GrammarSummary.describe (summary : GrammarSummary) : String :=
  s!"{summary.symbols} symbols, {summary.labels} labels, {summary.states} states, {summary.arcs} arcs, " ++
    s!"{summary.starts} start symbols"

namespace Grammar

/-- The label at a position, for positions of a label table. -/
def labelAt (i : Nat) : Label := ⟨i.toUInt16⟩

/-- The label of an entry. -/
def labelOf? (grammar : Grammar) (entry : LabelEntry) : Option Label :=
  (grammar.labels.findIdx? (· = entry)).map labelAt

/--
The label of a token: the entry for its kind and exact text, else the entry for its kind. An end marker always
has a label.
-/
def resolve? (grammar : Grammar) (kind : TokenKind) (text : String) : Option Label :=
  (grammar.labelOf? (.token kind (some text))).or <|
    (grammar.labelOf? (.token kind none)).or <|
      if kind.isEndMarker then some .implicitEnd else none

/-- What a label stands for. -/
def entry? (grammar : Grammar) (label : Label) : Option LabelEntry := grammar.labels[label.index]?

/-- The automaton of a nonterminal. -/
def automaton? (grammar : Grammar) (id : SymbolId) : Option Automaton :=
  if id.code < SymbolId.firstCode then none else grammar.automata[id.index]?

/-- The terminal labels that can begin a nonterminal. -/
def first? (grammar : Grammar) (id : SymbolId) : Option LabelSet := (grammar.automaton? id).map (·.first)

/-- The nonterminal of a name. -/
def symbolOf? (grammar : Grammar) (name : String) : Option SymbolId :=
  (grammar.automata.find? (·.name = name)).map (·.symbol)

/-- The name of a nonterminal. -/
def symbolName? (grammar : Grammar) (id : SymbolId) : Option String := (grammar.automaton? id).map (·.name)

/-- The nonterminal of a start name. -/
def start? (grammar : Grammar) (name : String) : Option SymbolId := grammar.starts.get? name

/-- The name of a token kind: the grammar's own, else the standard one, else its code. -/
def tokenName (grammar : Grammar) (kind : TokenKind) : String :=
  match grammar.tokenNames.get? kind with
  | some name => name
  | none => kind.standardName?.getD s!"token {kind.code}"

/-- A label in words: a spelling in quotes, otherwise the name of the token kind or nonterminal. -/
def describeLabel (grammar : Grammar) (label : Label) : String :=
  match grammar.entry? label with
  | some (.token _ (some text)) => s!"'{text}'"
  | some (.token kind none) => grammar.tokenName kind
  | some (.symbol id) => (grammar.symbolName? id).getD s!"symbol {id.code}"
  | none => if label = .implicitEnd then "end of input" else s!"label {label.code}"

def summary (grammar : Grammar) : GrammarSummary where
  symbols := grammar.automata.size
  labels := grammar.labels.size
  states := total (·.states.size) grammar.automata.toList
  arcs := total (fun automaton => total (·.arcs.length) automaton.states.toList) grammar.automata.toList
  starts := grammar.starts.entries.length

end Grammar

end Pushdown
