import Pushdown.Grammar.Compile

/-!
Drafts: grammars that are being described step by step. Nonterminals are declared by name, and their automata grow
arc by arc. Labels are numbered in the order of their first use, and first sets are found at the end.
-/

namespace Pushdown

/-- A grammar under construction. -/
structure Draft where
  tokenNames : TokenNames
  labels : Array LabelEntry
  symbols : Array SymbolEntry
  starts : StartMap String
deriving DecidableEq, Repr

/-- A nonterminal that has not been declared. -/
structure UndeclaredSymbol where
  id : SymbolId
deriving DecidableEq, Repr

def UndeclaredSymbol.message (undeclared : UndeclaredSymbol) : String :=
  s!"symbol {undeclared.id.code} not declared"

namespace Draft

def empty : Draft := ⟨.empty, #[], #[], .empty⟩

/-- Gives a token kind its display name. -/
def nameToken (draft : Draft) (kind : TokenKind) (name : String) : Draft :=
  { draft with tokenNames := draft.tokenNames.insert kind name }

/-- Declares a nonterminal, unless there is one of the same name, and gives its id. -/
def declare (draft : Draft) (name : String) : SymbolId × Draft :=
  match draft.symbols.findIdx? (·.name = name) with
  | some i => (.ofIndex i, draft)
  | none => (.ofIndex draft.symbols.size, { draft with symbols := draft.symbols.push ⟨name, #[], []⟩ })

/-- The nonterminal of an id, if it has been declared. -/
def symbol (draft : Draft) (id : SymbolId) : Except UndeclaredSymbol SymbolEntry :=
  match draft.symbols[id.index]? with
  | some symbol => .ok symbol
  | none => .error ⟨id⟩

/-- Lets a start name stand for a declared nonterminal. -/
def start (draft : Draft) (name : String) (id : SymbolId) : Except UndeclaredSymbol Draft := do
  let symbol ← draft.symbol id
  return { draft with starts := draft.starts.insert name symbol.name }

/-- The label of an entry. A new entry is added to the table, even if there is no number left for it. -/
def intern (draft : Draft) (entry : LabelEntry) : Label × Draft :=
  match draft.labels.findIdx? (· = entry) with
  | some i => (⟨(min i 65535).toUInt16⟩, draft)
  | none =>
    (⟨(min draft.labels.size 65535).toUInt16⟩, { draft with labels := draft.labels.push entry })

/-- The states with as many new ones at the end as are needed to have one of the given number. -/
def growStates (states : Array StateEntry) (number : UInt32) : Array StateEntry :=
  states ++ Array.replicate (number.toNat + 1 - states.size) ⟨[], false⟩

/-- Changes a state of a nonterminal, which is created if it is new. -/
def changeState (symbol : SymbolEntry) (number : UInt32) (change : StateEntry → StateEntry) : SymbolEntry :=
  { symbol with states := (growStates symbol.states number).modify number.toNat change }

/-- Adds an arc to a declared nonterminal. Both of its states are created if they are new. -/
def addArc (draft : Draft) (id : SymbolId) (source : UInt32) (entry : LabelEntry) (target : UInt32) :
    Except UndeclaredSymbol Draft := do
  let symbol ← draft.symbol id
  let (label, draft) := draft.intern entry
  let symbol := changeState symbol target fun state => state
  let symbol := changeState symbol source fun state => { state with arcs := state.arcs ++ [⟨label, target⟩] }
  return { draft with symbols := draft.symbols.setIfInBounds id.index symbol }

/-- Lets a declared nonterminal end in a state, which is created if it is new. -/
def accept (draft : Draft) (id : SymbolId) (number : UInt32) : Except UndeclaredSymbol Draft := do
  let symbol ← draft.symbol id
  let symbol := changeState symbol number fun state => { state with accepting := true }
  return { draft with symbols := draft.symbols.setIfInBounds id.index symbol }

/-- The table as described, without first sets. -/
def skeleton (draft : Draft) : Table where
  version := Table.currentVersion
  tokenNames := draft.tokenNames
  labels := draft.labels
  symbols := draft.symbols
  starts := draft.starts

/-- The table as described, with the first sets of its nonterminals. -/
def table (draft : Draft) : Except Defect Table := do
  let skeleton := draft.skeleton
  skeleton.checkStructure
  let first ← skeleton.firstSets
  let complete := (skeleton.symbols.zip first).map fun (symbol, set) => { symbol with first := set.labels }
  return { skeleton with symbols := complete }

/-- The grammar as described. -/
def grammar (draft : Draft) : Except Defect Grammar := do Grammar.ofTable (← draft.table)

end Draft

end Pushdown
