import Pushdown.Table.Names

/-!
Grammar tables: one automaton for each nonterminal, over a common table of labels.

A table is what a grammar is written down as. It may hold any numbers; which tables make a grammar is decided
when they are compiled.
-/

namespace Pushdown

/-- What a label stands for. -/
inductive LabelEntry where
  /-- The tokens of a kind, or only those with one spelling. -/
  | token (kind : TokenKind) (text : Option String)
  | symbol (id : SymbolId)
deriving DecidableEq, Repr, Hashable

/-- A transition: the label that it consumes and the state it leads to. -/
structure Arc where
  label : Label
  target : UInt32
deriving DecidableEq, Repr

structure StateEntry where
  arcs : List Arc
  accepting : Bool
deriving DecidableEq, Repr

/-- The automaton of a nonterminal. State 0 is the initial state. -/
structure SymbolEntry where
  name : String
  states : Array StateEntry
  /-- The labels that can begin the nonterminal. -/
  first : List Label
deriving DecidableEq, Repr

/-- A grammar as it is written down. The nonterminal at position `i` has the id `SymbolId.ofIndex i`. -/
structure Table where
  version : UInt32
  tokenNames : TokenNames
  labels : Array LabelEntry
  symbols : Array SymbolEntry
  /-- Start names with the names of their nonterminals. -/
  starts : StartMap String
deriving DecidableEq, Repr

/-- The version of the tables described here. -/
def Table.currentVersion : UInt32 := 1

end Pushdown
