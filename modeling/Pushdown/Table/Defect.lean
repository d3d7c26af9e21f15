import Pushdown.Table.Basic

/-!
What can be wrong with a grammar table.
-/

namespace Pushdown

/-- A reason why a table makes no grammar. The number of a state is its position, taken modulo `2 ^ 32`. -/
inductive Defect where
  /-- The text is not a table at all, for the reason that its reader gives. -/
  | notATable (reason : String)
  | unsupportedVersion (version : UInt32)
  | noSymbols
  | tooManySymbols (count : Nat)
  | tooManyLabels (count : Nat)
  | duplicateSymbol (name : String)
  | noStates (symbol : String)
  | targetOutOfRange (symbol : String) (state : UInt32) (target : UInt32)
  | labelOutOfRange (symbol : String) (state : UInt32) (label : Label)
  | unknownSymbol (label : Label) (id : SymbolId)
  | notATerminal (label : Label) (kind : TokenKind)
  /-- Two labels stand for the same. -/
  | duplicateLabel (label previous : Label)
  /-- A nonterminal can stand for no token at all. -/
  | nullable (symbol : String)
  | leftRecursion (symbol : String)
  /-- The labels said to begin a nonterminal are not those that do. -/
  | firstMismatch (symbol : String)
  /-- Two arcs of a state can consume the same label. -/
  | ambiguous (symbol : String) (state : UInt32) (label : Label)
  | unknownStart (name symbol : String)
  | noStarts
deriving DecidableEq, Repr

/-- The defect in words. -/
def Defect.message : Defect → String
  | notATable reason => s!"invalid grammar table: {reason}"
  | unsupportedVersion version => s!"unsupported grammar table version {version}"
  | noSymbols => "grammar table defines no symbols"
  | tooManySymbols count => s!"grammar table defines too many symbols ({count})"
  | tooManyLabels count => s!"grammar table defines too many labels ({count})"
  | duplicateSymbol name => s!"duplicate symbol name '{name}'"
  | noStates symbol => s!"symbol '{symbol}' has no states"
  | targetOutOfRange symbol state target => s!"symbol '{symbol}' state {state}: arc target {target} out of range"
  | labelOutOfRange symbol state label =>
    s!"symbol '{symbol}' state {state}: label {label.code} out of range"
  | unknownSymbol label id => s!"label {label.code} refers to unknown symbol {id.code}"
  | notATerminal label kind =>
    s!"label {label.code} uses token type {kind.code}, which is not a terminal code"
  | duplicateLabel label previous => s!"label {label.code} duplicates label {previous.code}"
  | nullable symbol => s!"symbol '{symbol}' can derive the empty string"
  | leftRecursion symbol => s!"left recursion through symbol '{symbol}'"
  | firstMismatch symbol => s!"symbol '{symbol}': declared first set does not match its DFA"
  | ambiguous symbol state label => s!"symbol '{symbol}' state {state} is ambiguous on label {label.code}"
  | unknownStart name symbol => s!"start '{name}' names unknown symbol '{symbol}'"
  | noStarts => "grammar table declares no start symbols"

end Pushdown
