import Pushdown.Lexer.Scan
import Pushdown.Parser.Basic

/-!
Parsing of whole inputs.
-/

namespace Pushdown

/-- The result of a parse, and the tokens that were not read for it. -/
structure ParseOutcome where
  result : Except ParseError Tree
  unread : List Token

namespace Parser

/-- The result after the last token that is read, which ends at `stop`. -/
def conclude (parser : Parser) (stop : Nat) : Except ParseError Tree :=
  match parser.root with
  | some tree => .ok tree
  | none => .error ⟨.missingEndMarker, .endMarker stop, parser.expected⟩

/-- Takes tokens until the start symbol is complete or a token cannot be consumed. -/
def run (parser : Parser) (stop : Nat) : List Token → ParseOutcome
  | [] => ⟨parser.conclude stop, []⟩
  | token :: unread =>
    match parser.pushToken token with
    | (.error error, _) => ⟨.error error, unread⟩
    | (.ok true, parser) => ⟨parser.conclude token.span.stop, unread⟩
    | (.ok false, parser) => parser.run token.span.stop unread

end Parser

namespace Grammar

/-- Parses tokens as a nonterminal. -/
def parseTokens (grammar : Grammar) (start : SymbolId) (tokens : List Token) :
    Except UndefinedSymbol ParseOutcome := do
  return (← (Parser.new grammar).setup start).run 0 tokens

/-- Parses a source as a nonterminal. -/
def parseSource (grammar : Grammar) (start : SymbolId) (source : String) :
    Except UndefinedSymbol ParseOutcome :=
  grammar.parseTokens start (lex source)

end Grammar

end Pushdown
