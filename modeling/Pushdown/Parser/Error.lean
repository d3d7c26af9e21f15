import Pushdown.Grammar.Basic
import Pushdown.Text.Quoted
import Pushdown.Tree.Render

/-!
Why a parse can fail.
-/

namespace Pushdown

/-- The classes of parse errors. -/
inductive ParseErrorKind where
  | unexpectedToken
  | unexpectedEnd
  | unresolvedLabel
deriving DecidableEq, Repr

def ParseErrorKind.describe : ParseErrorKind → String
  | unexpectedToken => "unexpected token"
  | unexpectedEnd => "unexpected end of input"
  | unresolvedLabel => "unresolved label"

/-- What a parser cannot do with a token. -/
inductive ParseFailure where
  /-- No parse has been started. -/
  | notStarted
  /-- The start symbol is complete, and the token cannot continue it. -/
  | tooMuchInput
  /-- No open nonterminal can consume the token. -/
  | badInput
  /-- The input ends while a nonterminal is incomplete. -/
  | incompleteInput
  /-- The grammar has no label for the token. -/
  | unknownToken
  /-- The tokens stop without an end marker. -/
  | missingEndMarker
deriving DecidableEq, Repr

namespace ParseFailure

def message : ParseFailure → String
  | notStarted => "parser not set up"
  | tooMuchInput => "too much input"
  | badInput => "bad input"
  | incompleteInput => "incomplete input"
  | unknownToken => "unknown token"
  | missingEndMarker => "missing end marker"

def kind : ParseFailure → ParseErrorKind
  | notStarted => .unexpectedToken
  | tooMuchInput => .unexpectedToken
  | badInput => .unexpectedToken
  | incompleteInput => .unexpectedEnd
  | unknownToken => .unresolvedLabel
  | missingEndMarker => .unexpectedEnd

end ParseFailure

/-- A failure at a token. -/
structure ParseError where
  failure : ParseFailure
  token : Token
  /-- The labels that could have been consumed instead, ascending. -/
  expected : List Label
deriving DecidableEq, Repr

namespace ParseError

def kind (error : ParseError) : ParseErrorKind := error.failure.kind

def message (error : ParseError) : String := error.failure.message

/-- The message with the place of the token. -/
def describe (error : ParseError) : String := s!"{error.message} at {error.token.span.describe}"

/-- The token in words. An end marker is not worth naming. -/
def foundPart (grammar : Grammar) (error : ParseError) : String :=
  if error.token.kind.isEndMarker then ""
  else s!", found {grammar.tokenName error.token.kind} " ++ Text.quoted error.token.text

/-- The expected labels in words. -/
def expectedPart (grammar : Grammar) (error : ParseError) : String :=
  if error.expected.isEmpty then ""
  else "; expected " ++ ", ".intercalate (error.expected.map grammar.describeLabel)

/-- The error in words: its kind and message, the token, and what was expected. -/
def render (grammar : Grammar) (error : ParseError) : String :=
  s!"{error.kind.describe}: {error.message}" ++ error.foundPart grammar ++ error.expectedPart grammar

end ParseError

/-- A nonterminal that a grammar does not define. -/
structure UndefinedSymbol where
  id : SymbolId
deriving DecidableEq, Repr

def UndefinedSymbol.message (undefined : UndefinedSymbol) : String :=
  s!"symbol {undefined.id.code} is not defined by the grammar"

end Pushdown
