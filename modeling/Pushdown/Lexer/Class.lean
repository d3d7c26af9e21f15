import Pushdown.Token
import Pushdown.Text.Pattern

/-!
The lexical classes: names, numbers, strings and operators, which become tokens, and blanks and comments,
which are skipped.
-/

namespace Pushdown

/-- The classes of lexemes. -/
inductive LexClass where
  | name
  | number
  | string
  | operator
  | blank
  | comment
deriving DecidableEq, Repr

namespace LexClass

/-- Every class, in the order in which they are tried. -/
def all : List LexClass := [name, number, string, operator, blank, comment]

/-- The kind of the tokens of a class; blanks and comments give none. -/
def kind? : LexClass → Option TokenKind
  | name => some .name
  | number => some .number
  | string => some .string
  | operator => some .operator
  | blank => none
  | comment => none

/-- ASCII letters and the underscore. -/
def isNameStart (c : Char) : Bool := c.isAlpha || c = '_'

/-- ASCII letters, ASCII digits and the underscore. -/
def isNameRest (c : Char) : Bool := c.isAlphanum || c = '_'

def isLineEnd (c : Char) : Bool := c = '\r' || c = '\n'

/-- Space, tab, carriage return, line feed and form feed. -/
def isBlank (c : Char) : Bool := c = ' ' || c = '\t' || c = '\r' || c = '\n' || c = '\x0c'

/-- The characters that are operators on their own. -/
def isOperatorChar (c : Char) : Bool :=
  ['-', '+', '*', '/', '%', '<', '>', '=', '!', '&', '|', '^', '~', '@', '.', ',', ':', ';', '(', ')', '[',
    ']', '\x7b', '\x7d', '?'].contains c

/-- The operators of more than one character. -/
def longOperators : List String :=
  ["**", "//", "==", "!=", "<=", ">=", "<<", ">>", "->", ":=", "+=", "-=", "*=", "/=", "&&", "||", "..."]

/--
A string between two equal quotes on one line. A backslash takes the next character with it, whatever it is,
unless that is a line feed.
-/
def quotedBy (quote : Char) : Pattern :=
  .seq (.one quote) (.seq
    (.star (.alt (.char fun c => !(c = quote || c = '\\' || isLineEnd c))
      (.seq (.one '\\') (.char (· ≠ '\n')))))
    (.one quote))

open Pattern in
/-- The lexemes of a class. -/
def pattern : LexClass → Pattern
  | name => .seq (.char isNameStart) (.star (.char isNameRest))
  | number =>
    let digits : Pattern := plus (.char Char.isDigit)
    .seq digits (.seq
      (optional (.seq (one '.') digits))
      (optional (.seq (.char fun c => c = 'e' || c = 'E')
        (.seq (optional (.char fun c => c = '+' || c = '-')) digits))))
  | string => .alt (quotedBy '"') (quotedBy '\'')
  | operator => .alt (anyOf (longOperators.map fun s => text s.toList)) (.char isOperatorChar)
  | blank => plus (.char isBlank)
  | comment => .seq (one '#') (.star (.char fun c => !isLineEnd c))

end LexClass

end Pushdown
