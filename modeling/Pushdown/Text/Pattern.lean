/-!
Regular patterns over characters.

`Pattern.Matches` says which texts a pattern stands for. `Pattern.after c` is what remains to be read once
the character `c` has been read, and `Pattern.acceptsEmpty` says whether nothing more has to follow. The two
decide membership one character at a time, without going back in the text (`Pattern.accepts`).
-/

namespace Pushdown

/-- A regular set of texts. -/
inductive Pattern where
  /-- No text at all. -/
  | never
  /-- The empty text only. -/
  | empty
  /-- One character of a class. -/
  | char (member : Char → Bool)
  /-- A text of the first pattern, then one of the second. -/
  | seq (first second : Pattern)
  /-- A text of either pattern. -/
  | alt (left right : Pattern)
  /-- Any number of texts, one after the other. -/
  | star (body : Pattern)

namespace Pattern

/-- The texts that a pattern stands for. -/
inductive Matches : Pattern → List Char → Prop where
  | empty : Matches .empty []
  | char {member : Char → Bool} {c : Char} : member c = true → Matches (.char member) [c]
  | seq {a b : Pattern} {s t : List Char} : Matches a s → Matches b t → Matches (.seq a b) (s ++ t)
  | left {a b : Pattern} {s : List Char} : Matches a s → Matches (.alt a b) s
  | right {a b : Pattern} {s : List Char} : Matches b s → Matches (.alt a b) s
  | done {a : Pattern} : Matches (.star a) []
  | more {a : Pattern} {s t : List Char} :
      Matches a s → Matches (.star a) t → Matches (.star a) (s ++ t)

/-- Exactly the character `c`. -/
def one (c : Char) : Pattern := .char (· = c)

/-- Exactly the text `s`. -/
def text (s : List Char) : Pattern := s.foldr (fun c rest => .seq (one c) rest) .empty

/-- A text of the pattern or nothing. -/
def optional (a : Pattern) : Pattern := .alt a .empty

/-- One or more texts, one after the other. -/
def plus (a : Pattern) : Pattern := .seq a (.star a)

/-- A text of some pattern of the list. -/
def anyOf (as : List Pattern) : Pattern := as.foldr .alt .never

def acceptsEmpty : Pattern → Bool
  | never => false
  | empty => true
  | char _ => false
  | seq a b => a.acceptsEmpty && b.acceptsEmpty
  | alt a b => a.acceptsEmpty || b.acceptsEmpty
  | star _ => true

def isNever : Pattern → Bool
  | never => true
  | _ => false

/-- Sequence that keeps no dead or empty first part. -/
def thenPattern : Pattern → Pattern → Pattern
  | never, _ => never
  | empty, b => b
  | a, b => seq a b

/-- Alternative that keeps no dead side. -/
def orPattern : Pattern → Pattern → Pattern
  | never, b => b
  | a, never => a
  | a, b => alt a b

/-- The texts that complete `c` to a text of the pattern. -/
def after (c : Char) : Pattern → Pattern
  | never => never
  | empty => never
  | char member => if member c then empty else never
  | seq a b =>
    if a.acceptsEmpty then orPattern (thenPattern (a.after c) b) (b.after c)
    else thenPattern (a.after c) b
  | alt a b => orPattern (a.after c) (b.after c)
  | star a => thenPattern (a.after c) (star a)

/-- Whether the whole text is one of the pattern. -/
def accepts (a : Pattern) (s : List Char) : Bool := (s.foldl (fun rest c => rest.after c) a).acceptsEmpty

end Pattern

end Pushdown
