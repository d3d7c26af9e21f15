import Pushdown.Lexer.Class

/-!
Splitting a source into tokens.

At each place the longest text that belongs to a class is taken. Where no class has a text, an error token
covers the longest text that could still have become one, and at least one character. Blanks and comments
are dropped, and the last token is always an end marker. Tokens beyond the last offset are placed at it.
-/

namespace Pushdown

/-- The place that lexing of a source has come to. -/
structure Lexer where
  source : String
  /-- The offset of `rest` in the source. -/
  offset : Nat
  /-- The text that has not been read. -/
  rest : List Char
  /-- Whether the end marker has been given out. -/
  finished : Bool
deriving DecidableEq, Repr

namespace Lexer

/-- A class together with what is still to be read of it. -/
abbrev Candidate := LexClass × Pattern

/-- Every class, with all of its pattern still to be read. -/
def candidates : List Candidate := LexClass.all.map fun cls => (cls, cls.pattern)

/-- The candidates that survive the character `c`. -/
def advance (c : Char) (candidates : List Candidate) : List Candidate :=
  candidates.filterMap fun (cls, rest) =>
    let rest := rest.after c
    if rest.isNever then none else some (cls, rest)

/-- The class that the text read so far belongs to. -/
def completed (candidates : List Candidate) : Option LexClass :=
  (candidates.find? fun (_, rest) => rest.acceptsEmpty).map (·.1)

/-- What is known of the text ahead: the longest match, and how far some class could still be completed. -/
structure Reach where
  longest : Option (LexClass × Nat)
  viable : Nat
deriving DecidableEq, Repr

/--
Follows the candidates along the text until none is left. `count` characters have been read, and `longest` is
the longest match among them.
-/
def reach (candidates : List Candidate) (longest : Option (LexClass × Nat)) (count : Nat) :
    List Char → Reach
  | [] => ⟨longest, count⟩
  | c :: cs =>
    match advance c candidates with
    | [] => ⟨longest, count⟩
    | next :: others =>
      -- A longer match replaces a shorter one, which stays in reserve as long as none is found.
      let alive := next :: others
      let longest := match completed alive with
        | some cls => some (cls, count + 1)
        | none => longest
      reach alive longest (count + 1) cs

/-- The class, if any, and the length in characters of the piece at the start of a text. -/
def piece (text : List Char) : Option LexClass × Nat :=
  let found := reach candidates none 0 text
  match found.longest with
  | some (cls, length) => (some cls, length)
  -- No text of a class starts here.
  | none => (none, found.viable)

/-- The kind of the token made of a piece; blanks and comments make none. -/
def pieceKind? : Option LexClass → Option TokenKind
  | some cls => cls.kind?
  | none => some .error

/-- The size of a text in bytes of its UTF-8 form. -/
def byteLength (text : List Char) : Nat := total Char.utf8Size text

/-- The first token of the text that stands at `offset`, and the text after it. -/
def firstToken? (offset : Nat) : List Char → Option (Token × List Char)
  | [] => none
  | c :: cs =>
    let (cls, length) := piece (c :: cs)
    let lexeme := c :: cs.take (length - 1)
    let rest := cs.drop (length - 1)
    let stop := offset + byteLength lexeme
    match pieceKind? cls with
    | some kind => some (⟨kind, String.ofList lexeme, { start := offset, stop }⟩, rest)
    | none => firstToken? stop rest
termination_by text => text.length

/-- Every token takes at least one character. -/
theorem length_lt_of_firstToken? {offset : Nat} {text rest : List Char} {token : Token}
    (h : firstToken? offset text = some (token, rest)) : rest.length < text.length := by
  fun_induction firstToken? offset text with
  | case1 => simp at h
  | case2 offset c cs cls length hpiece lexeme rest' stop kind hkind =>
    obtain ⟨-, rfl⟩ := Prod.mk.inj (Option.some.inj h)
    simp only [rest', List.length_drop, List.length_cons]
    omega
  | case3 offset c cs cls length hpiece lexeme rest' stop hkind ih =>
    have := ih h
    simp only [rest', List.length_drop, List.length_cons] at this ⊢
    omega

/-- The tokens of the text that stands at `offset`, after those in `found`, which are in reverse order. -/
def tokensFrom (offset : Nat) (text : List Char) (found : List Token) : List Token :=
  match _h : firstToken? offset text with
  | none => (Token.endMarker (offset + byteLength text) :: found).reverse
  | some (token, rest) => tokensFrom token.span.stop rest (token :: found)
termination_by text.length
decreasing_by exact length_lt_of_firstToken? _h

/-- Starts at the beginning of a source. -/
def ofSource (source : String) : Lexer := ⟨source, 0, source.toList, false⟩

/-- The next token. After the end marker there is none. -/
def next? (lexer : Lexer) : Option (Token × Lexer) :=
  if lexer.finished then none
  else match firstToken? lexer.offset lexer.rest with
    | some (token, rest) => some (token.limited, { lexer with offset := token.span.stop, rest })
    | none =>
      let stop := lexer.offset + byteLength lexer.rest
      some ((Token.endMarker stop).limited, { lexer with offset := stop, rest := [], finished := true })

end Lexer

/-- The tokens of a source, with the end marker last. -/
def lex (source : String) : List Token := (Lexer.tokensFrom 0 source.toList []).map Token.limited

end Pushdown
