/-!
The 16-bit codes of a grammar: kinds of tokens, nonterminals, and entries of the label table.

Token kinds and nonterminals share one numbering. Codes below `SymbolId.firstCode` are token kinds, all
others are nonterminals, so a single code says what a tree node is (`NodeKind.ofCode`).

Totals over the members of a list come last. They count the parts of a grammar and the bytes of a text, and they
measure what a walk still has to do.
-/

namespace Pushdown

/-- The lexical category of a token. -/
structure TokenKind where
  code : UInt16
deriving DecidableEq, Repr, Hashable

/-- A nonterminal, by its code. -/
structure SymbolId where
  code : UInt16
deriving DecidableEq, Repr, Hashable

/-- A position in the label table of a grammar. -/
structure Label where
  code : UInt16
deriving DecidableEq, Repr, Hashable

/-- The code of the first nonterminal; every smaller code is a token kind. -/
def SymbolId.firstCode : UInt16 := 256

namespace TokenKind

/-- The end of the input. -/
def endMarker : TokenKind := ⟨0⟩

/-- Identifiers and keywords. -/
def name : TokenKind := ⟨1⟩

/-- Integer and decimal literals. -/
def number : TokenKind := ⟨2⟩

/-- Quoted strings. -/
def string : TokenKind := ⟨3⟩

/-- Punctuation and operators. -/
def operator : TokenKind := ⟨4⟩

/-- Text that belongs to no lexical class. -/
def error : TokenKind := ⟨5⟩

def isEndMarker (kind : TokenKind) : Bool := kind = endMarker

/-- Only codes below the first nonterminal can stand for a terminal. -/
def isTerminal (kind : TokenKind) : Bool := kind.code < SymbolId.firstCode

/-- The names of the six kinds that every grammar shares. -/
def standardName? (kind : TokenKind) : Option String :=
  if kind = endMarker then some "ENDMARKER"
  else if kind = name then some "NAME"
  else if kind = number then some "NUMBER"
  else if kind = string then some "STRING"
  else if kind = operator then some "OP"
  else if kind = error then some "ERRORTOKEN"
  else none

end TokenKind

namespace SymbolId

/-- The nonterminal declared at position `i`, for `i` below the number of nonterminals a grammar can hold. -/
def ofIndex (i : Nat) : SymbolId := ⟨firstCode + i.toUInt16⟩

/--
The position of a nonterminal. A code that is a token kind is sent past the last position that any
grammar can hold, so a search by position finds nothing for it.
-/
def index (id : SymbolId) : Nat :=
  if id.code < firstCode then 65535 else id.code.toNat - firstCode.toNat

end SymbolId

namespace Label

/--
The label of an end marker that the grammar does not mention. A table holds at most 65535 labels, so no arc
carries this one.
-/
def implicitEnd : Label := ⟨65535⟩

def index (label : Label) : Nat := label.code.toNat

instance : LE Label := ⟨fun a b => a.code ≤ b.code⟩

instance : LT Label := ⟨fun a b => a.code < b.code⟩

instance (a b : Label) : Decidable (a ≤ b) := inferInstanceAs (Decidable (a.code ≤ b.code))

instance (a b : Label) : Decidable (a < b) := inferInstanceAs (Decidable (a.code < b.code))

end Label

/-- What a tree node stands for. -/
inductive NodeKind where
  | token (kind : TokenKind)
  | symbol (id : SymbolId)
deriving DecidableEq, Repr

namespace NodeKind

def code : NodeKind → UInt16
  | token kind => kind.code
  | symbol id => id.code

/-- Reads a code by the shared numbering of token kinds and nonterminals. -/
def ofCode (code : UInt16) : NodeKind :=
  if code < SymbolId.firstCode then token ⟨code⟩ else symbol ⟨code⟩

/-- Every code is the code of what it is read as. -/
theorem code_ofCode (code : UInt16) : (ofCode code).code = code := by
  unfold ofCode
  split <;> rfl

end NodeKind

/-- The sum of `f` over the members of a list. -/
def total {α : Type} (f : α → Nat) (members : List α) : Nat := members.foldr (fun a rest => f a + rest) 0

@[simp] theorem total_nil {α : Type} (f : α → Nat) : total f [] = 0 := rfl

@[simp] theorem total_cons {α : Type} (f : α → Nat) (a : α) (rest : List α) :
    total f (a :: rest) = f a + total f rest := rfl

theorem total_append {α : Type} (f : α → Nat) (a b : List α) : total f (a ++ b) = total f a + total f b := by
  induction a with
  | nil => simp
  | cons x rest ih => simp only [List.cons_append, total_cons, ih, Nat.add_assoc]

theorem total_reverse {α : Type} (f : α → Nat) (a : List α) : total f a.reverse = total f a := by
  induction a with
  | nil => rfl
  | cons x rest ih => simp only [List.reverse_cons, total_append, total_cons, total_nil, ih]; omega

end Pushdown
