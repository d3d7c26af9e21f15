import Pushdown.Code

/-!
Tokens: a kind, a lexeme, and the place of the lexeme in the source.
-/

namespace Pushdown

/-- A stretch of the source, in bytes of its UTF-8 form, without the byte at `stop`. -/
structure Span where
  start : Nat
  stop : Nat
  start_le_stop : start ≤ stop := by omega
deriving DecidableEq, Repr

namespace Span

/-- The empty stretch at `offset`. -/
def empty (offset : Nat) : Span := ⟨offset, offset, Nat.le_refl _⟩

/-- Offsets are 32-bit numbers, of which this is the last. -/
def lastOffset : Nat := 4294967295

/-- The stretch as far as offsets reach. What lies further on is put at the last offset. -/
def limited (span : Span) : Span where
  start := min span.start lastOffset
  stop := min span.stop lastOffset
  start_le_stop := by
    have := span.start_le_stop
    omega

theorem limited_eq_self {span : Span} (h : span.stop ≤ lastOffset) : span.limited = span := by
  obtain ⟨start, stop, hle⟩ := span
  simp only [limited, mk.injEq]
  exact ⟨Nat.min_eq_left (Nat.le_trans hle h), Nat.min_eq_left h⟩

/-- The least stretch that contains both. -/
def cover (a b : Span) : Span where
  start := min a.start b.start
  stop := max a.stop b.stop
  start_le_stop := by
    have := a.start_le_stop
    omega

end Span

/-- A lexeme with its category and its place. -/
structure Token where
  kind : TokenKind
  text : String
  span : Span
deriving DecidableEq, Repr

namespace Token

/-- The end of the input, as an empty token at `offset`. -/
def endMarker (offset : Nat) : Token := ⟨.endMarker, "", .empty offset⟩

/-- The token with its place as far as offsets reach. -/
def limited (token : Token) : Token := { token with span := token.span.limited }

theorem limited_eq_self {token : Token} (h : token.span.stop ≤ Span.lastOffset) : token.limited = token := by
  rw [limited, Span.limited_eq_self h]

end Token

end Pushdown
