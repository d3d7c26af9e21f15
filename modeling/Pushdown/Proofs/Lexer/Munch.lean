import Pushdown.Proofs.Lexer.Scanned

/-! Every token is the longest text of its class, and an error token covers as much as could become a lexeme. -/

namespace Pushdown

namespace Lexer

/-- What a token is of the text `ahead`, which begins where the token does. -/
structure Munch (ahead : List Char) (token : Token) : Prop where
  kind : token.kind = .error ∨ ∃ cls : LexClass, cls.kind? = some token.kind
  /-- A text of the class of the token, and nothing longer belongs to any class. -/
  of_class : ∀ cls : LexClass, cls.kind? = some token.kind → cls.pattern.Matches token.text.toList ∧
    ∀ longer, longer <+: ahead → token.text.toList.length < longer.length → ¬ Lexeme longer
  /-- Nothing belongs to a class, and the token is as much as could become a lexeme, or else one character. -/
  of_error : token.kind = .error → (∀ start, start <+: ahead → start ≠ [] → ¬ Lexeme start) ∧
    ((token.text ≠ "" ∧ IsRun ahead token.text.toList) ∨
      ((∀ start, start <+: ahead → start ≠ [] → ¬ Viable start) ∧ ∃ c, c ∈ ahead.head? ∧ token.text.toList = [c]))

variable {cls : Option LexClass} {lexeme rest : List Char} {kind : TokenKind}

theorem Munch.of_run (hne : lexeme ≠ []) (hnone : ∀ start, start <+: lexeme ++ rest → start ≠ [] → ¬ Lexeme start)
    (hrun : IsRun (lexeme ++ rest) lexeme) (offset : Nat) :
    Munch (lexeme ++ rest) (tokenAt offset .error lexeme) where
  kind := .inl rfl
  of_class := fun cls hcls => absurd hcls cls.kind?_ne_error
  of_error := by
    intro _
    refine ⟨hnone, .inl ⟨?_, ?_⟩⟩
    · exact fun hempty => hne (String.ofList_eq_empty_iff.1 hempty)
    · rwa [tokenAt, String.toList_ofList]

theorem Munch.of_stray {c : Char} (hnone : ∀ start, start <+: c :: rest → start ≠ [] → ¬ Viable start)
    (offset : Nat) : Munch (c :: rest) (tokenAt offset .error [c]) where
  kind := .inl rfl
  of_class := fun cls hcls => absurd hcls cls.kind?_ne_error
  of_error := by
    intro _
    refine ⟨fun start hbegin hne hlexeme => hnone start hbegin hne hlexeme.viable, .inr ⟨hnone, c, rfl, ?_⟩⟩
    rw [tokenAt, String.toList_ofList]

theorem Piece.munch (h : Piece cls lexeme rest) (hkind : pieceKind? cls = some kind) (offset : Nat) :
    Munch (lexeme ++ rest) (tokenAt offset kind lexeme) := by
  cases h with
  | run hne hnone hviable hlongest =>
    obtain rfl : TokenKind.error = kind := Option.some.inj hkind
    exact .of_run hne hnone ⟨List.prefix_append lexeme rest, fun _ => hviable, hlongest⟩ offset
  | stray hnone =>
    obtain rfl : TokenKind.error = kind := Option.some.inj hkind
    exact .of_stray hnone offset
  | @lexeme cls _ _ _ hmatches hlongest =>
    replace hkind : cls.kind? = some kind := hkind
    refine ⟨.inr ⟨cls, hkind⟩, fun cls' hkind' => ?_, fun herror => ?_⟩
    · -- No two classes share a kind.
      obtain rfl := LexClass.eq_of_kind? hkind hkind'
      rw [tokenAt, String.toList_ofList]
      exact ⟨hmatches, hlongest⟩
    · obtain rfl : kind = .error := herror
      exact absurd hkind cls.kind?_ne_error

/-- The lexer is maximal munch, and its error tokens are exact. -/
theorem lex_maximalMunch {source : String} (hsize : source.utf8ByteSize < 2 ^ 32) {token : Token}
    (htoken : token ∈ (lex source).dropLast) :
    ∃ after, Stands source token.span.start token.span.stop token.text after ∧
      Munch (token.text ++ after).toList token := by
  obtain ⟨earlier, hlex, hpieces⟩ := (scanned_lex hsize).exists_pieces
  rw [hlex, List.dropLast_concat] at htoken
  obtain ⟨before, lexeme, rest, cls, kind, hsource, hpiece, hkind, rfl⟩ := hpieces token htoken
  have hmunch := hpiece.munch hkind (0 + byteLength before)
  refine ⟨String.ofList rest, ?_, ?_⟩
  · rw [tokenAt, Nat.zero_add]
    exact stands_of_toList hsource
  · rwa [tokenAt, ← String.ofList_append, String.toList_ofList]

/-- The exponent of a number needs a digit: what is read of it goes back to the text. -/
theorem lex_maximalMunch_exponent :
    "1e+".utf8ByteSize < 2 ^ 32 ∧ (⟨.number, "1", { start := 0, stop := 1 }⟩ : Token) ∈ (lex "1e+").dropLast ∧
      ∃ after, Stands "1e+" 0 1 "1" after ∧
        Munch ("1" ++ after).toList ⟨.number, "1", { start := 0, stop := 1 }⟩ := by
  have hsize : "1e+".utf8ByteSize < 2 ^ 32 := by decide
  have htoken : (⟨.number, "1", { start := 0, stop := 1 }⟩ : Token) ∈ (lex "1e+").dropLast := by decide +kernel
  exact ⟨hsize, htoken, lex_maximalMunch hsize htoken⟩

end Lexer

end Pushdown
