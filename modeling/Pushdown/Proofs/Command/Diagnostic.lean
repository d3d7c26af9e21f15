import Pushdown.Command.Run
import Pushdown.Proofs.Grammar.Compiled
import Pushdown.Proofs.Text.Position

/-!
Where a parse error is reported. Whatever the lexer and the parser say of a place in a source is said of a place between
two characters, so the line and the column of a diagnostic lead back to it.
-/

namespace Pushdown

open Text (Position)

theorem Lexer.isValid_of_mem_lex {source : String} (hsize : source.utf8ByteSize < 2 ^ 32) :
    ∀ token ∈ lex source,
      String.Pos.Raw.IsValid source ⟨token.span.start⟩ ∧ String.Pos.Raw.IsValid source ⟨token.span.stop⟩ := by
  obtain ⟨earlier, hlex, hpieces⟩ := (scanned_lex hsize).exists_pieces
  intro token htoken
  rw [hlex] at htoken
  rcases List.mem_append.1 htoken with hearlier | hend
  · obtain ⟨before, lexeme, rest, cls, kind, hsource, -, -, rfl⟩ := hpieces token hearlier
    rw [Nat.zero_add]
    refine ⟨Position.isValid_of_toList hsource, ?_⟩
    show String.Pos.Raw.IsValid source ⟨byteLength before + byteLength lexeme⟩
    rw [← List.append_assoc] at hsource
    rw [← byteLength_append]
    exact Position.isValid_of_toList hsource
  · -- The end marker stands behind the last character.
    obtain rfl := List.mem_singleton.1 hend
    rw [Nat.zero_add]
    have hall := Position.isValid_of_toList (List.append_nil source.toList).symm
    exact ⟨hall, hall⟩

namespace Parser

variable {parser next : Parser} {token : Token} {error : ParseError}

theorem token_of_addToken_eq_error {kind : TokenKind} {label : Label}
    (h : parser.addToken kind token label = (.error error, next)) : error.token = token := by
  unfold addToken at h
  split at h
  · cases h
    rfl
  split at h
  · split at h
    · cases h
    · cases h
      rfl
  · dsimp only at h
    split at h
    · cases h
      rfl
    · split at h
      · cases h
      · cases h

theorem token_of_pushToken_eq_error (h : parser.pushToken token = (.error error, next)) : error.token = token := by
  unfold pushToken at h
  split at h
  · cases h
    rfl
  · exact token_of_addToken_eq_error h

theorem start_of_conclude_eq_error {stop : Nat} (h : parser.conclude stop = .error error) :
    error.token.span.start = stop := by
  unfold conclude at h
  split at h
  · cases h
  · cases h
    rfl

/-- An error is placed at a token, or at the end of the last one that has been read. -/
theorem start_of_run_eq_error (P : Nat → Prop) {stop : Nat} (hstop : P stop) {tokens : List Token}
    (htokens : ∀ token ∈ tokens, P token.span.start ∧ P token.span.stop)
    (h : (parser.run stop tokens).result = .error error) : P error.token.span.start := by
  induction tokens generalizing parser stop with
  | nil => rwa [start_of_conclude_eq_error h]
  | cons token rest ih =>
    obtain ⟨⟨hstart, hend⟩, hrest⟩ := List.forall_mem_cons.1 htokens
    rw [run] at h
    split at h
    · rename_i error' _ hpush
      obtain rfl := Except.error.inj h
      rwa [token_of_pushToken_eq_error hpush]
    · -- The token has completed the start symbol, and it is the last one that is read.
      rwa [start_of_conclude_eq_error h]
    · exact ih hend hrest h

end Parser

/-- The place of an error in a source lies between two characters, or at one of its ends. -/
theorem Grammar.isValid_of_parseSource {grammar : Grammar} {start : SymbolId} {source : String}
    (hsize : source.utf8ByteSize < 2 ^ 32) {error : ParseError} {unread : List Token}
    (h : grammar.parseSource start source = .ok ⟨.error error, unread⟩) :
    String.Pos.Raw.IsValid source ⟨error.token.span.start⟩ := by
  obtain ⟨parser, -, hrun⟩ := exists_of_bind_eq_ok h
  have hzero : String.Pos.Raw.IsValid source ⟨0⟩ := Position.isValid_of_toList (List.nil_append source.toList).symm
  exact Parser.start_of_run_eq_error (fun offset => String.Pos.Raw.IsValid source ⟨offset⟩) hzero
    (Lexer.isValid_of_mem_lex hsize) (congrArg ParseOutcome.result (Except.ok.inj hrun))

/--
The line and the column of each place between two characters lead back to its offset, and places further on come later.
The place that is reported of a parse error is such a place, never the end of the source for want of one.
-/
theorem Command.diagnostic_locates (source : String) :
    (∀ offset, String.Pos.Raw.IsValid source ⟨offset⟩ → (Position.ofOffset source offset).Locates source offset) ∧
    (∀ offset offset', String.Pos.Raw.IsValid source ⟨offset⟩ → String.Pos.Raw.IsValid source ⟨offset'⟩ →
      offset < offset' → (Position.ofOffset source offset).key < (Position.ofOffset source offset').key) ∧
    (source.utf8ByteSize < 2 ^ 32 → ∀ grammar start error unread,
      Grammar.parseSource grammar start source = .ok ⟨.error error, unread⟩ →
        String.Pos.Raw.IsValid source ⟨error.token.span.start⟩ ∧
        ∃ position, Position.first.advance? error.token.span.start source.toList = some position ∧
          position.Locates source error.token.span.start ∧
          ∀ file, diagnostic file source grammar error =
            s!"{file}:{position.line}:{position.column}: " ++ error.render grammar) := by
  refine ⟨fun offset => Position.locates_ofOffset, fun offset offset' => Position.key_ofOffset_lt, ?_⟩
  intro hsize grammar start error unread herror
  have hvalid := Grammar.isValid_of_parseSource hsize herror
  refine ⟨hvalid, _, Position.advance?_of_isValid hvalid, Position.locates_ofOffset hvalid, fun file => rfl⟩

/-- A second name in the second line, behind a comment with a character of two bytes. -/
theorem Command.diagnostic_locates_nested :
    ∃ error unread, Grammar.nested.parseSource (.ofIndex 0) "# é\na b" = .ok ⟨.error error, unread⟩ ∧
      (⟨2, 3⟩ : Position).Locates "# é\na b" 7 ∧
      diagnostic "f" "# é\na b" .nested error = "f:2:3: " ++ error.render .nested := by
  have hsize : "# é\na b".utf8ByteSize < 2 ^ 32 := by decide
  have hlex : lex "# é\na b" =
      [⟨.name, "a", ⟨5, 6, by omega⟩⟩, ⟨.name, "b", ⟨7, 8, by omega⟩⟩, .endMarker 8] := by decide +kernel
  have hparse : Grammar.nested.parseSource (.ofIndex 0) "# é\na b" =
      .ok ⟨.error ⟨.badInput, ⟨.name, "b", ⟨7, 8, by omega⟩⟩, [⟨0⟩, ⟨2⟩]⟩, [.endMarker 8]⟩ := by
    rw [Grammar.parseSource, hlex]
    cbv
  obtain ⟨-, position, hadvance, hlocates, hdiagnostic⟩ :=
    (diagnostic_locates "# é\na b").2.2 hsize .nested (.ofIndex 0) _ _ hparse
  have hposition : position = ⟨2, 3⟩ := by
    refine Option.some.inj (hadvance.symm.trans ?_)
    decide +kernel
  subst hposition
  exact ⟨_, _, hparse, hlocates, hdiagnostic "f"⟩

end Pushdown
