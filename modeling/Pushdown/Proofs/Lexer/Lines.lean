import Pushdown.Proofs.Lexer.Determined

/-!
Lexing line by line. Nothing but blanks goes beyond the end of a line, so each line is read as if it stood alone, and
lexemes that are written on lines of their own are read again as they are.
-/

namespace Pushdown

namespace Span

/-- The stretch, so many bytes further on. -/
def shifted (span : Span) (distance : Nat) : Span where
  start := span.start + distance
  stop := span.stop + distance
  start_le_stop := Nat.add_le_add_right span.start_le_stop distance

end Span

namespace Token

def shifted (token : Token) (distance : Nat) : Token := { token with span := token.span.shifted distance }

theorem shifted_endMarker (offset distance : Nat) :
    (endMarker offset).shifted distance = endMarker (offset + distance) := rfl

end Token

theorem LexClass.eq_blank_of_lineFeed {cls : LexClass} {text : List Char} (h : cls.pattern.Matches text)
    (hline : '\n' ∈ text) : cls = .blank := by
  have hadmits := Pattern.admits_of_mem h hline
  cases cls with
  | blank => rfl
  | _ => exact absurd hadmits (by decide)

namespace Lexer

section Piece

variable {cls : Option LexClass} {lexeme rest : List Char} {kind : TokenKind}

theorem not_viable_of_lineFeed {c : Char} {text : List Char} (hc : LexClass.isBlank c = false)
    (hline : '\n' ∈ text) : ¬ Viable (c :: text) := by
  rintro ⟨rest, cls, hmatches⟩
  have hmem : '\n' ∈ c :: text ++ rest := List.mem_append_left rest (List.mem_cons_of_mem c hline)
  obtain rfl := LexClass.eq_blank_of_lineFeed hmatches hmem
  have hblank := (LexClass.matches_blank_iff.1 hmatches).2 c List.mem_cons_self
  exact absurd (hc.symm.trans hblank) Bool.false_ne_true

/-- A piece does not depend on the text behind it as long as nothing more can be completed there. -/
theorem Piece.change_rest (h : Piece cls lexeme rest) {rest' : List Char}
    (hback : ∀ start, start <+: lexeme ++ rest' → Viable start → start <+: lexeme ++ rest) :
    Piece cls lexeme rest' := by
  cases h with
  | lexeme hne hmatches hlongest =>
    exact .lexeme hne hmatches fun longer hbegin hlt hlexeme =>
      hlongest longer (hback longer hbegin hlexeme.viable) hlt hlexeme
  | run hne hnone hviable hlongest =>
    refine .run hne (fun start hbegin hstart hlexeme => ?_) hviable fun longer hbegin hlt hlonger => ?_
    · exact hnone start (hback start hbegin hlexeme.viable) hstart hlexeme
    · exact hlongest longer (hback longer hbegin hlonger) hlt hlonger
  | stray hnone =>
    exact .stray fun start hbegin hne hstart => hnone start (hback start hbegin hstart) hne hstart

/-- A piece is cut off in the same way when nothing stands behind it. -/
theorem Piece.alone (h : Piece cls lexeme rest) : Piece cls lexeme [] := by
  refine h.change_rest fun start hbegin _ => ?_
  rw [List.append_nil] at hbegin
  exact hbegin.trans (List.prefix_append lexeme rest)

/-- What stands behind the end of a line does not matter to the pieces of the line. -/
theorem Piece.append_lineFeed (h : Piece cls lexeme rest) (hkind : pieceKind? cls = some kind) (more : List Char) :
    Piece cls lexeme (rest ++ '\n' :: more) := by
  obtain ⟨c, text, rfl, hc, -⟩ := h.exists_cons hkind
  refine h.change_rest fun start hbegin hviable => ?_
  rw [← List.append_assoc] at hbegin
  by_contra hnew
  -- A text that goes beyond the line holds the line feed.
  obtain ⟨behind, rfl⟩ := prefix_next_of_new hbegin hnew
  have hline : '\n' ∈ text ++ rest ++ ['\n'] ++ behind := by simp
  exact not_viable_of_lineFeed hc hline hviable

end Piece

section Scanned

variable {offset : Nat} {text : List Char} {tokens later : List Token}

/-- A comment may as well be stopped by the end of the line. -/
theorem Skipped.append_lineFeed {gap after : List Char} (h : Skipped after gap) (more : List Char) :
    Skipped (after ++ '\n' :: more) gap := by
  induction h with
  | nil => exact .nil
  | blank hblank _ ih => exact .blank hblank ih
  | @comment body gap hbody hstop _ ih =>
    refine .comment hbody (fun c hc => ?_) ih
    rw [← List.append_assoc] at hc
    cases hbehind : gap ++ after with
    | nil =>
      rw [hbehind] at hc
      obtain rfl := Option.some.inj hc
      rfl
    | cons d behind =>
      rw [hbehind] at hc hstop
      exact hstop c hc

theorem Scanned.skip {gap : List Char} (hskip : Skipped text gap)
    (h : Scanned (offset + byteLength gap) text tokens) : Scanned offset (gap ++ text) tokens := by
  cases h with
  | done hskip' =>
    have hall : Skipped [] (gap ++ text) := by
      rw [← List.append_nil text] at hskip
      exact hskip.append hskip'
    rw [Nat.add_assoc, ← byteLength_append]
    exact .done hall
  | @token _ gap' lexeme rest cls kind tokens hskip' hpiece hkind h =>
    rw [Nat.add_assoc, ← byteLength_append, ← List.append_assoc]
    rw [Nat.add_assoc, ← byteLength_append, ← List.append_assoc] at h
    exact .token (hskip.append hskip') hpiece hkind h

theorem Scanned.append_lineFeed (h : Scanned offset text tokens) {more : List Char}
    (hlater : Scanned (offset + byteLength text + 1) more later) :
    ∃ earlier, tokens = earlier ++ [.endMarker (offset + byteLength text)] ∧
      Scanned offset (text ++ '\n' :: more) (earlier ++ later) := by
  induction h with
  | @done offset text hskip =>
    refine ⟨[], rfl, ?_⟩
    have hbefore : Skipped (['\n'] ++ more) text := hskip.append_lineFeed more
    have hline : Skipped more (text ++ ['\n']) := hbefore.append (.blank rfl .nil)
    have hlength : byteLength (text ++ ['\n']) = byteLength text + 1 := byteLength_append text ['\n']
    rw [List.append_cons]
    apply Scanned.skip hline
    rwa [hlength, ← Nat.add_assoc]
  | @token offset gap lexeme rest cls kind tokens hskip hpiece hkind _ ih =>
    have hlength : offset + byteLength (gap ++ (lexeme ++ rest)) =
        offset + byteLength (gap ++ lexeme) + byteLength rest := by
      rw [← List.append_assoc, byteLength_append, Nat.add_assoc]
    rw [hlength] at hlater ⊢
    obtain ⟨earlier, rfl, hscanned⟩ := ih hlater
    refine ⟨tokenAt (offset + byteLength gap) kind lexeme :: earlier, rfl, ?_⟩
    rw [List.append_assoc, List.append_assoc]
    have hgap := hskip.append_lineFeed more
    rw [List.append_assoc] at hgap
    exact .token hgap (hpiece.append_lineFeed hkind more) hkind hscanned

theorem Scanned.shifted (h : Scanned offset text tokens) (distance : Nat) :
    Scanned (offset + distance) text (tokens.map (·.shifted distance)) := by
  induction h with
  | @done offset text hskip =>
    have hend : offset + byteLength text + distance = offset + distance + byteLength text := by omega
    rw [List.map_singleton, Token.shifted_endMarker, hend]
    exact .done hskip
  | @token offset gap lexeme rest cls kind tokens hskip hpiece hkind _ ih =>
    have hshifted : (tokenAt (offset + byteLength gap) kind lexeme).shifted distance =
        tokenAt (offset + distance + byteLength gap) kind lexeme := by
      simp only [Token.shifted, tokenAt, Span.shifted, Token.mk.injEq, Span.mk.injEq, true_and]
      omega
    rw [List.map_cons, hshifted]
    refine .token hskip hpiece hkind ?_
    rwa [Nat.add_right_comm]

end Scanned

/--
Each line is lexed by itself: the tokens of two texts with a line feed between them are those of the first without
its end marker, and behind them those of the second.
-/
theorem lex_append_lineFeed {a b : String} (hsize : a.utf8ByteSize + b.utf8ByteSize < 2 ^ 32 - 1) :
    ∃ tokens, lex a = tokens ++ [.endMarker a.utf8ByteSize] ∧
      lex (a ++ "\n" ++ b) = tokens ++ (lex b).map (·.shifted (a.utf8ByteSize + 1)) := by
  have hjoined : (a ++ "\n" ++ b).utf8ByteSize < 2 ^ 32 := by
    have hline : "\n".utf8ByteSize = 1 := by decide
    rw [String.utf8ByteSize_append, String.utf8ByteSize_append, hline]
    omega
  have hfirst : Scanned 0 a.toList (lex a) := scanned_lex (by omega)
  have hsecond : Scanned 0 b.toList (lex b) := scanned_lex (by omega)
  have hshifted := hsecond.shifted (byteLength a.toList + 1)
  rw [Nat.zero_add, ← Nat.zero_add (byteLength a.toList)] at hshifted
  obtain ⟨tokens, htokens, hlines⟩ := hfirst.append_lineFeed hshifted
  have htext : a.toList ++ '\n' :: b.toList = (a ++ "\n" ++ b).toList := by
    simp [String.toList_append]
  rw [Nat.zero_add, byteLength_toList] at htokens hlines
  exact ⟨tokens, htokens, ((scanned_lex hjoined).unique hlines htext.symm)⟩

/-- A string that is broken off behind a backslash, and one that begins at the end of the next line. -/
theorem lex_append_lineFeed_unterminated :
    "'a\\".utf8ByteSize + "b'".utf8ByteSize < 2 ^ 32 - 1 ∧
      lex "'a\\" = [⟨.error, "'a\\", ⟨0, 3, by omega⟩⟩, .endMarker 3] ∧
      lex "'a\\\nb'" = [⟨.error, "'a\\", ⟨0, 3, by omega⟩⟩, ⟨.name, "b", ⟨4, 5, by omega⟩⟩,
        ⟨.error, "'", ⟨5, 6, by omega⟩⟩, .endMarker 6] := by
  have hsize : "'a\\".utf8ByteSize + "b'".utf8ByteSize < 2 ^ 32 - 1 := by decide
  have hfirst : lex "'a\\" = [⟨.error, "'a\\", ⟨0, 3, by omega⟩⟩] ++ [.endMarker 3] := by decide +kernel
  have hsecond : lex "b'" = [⟨.name, "b", ⟨0, 1, by omega⟩⟩, ⟨.error, "'", ⟨1, 2, by omega⟩⟩, .endMarker 2] := by
    decide +kernel
  obtain ⟨tokens, htokens, hlines⟩ := lex_append_lineFeed hsize
  obtain rfl := List.append_cancel_right (hfirst.symm.trans htokens)
  refine ⟨hsize, hfirst, ?_⟩
  rw [hsecond] at hlines
  exact hlines

section Printed

/-- The texts of tokens, each on a line of its own. -/
def printed (tokens : List Token) : String := "\n".intercalate (tokens.map (·.text))

theorem printed_singleton_toList (token : Token) : (printed [token]).toList = token.text.toList := by
  rw [printed, String.toList_intercalate]
  simp

theorem printed_cons_cons_toList (token next : Token) (rest : List Token) :
    (printed (token :: next :: rest)).toList = token.text.toList ++ '\n' :: (printed (next :: rest)).toList := by
  rw [printed, printed, String.toList_intercalate, String.toList_intercalate]
  simp [List.intercalate_cons_cons]

/-- The text of the token is a piece that makes a token of its kind, with nothing behind it. -/
def Alone (token : Token) : Prop := ∃ cls, Piece cls token.text.toList [] ∧ pieceKind? cls = some token.kind

theorem Scanned.exists_alone {offset : Nat} {text : List Char} {tokens : List Token} (h : Scanned offset text tokens) :
    ∃ earlier, tokens = earlier ++ [.endMarker (offset + byteLength text)] ∧ ∀ token ∈ earlier, Alone token := by
  obtain ⟨earlier, rfl, hpieces⟩ := h.exists_pieces
  refine ⟨earlier, rfl, fun token htoken => ?_⟩
  obtain ⟨before, lexeme, rest, cls, kind, -, hpiece, hkind, rfl⟩ := hpieces token htoken
  refine ⟨cls, ?_, hkind⟩
  rw [tokenAt, String.toList_ofList]
  exact hpiece.alone

theorem Alone.scanned {token : Token} (h : Alone token) (start : Nat) :
    ∃ again, Scanned start token.text.toList ([again] ++ [.endMarker (start + byteLength token.text.toList)]) ∧
      again.kind = token.kind ∧ again.text = token.text := by
  obtain ⟨cls, hpiece, hkind⟩ := h
  have hend : Scanned (start + byteLength ([] ++ token.text.toList)) []
      [.endMarker (start + byteLength token.text.toList)] := .done .nil
  have hscanned := Scanned.token .nil hpiece hkind hend
  rw [List.append_nil] at hscanned
  exact ⟨_, hscanned, rfl, String.ofList_toList⟩

/-- Lexemes on lines of their own are read one after another. -/
theorem exists_scanned_printed {tokens : List Token} (h : ∀ token ∈ tokens, Alone token) (start : Nat) :
    ∃ again stop, Scanned start (printed tokens).toList (again ++ [.endMarker stop]) ∧
      again.map (fun token => (token.kind, token.text)) = tokens.map fun token => (token.kind, token.text) := by
  induction tokens generalizing start with
  | nil => exact ⟨[], start, .done .nil, rfl⟩
  | cons token rest ih =>
    obtain ⟨htoken, hrest⟩ := List.forall_mem_cons.1 h
    obtain ⟨first, hfirst, hkind, htext⟩ := htoken.scanned start
    have hsame : (first.kind, first.text) = (token.kind, token.text) := by rw [hkind, htext]
    cases rest with
    | nil =>
      refine ⟨[first], _, printed_singleton_toList token ▸ hfirst, congrArg ([·]) hsame⟩
    | cons next rest =>
      obtain ⟨again, stop, hagain, hsames⟩ := ih hrest (start + byteLength token.text.toList + 1)
      -- The first lexeme is a line by itself.
      obtain ⟨line, hline, hlines⟩ := hfirst.append_lineFeed hagain
      obtain ⟨rfl, -⟩ := List.append_inj' hline rfl
      refine ⟨first :: again, stop, ?_, ?_⟩
      · rw [printed_cons_cons_toList]
        exact hlines
      · rw [List.map_cons, hsames, hsame]
        rfl

theorem map_limited_append_endMarker (tokens : List Token) (stop : Nat) :
    (tokens ++ [Token.endMarker stop]).map Token.limited =
      tokens.map Token.limited ++ [.endMarker (min stop Span.lastOffset)] := by
  rw [List.map_append]
  rfl

theorem printed_map_limited (tokens : List Token) : printed (tokens.map Token.limited) = printed tokens := by
  rw [printed, List.map_map]
  rfl

/-- Printing the tokens of a source on lines of their own and lexing the lines gives the same kinds and texts again. -/
theorem lex_printed (source : String) :
    ∃ tokens stop again stop', lex source = tokens ++ [.endMarker stop] ∧
      lex (printed tokens) = again ++ [.endMarker stop'] ∧
      again.map (fun token => (token.kind, token.text)) = tokens.map fun token => (token.kind, token.text) := by
  obtain ⟨tokens, htokens, halone⟩ := (scanned_tokensFrom 0 source.toList).exists_alone
  obtain ⟨again, stop, hscanned, hsame⟩ := exists_scanned_printed halone 0
  have hagain : tokensFrom 0 (printed tokens).toList [] = again ++ [.endMarker stop] :=
    (scanned_tokensFrom 0 (printed tokens).toList).unique hscanned rfl
  have hsource : lex source = tokens.map Token.limited ++
      [.endMarker (min (0 + byteLength source.toList) Span.lastOffset)] := by
    rw [lex, htokens, map_limited_append_endMarker]
  have hprinted : lex (printed (tokens.map Token.limited)) = again.map Token.limited ++
      [.endMarker (min stop Span.lastOffset)] := by
    rw [lex, printed_map_limited, hagain, map_limited_append_endMarker]
  refine ⟨_, _, _, _, hsource, hprinted, ?_⟩
  rw [List.map_map, List.map_map]
  exact hsame

end Printed

end Lexer

end Pushdown
