import Mathlib.Data.String.Basic
import Pushdown.Proofs.Lexer.Longest

/-! A source as the row of its tokens, with blanks and comments between them. -/

namespace Pushdown

namespace LexClass

open Pattern

variable {text : List Char}

theorem matches_blank_iff : blank.pattern.Matches text ↔ text ≠ [] ∧ ∀ c ∈ text, isBlank c = true :=
  matches_plus_char_iff

theorem matches_comment_iff :
    comment.pattern.Matches text ↔ ∃ body, text = '#' :: body ∧ ∀ c ∈ body, isLineEnd c = false := by
  have hbody : ∀ body, Matches (star (.char fun c => !isLineEnd c)) body ↔ ∀ c ∈ body, isLineEnd c = false := by
    intro body
    simp only [matches_star_char_iff, Bool.not_eq_true']
  constructor
  · intro h
    obtain ⟨first, body, rfl, hfirst, hrest⟩ := matches_seq_iff.1 h
    obtain rfl := matches_one_iff.1 hfirst
    exact ⟨body, rfl, (hbody body).1 hrest⟩
  · rintro ⟨body, rfl, h⟩
    exact matches_seq_iff.2 ⟨['#'], body, rfl, matches_one_iff.2 rfl, (hbody body).2 h⟩

/-- The kind of a token says to which class it belongs. -/
theorem eq_of_kind? {a b : LexClass} {kind : TokenKind} (ha : a.kind? = some kind) (hb : b.kind? = some kind) :
    a = b := by
  have hdistinct : ∀ a b : LexClass, a.kind? = b.kind? → a.kind?.isSome = true → a = b := by
    intro a b
    cases a <;> cases b <;> decide
  refine hdistinct a b (ha.trans hb.symm) ?_
  rw [ha, Option.isSome_some]

theorem kind?_ne_error (cls : LexClass) : cls.kind? ≠ some .error := by
  cases cls <;> decide

theorem kind?_ne_endMarker (cls : LexClass) : cls.kind? ≠ some .endMarker := by
  cases cls <;> decide

end LexClass

namespace Lexer

theorem byteLength_cons (c : Char) (text : List Char) : byteLength (c :: text) = c.utf8Size + byteLength text := rfl

theorem byteLength_append (a b : List Char) : byteLength (a ++ b) = byteLength a + byteLength b :=
  total_append Char.utf8Size a b

theorem byteLength_eq_utf8ByteSize (text : List Char) : byteLength text = (String.ofList text).utf8ByteSize := by
  rw [String.utf8ByteSize_ofList]
  induction text with
  | nil => rfl
  | cons c cs ih =>
    rw [byteLength, total_cons, String.utf8Len_cons, ← ih, Nat.add_comm]
    rfl

theorem byteLength_toList (source : String) : byteLength source.toList = source.utf8ByteSize := by
  rw [byteLength_eq_utf8ByteSize, String.ofList_toList]

section Skipped

/-- Blanks and comments with `after` behind them. A comment runs up to the next line end or the end of the text. -/
inductive Skipped (after : List Char) : List Char → Prop where
  | nil : Skipped after []
  | blank {c : Char} {gap : List Char} (hblank : LexClass.isBlank c = true) (h : Skipped after gap) :
    Skipped after (c :: gap)
  | comment {body gap : List Char} (hbody : ∀ c ∈ body, LexClass.isLineEnd c = false)
    (hstop : ∀ c ∈ (gap ++ after).head?, LexClass.isLineEnd c = true) (h : Skipped after gap) :
    Skipped after ('#' :: (body ++ gap))

variable {gap after : List Char}

theorem Skipped.append {more : List Char} (h : Skipped (more ++ after) gap) (hmore : Skipped after more) :
    Skipped after (gap ++ more) := by
  induction h with
  | nil => exact hmore
  | blank hblank _ ih => exact .blank hblank ih
  | @comment body gap hbody hstop _ ih =>
    rw [← List.append_assoc] at hstop
    rw [List.cons_append, List.append_assoc]
    exact .comment hbody hstop ih

theorem Skipped.of_blanks (h : ∀ c ∈ gap, LexClass.isBlank c = true) : Skipped after gap := by
  induction gap with
  | nil => exact .nil
  | cons c gap ih =>
    obtain ⟨hc, hgap⟩ := List.forall_mem_cons.1 h
    exact .blank hc (ih hgap)

/-- A comment is as long as it can be, so only a line end or the end of the text stops it. -/
theorem Piece.stop_of_comment {body : List Char} (hbody : ∀ c ∈ body, LexClass.isLineEnd c = false)
    (h : Piece (some .comment) ('#' :: body) after) : ∀ c ∈ after.head?, LexClass.isLineEnd c = true := by
  intro c hc
  obtain ⟨rest, rfl⟩ := List.head?_eq_some_iff.1 hc
  cases h with
  | lexeme _ _ hlongest =>
    by_contra hline
    rw [Bool.not_eq_true] at hline
    have hlonger : LexClass.comment.pattern.Matches ('#' :: (body ++ [c])) := by
      refine LexClass.matches_comment_iff.2 ⟨body ++ [c], rfl, ?_⟩
      rw [List.forall_mem_append]
      exact ⟨hbody, List.forall_mem_singleton.2 hline⟩
    exact hlongest ('#' :: (body ++ [c])) ⟨rest, by simp⟩ (by simp) ⟨.comment, hlonger⟩

theorem Piece.skipped {cls : Option LexClass} {lexeme rest : List Char} (h : Piece cls lexeme rest)
    (hkind : pieceKind? cls = none) : Skipped rest lexeme := by
  cases h with
  | run _ _ _ _ => cases hkind
  | stray _ => cases hkind
  | @lexeme cls lexeme _ hne hmatches hlongest =>
    cases cls with
    | blank => exact .of_blanks (LexClass.matches_blank_iff.1 hmatches).2
    | comment =>
      obtain ⟨body, rfl, hbody⟩ := LexClass.matches_comment_iff.1 hmatches
      have hstop := Piece.stop_of_comment hbody (.lexeme hne hmatches hlongest)
      have hcomment : Skipped rest ('#' :: (body ++ [])) := .comment hbody hstop .nil
      rwa [List.append_nil] at hcomment
    | _ => cases hkind

end Skipped

section Scanned

/-- The token that a piece at `offset` makes. -/
def tokenAt (offset : Nat) (kind : TokenKind) (lexeme : List Char) : Token :=
  ⟨kind, String.ofList lexeme, { start := offset, stop := offset + byteLength lexeme }⟩

variable {offset : Nat} {text rest : List Char} {token : Token}

theorem ne_endMarker_of_pieceKind? {cls : Option LexClass} {kind : TokenKind} (h : pieceKind? cls = some kind) :
    kind ≠ .endMarker := by
  rintro rfl
  cases cls with
  | some cls => exact cls.kind?_ne_endMarker h
  | none => exact absurd h (by decide)

/-- The first token is the first piece that is not skipped. -/
theorem firstToken?_eq_some (h : firstToken? offset text = some (token, rest)) :
    ∃ gap cls lexeme kind, text = gap ++ (lexeme ++ rest) ∧ Skipped (lexeme ++ rest) gap ∧ Piece cls lexeme rest ∧
      pieceKind? cls = some kind ∧ token = tokenAt (offset + byteLength gap) kind lexeme := by
  fun_induction firstToken? offset text with
  | case1 => cases h
  | case2 offset c cs cls length hpiece lexeme rest' stop kind hkind =>
    obtain ⟨rfl, rfl⟩ := Prod.mk.inj (Option.some.inj h)
    have hcut := piece_cut c cs
    rw [hpiece] at hcut
    refine ⟨[], cls, lexeme, kind, ?_, .nil, hcut, hkind, rfl⟩
    simp [lexeme, rest']
  | case3 offset c cs cls length hpiece lexeme rest' stop hkind ih =>
    have hcut := piece_cut c cs
    rw [hpiece] at hcut
    -- The piece is skipped, and the token is looked for behind it.
    obtain ⟨gap, cls', lexeme', kind, hrest, hgap, hpiece', hkind', rfl⟩ := ih h
    have hskipped := hcut.skipped hkind
    change Skipped rest' lexeme at hskipped
    rw [hrest] at hskipped
    refine ⟨lexeme ++ gap, cls', lexeme', kind, ?_, hskipped.append hgap, hpiece', hkind', ?_⟩
    · rw [List.append_assoc, ← hrest]
      simp [lexeme, rest']
    · simp only [byteLength_append, stop, Nat.add_assoc]

theorem firstToken?_eq_none (h : firstToken? offset text = none) : Skipped [] text := by
  fun_induction firstToken? offset text with
  | case1 => exact .nil
  | case2 => cases h
  | case3 offset c cs cls length hpiece lexeme rest' stop hkind ih =>
    have hcut := piece_cut c cs
    rw [hpiece] at hcut
    have hskipped := hcut.skipped hkind
    change Skipped rest' lexeme at hskipped
    rw [← List.append_nil rest'] at hskipped
    have htext : c :: cs = lexeme ++ rest' := by simp [lexeme, rest']
    rw [htext]
    exact hskipped.append (ih h)

/-- The text at `offset` is read as the tokens, of which the last is an end marker. -/
inductive Scanned : (offset : Nat) → (text : List Char) → (tokens : List Token) → Prop where
  | done {offset : Nat} {text : List Char} (hskip : Skipped [] text) :
    Scanned offset text [.endMarker (offset + byteLength text)]
  | token {offset : Nat} {gap lexeme rest : List Char} {cls : Option LexClass} {kind : TokenKind}
    {tokens : List Token} (hskip : Skipped (lexeme ++ rest) gap) (hpiece : Piece cls lexeme rest)
    (hkind : pieceKind? cls = some kind) (h : Scanned (offset + byteLength (gap ++ lexeme)) rest tokens) :
    Scanned offset (gap ++ (lexeme ++ rest)) (tokenAt (offset + byteLength gap) kind lexeme :: tokens)

theorem tokensFrom_of_none (h : firstToken? offset text = none) (found : List Token) :
    tokensFrom offset text found = found.reverse ++ [.endMarker (offset + byteLength text)] := by
  rw [tokensFrom]
  split
  · exact List.reverse_cons
  · rename_i hsome
    cases h.symm.trans hsome

theorem tokensFrom_of_some (h : firstToken? offset text = some (token, rest)) (found : List Token) :
    tokensFrom offset text found = tokensFrom token.span.stop rest (token :: found) := by
  rw [tokensFrom]
  split
  · rename_i hnone
    cases h.symm.trans hnone
  · rename_i hsome
    cases h.symm.trans hsome
    rfl

/-- What holds of a text without a token, and of each text if it holds behind its first token, holds of all texts. -/
@[elab_as_elim]
theorem firstToken?_induction {motive : Nat → List Char → Prop}
    (none : ∀ offset text, firstToken? offset text = none → motive offset text)
    (some : ∀ offset text token rest, firstToken? offset text = some (token, rest) →
      motive token.span.stop rest → motive offset text)
    (offset : Nat) (text : List Char) : motive offset text := by
  cases hfirst : firstToken? offset text with
  | none => exact none offset text hfirst
  | some first =>
    obtain ⟨token, rest⟩ := first
    exact some offset text token rest hfirst (firstToken?_induction none some token.span.stop rest)
termination_by text.length
decreasing_by exact length_lt_of_firstToken? hfirst

theorem tokensFrom_append (offset : Nat) (text : List Char) (found : List Token) :
    tokensFrom offset text found = found.reverse ++ tokensFrom offset text [] := by
  induction offset, text using firstToken?_induction generalizing found with
  | none offset text hfirst =>
    rw [tokensFrom_of_none hfirst, tokensFrom_of_none hfirst, List.reverse_nil, List.nil_append]
  | some offset text token rest hfirst ih =>
    rw [tokensFrom_of_some hfirst, tokensFrom_of_some hfirst, ih (token :: found), ih [token]]
    simp

theorem tokensFrom_cons (h : firstToken? offset text = some (token, rest)) :
    tokensFrom offset text [] = token :: tokensFrom token.span.stop rest [] := by
  rw [tokensFrom_of_some h, tokensFrom_append, List.reverse_singleton, List.singleton_append]

theorem scanned_tokensFrom (offset : Nat) (text : List Char) : Scanned offset text (tokensFrom offset text []) := by
  induction offset, text using firstToken?_induction with
  | none offset text hfirst =>
    rw [tokensFrom_of_none hfirst]
    exact .done (firstToken?_eq_none hfirst)
  | some offset text token rest hfirst ih =>
    rw [tokensFrom_cons hfirst]
    obtain ⟨gap, cls, lexeme, kind, rfl, hgap, hpiece, hkind, rfl⟩ := firstToken?_eq_some hfirst
    refine .token hgap hpiece hkind ?_
    rw [byteLength_append, ← Nat.add_assoc]
    exact ih

end Scanned

section Places

variable {offset : Nat} {text : List Char} {tokens : List Token}

theorem Scanned.stop_le (h : Scanned offset text tokens) : ∀ token ∈ tokens,
    token.span.stop ≤ offset + byteLength text := by
  induction h with
  | done _ => exact List.forall_mem_singleton.2 (Nat.le_refl _)
  | token _ _ _ _ ih =>
    simp only [byteLength_append, ← Nat.add_assoc] at ih ⊢
    refine List.forall_mem_cons.2 ⟨?_, ih⟩
    simp only [tokenAt]
    omega

theorem Scanned.le_start (h : Scanned offset text tokens) : ∀ token ∈ tokens, offset ≤ token.span.start := by
  induction h with
  | done _ => exact List.forall_mem_singleton.2 (Nat.le_add_right _ _)
  | token _ _ _ _ ih =>
    refine List.forall_mem_cons.2 ⟨Nat.le_add_right _ _, fun token htoken => ?_⟩
    exact Nat.le_trans (Nat.le_add_right _ _) (ih token htoken)

/-- All tokens but the end marker are pieces of the text. -/
theorem Scanned.exists_pieces (h : Scanned offset text tokens) :
    ∃ earlier, tokens = earlier ++ [.endMarker (offset + byteLength text)] ∧
      ∀ token ∈ earlier, ∃ before lexeme rest cls kind, text = before ++ (lexeme ++ rest) ∧
        Piece cls lexeme rest ∧ pieceKind? cls = some kind ∧
          token = tokenAt (offset + byteLength before) kind lexeme := by
  induction h with
  | done _ => exact ⟨[], rfl, List.forall_mem_nil _⟩
  | @token offset gap lexeme rest cls kind tokens _ hpiece hkind _ ih =>
    obtain ⟨earlier, rfl, hearlier⟩ := ih
    refine ⟨tokenAt (offset + byteLength gap) kind lexeme :: earlier, ?_, List.forall_mem_cons.2 ⟨?_, ?_⟩⟩
    · simp only [byteLength_append, Nat.add_assoc, List.cons_append]
    · exact ⟨gap, lexeme, rest, cls, kind, rfl, hpiece, hkind, rfl⟩
    · intro token htoken
      -- The piece stands behind the first token as well.
      obtain ⟨before, lexeme', rest', cls', kind', rfl, hpiece', hkind', rfl⟩ := hearlier token htoken
      refine ⟨gap ++ (lexeme ++ before), lexeme', rest', cls', kind', ?_, hpiece', hkind', ?_⟩
      · simp only [List.append_assoc]
      · simp only [byteLength_append, Nat.add_assoc]

/-- All places in a source that is small enough are told apart. -/
theorem scanned_lex {source : String} (hsize : source.utf8ByteSize < 2 ^ 32) :
    Scanned 0 source.toList (lex source) := by
  have hscanned := scanned_tokensFrom 0 source.toList
  have hlimited : ∀ token ∈ tokensFrom 0 source.toList [], token.limited = token := by
    intro token htoken
    have hstop := hscanned.stop_le token htoken
    rw [byteLength_toList] at hstop
    refine Token.limited_eq_self ?_
    rw [Span.lastOffset]
    omega
  rwa [lex, List.map_congr_left hlimited, List.map_id']

end Places

section Stands

/-- `text` stands in the source from the byte `start` to the byte `stop`, and `after` is all that follows it. -/
def Stands (source : String) (start stop : Nat) (text after : String) : Prop :=
  ∃ before : String, source = before ++ text ++ after ∧ before.utf8ByteSize = start ∧
    (before ++ text).utf8ByteSize = stop

theorem stands_of_toList {source : String} {before text after : List Char}
    (h : source.toList = before ++ (text ++ after)) :
    Stands source (byteLength before) (byteLength before + byteLength text) (String.ofList text)
      (String.ofList after) := by
  refine ⟨String.ofList before, ?_, (byteLength_eq_utf8ByteSize before).symm, ?_⟩
  · rw [← String.ofList_append, ← String.ofList_append, List.append_assoc, ← h, String.ofList_toList]
  · rw [← String.ofList_append, ← byteLength_eq_utf8ByteSize, byteLength_append]

end Stands

section Yields

/-- The lexer gives the tokens one after another, and then no more. -/
inductive Yields : Lexer → List Token → Prop where
  | done {lexer : Lexer} (h : lexer.next? = none) : Yields lexer []
  | next {lexer lexer' : Lexer} {token : Token} {tokens : List Token} (h : lexer.next? = some (token, lexer'))
    (hrest : Yields lexer' tokens) : Yields lexer (token :: tokens)

theorem yields_tokensFrom (source : String) (offset : Nat) (text : List Char) :
    Yields ⟨source, offset, text, false⟩ ((tokensFrom offset text []).map Token.limited) := by
  induction offset, text using firstToken?_induction with
  | none offset text hfirst =>
    have hend : Yields ⟨source, offset + byteLength text, [], true⟩ [] := .done rfl
    rw [tokensFrom_of_none hfirst]
    refine .next ?_ hend
    simp [next?, hfirst]
  | some offset text token rest hfirst ih =>
    rw [tokensFrom_cons hfirst, List.map_cons]
    refine .next ?_ ih
    simp [next?, hfirst]

theorem yields_lex (source : String) : Yields (ofSource source) (lex source) :=
  yields_tokensFrom source 0 source.toList

end Yields

end Lexer

end Pushdown
