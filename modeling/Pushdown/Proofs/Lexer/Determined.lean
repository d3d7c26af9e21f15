import Pushdown.Proofs.Lexer.Scanned

/-!
A text is read in one way only. The first character of a lexeme decides its class, and the longest match decides where
it ends, so a row of tokens that fits a text is the row that the lexer gives.
-/

namespace Pushdown

namespace LexClass

open Pattern

variable {c : Char} {text : List Char}

/-- The class of the lexemes that begin with a character. -/
def ofFirst? (c : Char) : Option LexClass :=
  if isNameStart c then some name
  else if c.isDigit then some number
  else if c = '"' || c = '\'' then some string
  else if isOperatorChar c then some operator
  else if isBlank c then some blank
  else if c = '#' then some comment
  else none

theorem isNameStart_of_isDigit (h : c.isDigit = true) : isNameStart c = false := by
  obtain ⟨-, hdigit⟩ := Char.isDigit_iff_toNat.1 h
  rw [← Bool.not_eq_true]
  intro hstart
  -- The letters and the underscore come behind the digits.
  have hbehind : ∀ first : Char, '9' < first → ¬ first.val ≤ c.val := fun first hfirst hle =>
    absurd (Nat.lt_of_lt_of_le hfirst (UInt32.le_iff_toNat_le.1 hle)) (Nat.not_lt.2 hdigit)
  rcases Bool.or_eq_true_iff.1 hstart with hletter | hmark
  · rcases Bool.or_eq_true_iff.1 hletter with hupper | hlower
    · exact hbehind 'A' (by decide) (of_decide_eq_true hupper).1
    · exact hbehind 'a' (by decide) (of_decide_eq_true (Bool.and_eq_true_iff.1 hlower).1)
  · obtain rfl := of_decide_eq_true hmark
    exact hbehind '_' (by decide) (UInt32.le_refl _)

theorem isOperatorChar_of_canBegin (h : operator.pattern.canBegin c = true) : isOperatorChar c = true := by
  rcases Bool.or_eq_true_iff.1 h with hlong | hchar
  · obtain ⟨a, ha, hbegin⟩ := canBegin_anyOf_iff.1 hlong
    obtain ⟨op, hop, rfl⟩ := List.mem_map.1 ha
    -- Every longer operator begins with a character that is one on its own.
    have hall : longOperators.all (fun op => op.toList.head?.all isOperatorChar) = true := by decide
    have hfirst := List.all_eq_true.1 hall op hop
    rwa [canBegin_text_iff.1 hbegin] at hfirst
  · exact hchar

theorem ofFirst?_of_isOperatorChar (h : isOperatorChar c = true) : ofFirst? c = some operator := by
  have hall : ['-', '+', '*', '/', '%', '<', '>', '=', '!', '&', '|', '^', '~', '@', '.', ',', ':', ';', '(', ')', '[',
      ']', '\x7b', '\x7d', '?'].all (fun c => ofFirst? c == some operator) = true := by decide
  exact eq_of_beq (List.all_eq_true.1 hall c (List.contains_iff_mem.1 h))

theorem ofFirst?_of_isBlank (h : isBlank c = true) : ofFirst? c = some blank := by
  simp only [isBlank, Bool.or_eq_true, decide_eq_true_eq] at h
  rcases h with (((rfl | rfl) | rfl) | rfl) | rfl <;> rfl

theorem ofFirst?_of_matches {cls : LexClass} (h : cls.pattern.Matches (c :: text)) : ofFirst? c = some cls := by
  have hbegin := canBegin_of_matches h
  cases cls with
  | name =>
    have hstart : isNameStart c = true := by simpa [pattern, canBegin, acceptsEmpty] using hbegin
    rw [ofFirst?, if_pos hstart]
  | number =>
    have hdigit : c.isDigit = true := by
      simpa [pattern, canBegin, Pattern.plus, Pattern.optional, acceptsEmpty] using hbegin
    have hstart := isNameStart_of_isDigit hdigit
    rw [ofFirst?, hstart, if_neg Bool.false_ne_true, if_pos hdigit]
  | string =>
    have hquote : c = '"' ∨ c = '\'' := by simpa [pattern, canBegin, quotedBy, one, acceptsEmpty] using hbegin
    rcases hquote with rfl | rfl <;> rfl
  | operator => exact ofFirst?_of_isOperatorChar (isOperatorChar_of_canBegin hbegin)
  | blank =>
    have hblank : isBlank c = true := by simpa [pattern, canBegin, Pattern.plus, acceptsEmpty] using hbegin
    exact ofFirst?_of_isBlank hblank
  | comment =>
    have hmark : c = '#' := by simpa [pattern, canBegin, one, acceptsEmpty] using hbegin
    rw [hmark]
    rfl

/-- No text belongs to two classes. -/
theorem eq_of_matches {a b : LexClass} (hne : text ≠ []) (ha : a.pattern.Matches text)
    (hb : b.pattern.Matches text) : a = b := by
  obtain ⟨c, rest, rfl⟩ := List.exists_cons_of_ne_nil hne
  exact Option.some.inj ((ofFirst?_of_matches ha).symm.trans (ofFirst?_of_matches hb))

end LexClass

namespace Lexer

section Piece

variable {cls cls' : Option LexClass} {lexeme lexeme' rest rest' : List Char}

/-- Two starts of a text are equal if each is the longest of which something holds. -/
theorem eq_of_longest {holds : List Char → Prop} (htext : lexeme ++ rest = lexeme' ++ rest') (h : holds lexeme)
    (h' : holds lexeme')
    (hlongest : ∀ longer, longer <+: lexeme ++ rest → lexeme.length < longer.length → ¬ holds longer)
    (hlongest' : ∀ longer, longer <+: lexeme' ++ rest' → lexeme'.length < longer.length → ¬ holds longer) :
    lexeme = lexeme' ∧ rest = rest' := by
  apply List.append_inj htext
  rcases Nat.lt_trichotomy lexeme.length lexeme'.length with hlt | heq | hlt
  · exact absurd h' (hlongest lexeme' (htext ▸ List.prefix_append lexeme' rest') hlt)
  · exact heq
  · exact absurd h (hlongest' lexeme (htext ▸ List.prefix_append lexeme rest) hlt)

theorem Piece.unique (h : Piece cls lexeme rest) (h' : Piece cls' lexeme' rest')
    (htext : lexeme ++ rest = lexeme' ++ rest') : cls = cls' ∧ lexeme = lexeme' ∧ rest = rest' := by
  have hbegin : lexeme <+: lexeme' ++ rest' := htext ▸ List.prefix_append lexeme rest
  have hbegin' : lexeme' <+: lexeme ++ rest := htext ▸ List.prefix_append lexeme' rest'
  cases h with
  | @lexeme cls _ _ hne hmatches hlongest =>
    cases h' with
    | @lexeme cls' _ _ _ hmatches' hlongest' =>
      obtain ⟨rfl, rfl⟩ := eq_of_longest htext ⟨cls, hmatches⟩ ⟨cls', hmatches'⟩ hlongest hlongest'
      exact ⟨congrArg some (LexClass.eq_of_matches hne hmatches hmatches'), rfl, rfl⟩
    | run _ hnone _ _ => exact absurd ⟨cls, hmatches⟩ (hnone _ hbegin hne)
    | stray hnone => exact absurd (Lexeme.viable ⟨cls, hmatches⟩) (hnone _ hbegin hne)
  | run hne hnone hviable hlongest =>
    cases h' with
    | @lexeme cls' _ _ hne' hmatches' _ => exact absurd ⟨cls', hmatches'⟩ (hnone _ hbegin' hne')
    | run _ _ hviable' hlongest' => exact ⟨rfl, eq_of_longest htext hviable hviable' hlongest hlongest'⟩
    | stray hnone' => exact absurd hviable (hnone' _ hbegin hne)
  | stray hnone =>
    cases h' with
    | @lexeme cls' _ _ hne' hmatches' _ => exact absurd (Lexeme.viable ⟨cls', hmatches'⟩) (hnone _ hbegin' hne')
    | run hne' _ hviable' _ => exact absurd hviable' (hnone _ hbegin' hne')
    | stray _ =>
      obtain ⟨rfl, rfl⟩ := List.cons_eq_cons.1 htext
      exact ⟨rfl, rfl, rfl⟩

end Piece

section Skipped

/-- Neither a blank nor a comment stands at the beginning of the text. -/
def Unskipped (text : List Char) : Prop := ∀ c ∈ text.head?, LexClass.isBlank c = false ∧ c ≠ '#'

theorem Unskipped.nil : Unskipped [] := fun _ hc => nomatch hc

/-- A piece that makes a token begins with a character that no blank and no comment begins with. -/
theorem Piece.exists_cons {cls : Option LexClass} {lexeme rest : List Char} {kind : TokenKind}
    (h : Piece cls lexeme rest) (hkind : pieceKind? cls = some kind) :
    ∃ c text, lexeme = c :: text ∧ LexClass.isBlank c = false ∧ c ≠ '#' := by
  obtain ⟨c, text, rfl⟩ := List.exists_cons_of_ne_nil h.ne_nil
  have hfirst : [c] <+: c :: text ++ rest := ⟨text ++ rest, rfl⟩
  have hnot : ∀ cls : LexClass, cls.kind? = none → ¬ cls.pattern.Matches [c] := by
    intro skipped hskipped hmatches
    cases h with
    | @lexeme cls _ _ _ hlexeme _ =>
      -- The first character decides the class, so the piece would be skipped itself.
      have hclass := (LexClass.ofFirst?_of_matches hmatches).symm.trans (LexClass.ofFirst?_of_matches hlexeme)
      cases hclass
      exact nomatch hskipped.symm.trans hkind
    | run _ hnone _ _ => exact hnone [c] hfirst (List.cons_ne_nil c []) ⟨skipped, hmatches⟩
    | stray hnone => exact hnone [c] hfirst (List.cons_ne_nil c []) (Lexeme.viable ⟨skipped, hmatches⟩)
  refine ⟨c, text, rfl, ?_, ?_⟩
  · rw [← Bool.not_eq_true]
    intro hblank
    have hall : ∀ d ∈ [c], LexClass.isBlank d = true := List.forall_mem_singleton.2 hblank
    exact hnot .blank rfl (LexClass.matches_blank_iff.2 ⟨List.cons_ne_nil c [], hall⟩)
  · rintro rfl
    exact hnot .comment rfl (LexClass.matches_comment_iff.2 ⟨[], rfl, List.forall_mem_nil _⟩)

theorem Piece.unskipped {cls : Option LexClass} {lexeme rest : List Char} {kind : TokenKind}
    (h : Piece cls lexeme rest) (hkind : pieceKind? cls = some kind) : Unskipped (lexeme ++ rest) := by
  obtain ⟨c, text, rfl, hfirst⟩ := h.exists_cons hkind
  intro d hd
  obtain rfl := Option.some.inj hd
  exact hfirst

variable {gap gap' tail tail' : List Char}

/-- The text behind the mark of a comment ends at the first line end. -/
theorem eq_of_stop {body body' : List Char} (hbody : ∀ c ∈ body, LexClass.isLineEnd c = false)
    (hbody' : ∀ c ∈ body', LexClass.isLineEnd c = false) (hstop : ∀ c ∈ tail.head?, LexClass.isLineEnd c = true)
    (hstop' : ∀ c ∈ tail'.head?, LexClass.isLineEnd c = true) (htext : body ++ tail = body' ++ tail') :
    body = body' ∧ tail = tail' := by
  have htake : ∀ body tail : List Char, (∀ c ∈ body, LexClass.isLineEnd c = false) →
      (∀ c ∈ tail.head?, LexClass.isLineEnd c = true) →
      (body ++ tail).takeWhile (fun c => !LexClass.isLineEnd c) = body := by
    intro body tail hbody hstop
    have hall : ∀ c ∈ body, (!LexClass.isLineEnd c) = true := fun c hc => by rw [hbody c hc]; rfl
    rw [List.takeWhile_append_of_pos hall]
    cases tail with
    | nil => exact List.append_nil body
    | cons c tail =>
      have hc := hstop c rfl
      simp [hc]
  apply List.append_inj htext
  rw [← htake body tail hbody hstop, htext, htake body' tail' hbody' hstop']

theorem Skipped.eq_nil (h : Skipped tail gap) (hhead : Unskipped (gap ++ tail)) : gap = [] := by
  cases h with
  | nil => rfl
  | @blank c gap hblank _ => exact absurd ((hhead c rfl).1.symm.trans hblank) Bool.false_ne_true
  | comment _ _ _ => exact absurd rfl (hhead '#' rfl).2

/-- What is skipped in front of something that is not skipped is the same in every reading. -/
theorem Skipped.unique (h : Skipped tail gap) (h' : Skipped tail' gap') (htail : Unskipped tail)
    (htail' : Unskipped tail') (htext : gap ++ tail = gap' ++ tail') : gap = gap' ∧ tail = tail' := by
  induction h generalizing gap' with
  | nil =>
    rw [List.nil_append] at htext
    obtain rfl := h'.eq_nil (htext ▸ htail)
    exact ⟨rfl, htext⟩
  | @blank c gap hblank h ih =>
    cases h' with
    | nil => exact absurd ((Skipped.blank hblank h).eq_nil (htext ▸ htail')) (List.cons_ne_nil c gap)
    | blank _ h' =>
      obtain ⟨rfl, hrest⟩ := List.cons_eq_cons.1 htext
      exact (ih h' hrest).imp_left (congrArg (c :: ·))
    | comment _ _ _ =>
      obtain ⟨rfl, -⟩ := List.cons_eq_cons.1 htext
      exact absurd hblank (by decide)
  | @comment body gap hbody hstop h ih =>
    cases h' with
    | nil => exact absurd ((Skipped.comment hbody hstop h).eq_nil (htext ▸ htail')) (List.cons_ne_nil _ _)
    | blank hblank _ =>
      obtain ⟨rfl, -⟩ := List.cons_eq_cons.1 htext
      exact absurd hblank (by decide)
    | @comment body' gap' hbody' hstop' h' =>
      have hrest : body ++ gap ++ tail = body' ++ gap' ++ tail' := (List.cons_eq_cons.1 htext).2
      rw [List.append_assoc, List.append_assoc] at hrest
      obtain ⟨rfl, hbehind⟩ := eq_of_stop hbody hbody' hstop hstop' hrest
      obtain ⟨rfl, rfl⟩ := ih h' hbehind
      exact ⟨rfl, rfl⟩

end Skipped

section Scanned

variable {offset : Nat} {text text' : List Char} {tokens tokens' : List Token}

theorem Scanned.unique (h : Scanned offset text tokens) (h' : Scanned offset text' tokens') (htext : text = text') :
    tokens = tokens' := by
  induction h generalizing text' tokens' with
  | @done offset text hskip =>
    cases h' with
    | done _ => rw [htext]
    | token hskip' hpiece' hkind' _ =>
      -- Nothing is left of the text for a token.
      have hunskipped := hpiece'.unskipped hkind'
      rw [← List.append_nil text] at htext
      obtain ⟨-, hnil⟩ := hskip.unique hskip' .nil hunskipped htext
      exact absurd (List.append_eq_nil_iff.1 hnil.symm).1 hpiece'.ne_nil
  | @token offset gap lexeme rest cls kind tokens hskip hpiece hkind _ ih =>
    have hunskipped := hpiece.unskipped hkind
    cases h' with
    | done hskip' =>
      rw [← List.append_nil text'] at htext
      obtain ⟨-, hnil⟩ := hskip.unique hskip' hunskipped .nil htext
      exact absurd (List.append_eq_nil_iff.1 hnil).1 hpiece.ne_nil
    | @token _ gap' lexeme' rest' cls' kind' tokens' hskip' hpiece' hkind' h' =>
      obtain ⟨rfl, hbehind⟩ := hskip.unique hskip' hunskipped (hpiece'.unskipped hkind') htext
      obtain ⟨rfl, rfl, rfl⟩ := hpiece.unique hpiece' hbehind
      obtain rfl := Option.some.inj (hkind.symm.trans hkind')
      rw [ih h' rfl]

end Scanned

end Lexer

end Pushdown
