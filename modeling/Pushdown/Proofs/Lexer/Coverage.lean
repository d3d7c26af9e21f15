import Pushdown.Proofs.Lexer.Scanned

/-! The tokens and what is skipped between them make up the whole of a source. -/

namespace Pushdown

namespace Lexer

/-- Where the text before, between and after the tokens begins and ends. -/
def stretches (start stop : Nat) : List Token → List (Nat × Nat)
  | [] => [(start, stop)]
  | token :: tokens => (start, token.span.start) :: stretches token.span.stop stop tokens

variable {offset : Nat} {text : List Char} {tokens : List Token}

theorem Scanned.pairwise (h : Scanned offset text tokens) :
    tokens.Pairwise fun a b => a.span.stop ≤ b.span.start := by
  induction h with
  | done _ => exact List.pairwise_singleton _ _
  | token _ _ _ hrest ih =>
    refine List.pairwise_cons.2 ⟨fun later hlater => ?_, ih⟩
    have hstart := hrest.le_start later hlater
    rw [byteLength_append] at hstart
    simp only [tokenAt]
    omega

theorem Scanned.skipped_stretches (h : Scanned offset text tokens) :
    ∀ stretch ∈ stretches offset (offset + byteLength text) tokens, ∃ before gap after,
      text = before ++ (gap ++ after) ∧ stretch = (offset + byteLength before, offset + byteLength (before ++ gap)) ∧
        Skipped after gap := by
  induction h with
  | @done offset text hskip =>
    refine List.forall_mem_cons.2 ⟨?_, List.forall_mem_singleton.2 ?_⟩
    · refine ⟨[], text, [], ?_, rfl, hskip⟩
      rw [List.nil_append, List.append_nil]
    · -- Nothing is behind the end marker.
      refine ⟨text, [], [], ?_, ?_, .nil⟩
      · rw [List.append_nil, List.append_nil]
      · rw [List.append_nil]
        rfl
  | @token offset gap lexeme rest cls kind tokens hskip _ _ _ ih =>
    refine List.forall_mem_cons.2 ⟨⟨[], gap, lexeme ++ rest, rfl, rfl, hskip⟩, fun stretch hstretch => ?_⟩
    have hstop : (tokenAt (offset + byteLength gap) kind lexeme).span.stop = offset + byteLength (gap ++ lexeme) := by
      rw [byteLength_append, ← Nat.add_assoc]
      rfl
    have hend : offset + byteLength (gap ++ (lexeme ++ rest)) =
        offset + byteLength (gap ++ lexeme) + byteLength rest := by
      rw [← List.append_assoc, byteLength_append, Nat.add_assoc]
    rw [hstop, hend] at hstretch
    -- The other stretches are those of the text behind the first token.
    obtain ⟨before, gap', after, rfl, rfl, hskip'⟩ := ih stretch hstretch
    refine ⟨gap ++ lexeme ++ before, gap', after, ?_, ?_, hskip'⟩
    · simp only [List.append_assoc]
    · simp only [byteLength_append, Nat.add_assoc]

/--
The lexer loses nothing and invents nothing. The tokens stand in the source one after another, before a single end
marker, and nothing but blanks and comments is left between them.
-/
theorem lex_covers {source : String} (hsize : source.utf8ByteSize < 2 ^ 32) :
    ∃ tokens, (ofSource source).Yields (lex source) ∧ lex source = tokens ++ [.endMarker source.utf8ByteSize] ∧
      (∀ token ∈ tokens, token.kind ≠ .endMarker ∧ token.text ≠ "" ∧
        ∃ after, Stands source token.span.start token.span.stop token.text after) ∧
      (lex source).Pairwise (fun a b => a.span.stop ≤ b.span.start) ∧
      ∀ stretch ∈ stretches 0 source.utf8ByteSize (lex source), ∃ gap after,
        Stands source stretch.1 stretch.2 gap after ∧ Skipped after.toList gap.toList := by
  have hscanned := scanned_lex hsize
  obtain ⟨tokens, hlex, hpieces⟩ := hscanned.exists_pieces
  have hstretches := hscanned.skipped_stretches
  rw [Nat.zero_add, byteLength_toList] at hlex hstretches
  refine ⟨tokens, yields_lex source, hlex, fun token htoken => ?_, hscanned.pairwise, fun stretch hstretch => ?_⟩
  · obtain ⟨before, lexeme, rest, cls, kind, hsource, hpiece, hkind, rfl⟩ := hpieces token htoken
    refine ⟨ne_endMarker_of_pieceKind? hkind, ?_, String.ofList rest, ?_⟩
    · exact fun hempty => hpiece.ne_nil (String.ofList_eq_empty_iff.1 hempty)
    · rw [tokenAt, Nat.zero_add]
      exact stands_of_toList hsource
  · obtain ⟨before, gap, after, hsource, rfl, hskip⟩ := hstretches stretch hstretch
    refine ⟨String.ofList gap, String.ofList after, ?_, ?_⟩
    · rw [Nat.zero_add, Nat.zero_add, byteLength_append]
      exact stands_of_toList hsource
    · rwa [String.toList_ofList, String.toList_ofList]

/-- A comment behind a character of two bytes, which belongs to no class. -/
theorem lex_covers_comment :
    "é # a\nb".utf8ByteSize < 2 ^ 32 ∧ (2, 7) ∈ stretches 0 8 (lex "é # a\nb") ∧
      ∃ gap after, Stands "é # a\nb" 2 7 gap after ∧ Skipped after.toList gap.toList := by
  have hsize : "é # a\nb".utf8ByteSize < 2 ^ 32 := by decide
  have hstretch : (2, 7) ∈ stretches 0 8 (lex "é # a\nb") := by decide +kernel
  obtain ⟨_, _, _, _, _, hstretches⟩ := lex_covers hsize
  exact ⟨hsize, hstretch, hstretches (2, 7) hstretch⟩

section Gaps

variable {source : String}

/-- Only blanks and comments stand in the stretch of the source. -/
def Gap (source : String) (stretch : Nat × Nat) : Prop :=
  ∃ gap after, Stands source stretch.1 stretch.2 gap after ∧ Skipped after.toList gap.toList

theorem gap_of_mem_stretches (hsize : source.utf8ByteSize < 2 ^ 32) {stretch : Nat × Nat}
    (hstretch : stretch ∈ stretches 0 source.utf8ByteSize (lex source)) : Gap source stretch := by
  have hstretches := (scanned_lex hsize).skipped_stretches
  rw [Nat.zero_add, byteLength_toList] at hstretches
  obtain ⟨before, gap, after, hsource, rfl, hskip⟩ := hstretches stretch hstretch
  refine ⟨String.ofList gap, String.ofList after, ?_, ?_⟩
  · rw [Nat.zero_add, Nat.zero_add, byteLength_append]
    exact stands_of_toList hsource
  · rwa [String.toList_ofList, String.toList_ofList]

theorem Gap.of_start {start stop : Nat} (h : Gap source (start, stop)) : Gap source (start, start) := by
  obtain ⟨gap, after, ⟨before, hsource, hstart, -⟩, -⟩ := h
  refine ⟨"", gap ++ after, ⟨before, ?_, hstart, ?_⟩, .nil⟩
  · rw [hsource, String.append_empty, String.append_assoc]
  · rw [String.append_empty, hstart]

theorem Gap.of_stop {start stop : Nat} (h : Gap source (start, stop)) : Gap source (stop, stop) := by
  obtain ⟨gap, after, ⟨before, hsource, -, hstop⟩, -⟩ := h
  refine ⟨"", after, ⟨before ++ gap, ?_, hstop, ?_⟩, .nil⟩
  · rw [hsource, String.append_empty]
  · rw [String.append_empty, hstop]

/-- A stretch ends where a token starts, and another starts where the token ends. -/
theorem exists_stretches {start stop : Nat} {token : Token} (htoken : token ∈ tokens) :
    (∃ earlier, (earlier, token.span.start) ∈ stretches start stop tokens) ∧
      ∃ later, (token.span.stop, later) ∈ stretches start stop tokens := by
  induction tokens generalizing start with
  | nil => exact absurd htoken List.not_mem_nil
  | cons head rest ih =>
    rcases List.mem_cons.1 htoken with rfl | hrest
    · refine ⟨⟨start, List.mem_cons_self⟩, ?_⟩
      cases rest with
      | nil => exact ⟨stop, List.mem_cons_of_mem _ List.mem_cons_self⟩
      | cons next rest => exact ⟨next.span.start, List.mem_cons_of_mem _ List.mem_cons_self⟩
    · obtain ⟨⟨earlier, hearlier⟩, later, hlater⟩ := @ih head.span.stop hrest
      exact ⟨⟨earlier, List.mem_cons_of_mem _ hearlier⟩, later, List.mem_cons_of_mem _ hlater⟩

theorem mem_stretches_append_left {start stop : Nat} {first : Token} (hfirst : tokens.head? = some first)
    {stretch : Nat × Nat} (h : stretch ∈ stretches first.span.start stop tokens) (before : List Token) :
    stretch = (first.span.start, first.span.start) ∨ stretch ∈ stretches start stop (before ++ tokens) := by
  obtain ⟨rest, rfl⟩ := List.head?_eq_some_iff.1 hfirst
  rcases List.mem_cons.1 h with hhead | hrest
  · exact .inl hhead
  right
  induction before generalizing start with
  | nil => exact List.mem_cons_of_mem _ hrest
  | cons token before ih => exact List.mem_cons_of_mem _ ih

theorem mem_stretches_append_right {start stop : Nat} {last : Token} (hlast : tokens.getLast? = some last)
    {stretch : Nat × Nat} (h : stretch ∈ stretches start last.span.stop tokens) (more : List Token) :
    stretch = (last.span.stop, last.span.stop) ∨ stretch ∈ stretches start stop (tokens ++ more) := by
  induction tokens generalizing start with
  | nil => cases hlast
  | cons token rest ih =>
    rcases List.mem_cons.1 h with rfl | hrest
    · exact .inr List.mem_cons_self
    cases rest with
    | nil =>
      -- The token is the last one, so nothing but the end is left behind it.
      obtain rfl := Option.some.inj hlast
      exact .inl (List.mem_singleton.1 hrest)
    | cons next rest =>
      rw [List.getLast?_cons_cons] at hlast
      exact (ih hlast hrest).imp_right (List.mem_cons_of_mem _)

/-- Between tokens that follow each other in a source, from the first to the last, stand only blanks and comments. -/
theorem gap_of_infix (hsize : source.utf8ByteSize < 2 ^ 32) {before after : List Token}
    (hlex : lex source = before ++ (tokens ++ after)) {first last : Token} (hfirst : tokens.head? = some first)
    (hlast : tokens.getLast? = some last) {stretch : Nat × Nat}
    (hstretch : stretch ∈ stretches first.span.start last.span.stop tokens) : Gap source stretch := by
  have hgap : ∀ stretch ∈ stretches 0 source.utf8ByteSize (lex source), Gap source stretch :=
    fun _ => gap_of_mem_stretches hsize
  have hmem : ∀ token ∈ tokens, token ∈ lex source := by
    intro token htoken
    rw [hlex]
    simp [htoken]
  rcases mem_stretches_append_right hlast hstretch after with rfl | hright
  · obtain ⟨-, later, hlater⟩ := exists_stretches (hmem last (List.mem_of_getLast? hlast))
    exact (hgap _ hlater).of_start
  have hhead : (tokens ++ after).head? = some first := by rw [List.head?_append, hfirst, Option.some_or]
  rcases mem_stretches_append_left hhead hright before with rfl | hall
  · obtain ⟨⟨earlier, hearlier⟩, -⟩ := exists_stretches (hmem first (List.mem_of_head? hfirst))
    exact (hgap _ hearlier).of_stop
  · exact gap_of_mem_stretches hsize (hlex ▸ hall)

end Gaps

end Lexer

end Pushdown
