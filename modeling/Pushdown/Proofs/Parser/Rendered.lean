import Pushdown.Proofs.Parser.Progress
import Pushdown.Proofs.Table.Json
import Pushdown.Proofs.Text.Breaks

/-!
Failed parses in words. The words are put together from the lexeme, which is quoted, and from the grammar's own words,
which are not: the name of the token's kind, and the spellings and names of what has been expected. So they stand on
one line as far as the grammar's own words do.
-/

namespace Pushdown

open Text (Breaks breaks_append)

theorem TokenKind.not_breaks_standardName {kind : TokenKind} {name : String} (h : kind.standardName? = some name) :
    ¬ Breaks name := by
  unfold standardName? at h
  iterate 6
    split at h
    · cases h
      decide
  cases h

namespace Grammar

variable {grammar : Grammar}

/-- The grammar has a name of its own for the kind, and the name breaks. -/
def NameBreaks (grammar : Grammar) (kind : TokenKind) : Prop :=
  ∃ name, grammar.tokenNames.get? kind = some name ∧ Breaks name

/-- The label asks for a spelling that breaks, or for any token of a kind whose name breaks. -/
def LabelBreaks (grammar : Grammar) (label : Label) : Prop :=
  (∃ kind text, grammar.entry? label = some (.token kind (some text)) ∧ Breaks text) ∨
    ∃ kind, grammar.entry? label = some (.token kind none) ∧ grammar.NameBreaks kind

/-- No name of a token kind and no spelling in the grammar breaks. -/
structure Unbroken (grammar : Grammar) : Prop where
  names : ∀ kind name, grammar.tokenNames.get? kind = some name → ¬ Breaks name
  spellings : ∀ kind text, .token kind (some text) ∈ grammar.labels → ¬ Breaks text

theorem Unbroken.not_nameBreaks (h : grammar.Unbroken) (kind : TokenKind) : ¬ grammar.NameBreaks kind := by
  rintro ⟨name, hname, hbreaks⟩
  exact h.names kind name hname hbreaks

theorem Unbroken.not_labelBreaks (h : grammar.Unbroken) (label : Label) : ¬ grammar.LabelBreaks label := by
  rintro (⟨kind, text, hentry, hbreaks⟩ | ⟨kind, -, hname⟩)
  · exact h.spellings kind text (Array.mem_of_getElem? hentry) hbreaks
  · exact h.not_nameBreaks kind hname

theorem breaks_tokenName_iff (grammar : Grammar) (kind : TokenKind) :
    Breaks (grammar.tokenName kind) ↔ grammar.NameBreaks kind := by
  unfold tokenName NameBreaks
  cases grammar.tokenNames.get? kind with
  | some name => simp
  | none =>
    -- The standard names and the codes of kinds do not break.
    refine iff_of_false ?_ (by simp)
    cases hstandard : kind.standardName? with
    | some name => exact TokenKind.not_breaks_standardName hstandard
    | none =>
      show ¬ Breaks ("token " ++ toString kind.code.toNat)
      rw [breaks_append]
      exact not_or.2 ⟨by decide, Text.not_breaks_toString kind.code.toNat⟩

theorem breaks_describeLabel_iff {label : Label} (h : grammar.Terminal label) :
    Breaks (grammar.describeLabel label) ↔ grammar.LabelBreaks label := by
  obtain ⟨kind, text, hentry⟩ := h
  unfold describeLabel LabelBreaks
  rw [hentry]
  cases text with
  | none => simp [breaks_tokenName_iff]
  | some text =>
    show Breaks ("'" ++ text ++ "'") ↔ _
    have hquote : ¬ Breaks "'" := by decide
    simp [breaks_append, hquote]

end Grammar

namespace ParseError

theorem not_breaks_summary (error : ParseError) : ¬ Breaks s!"{error.kind.describe}: {error.message}" := by
  show ¬ Breaks (error.failure.kind.describe ++ ": " ++ error.failure.message)
  cases error.failure <;> decide

theorem breaks_foundPart_iff (grammar : Grammar) (error : ParseError) :
    Breaks (error.foundPart grammar) ↔
      error.token.kind.isEndMarker = false ∧ grammar.NameBreaks error.token.kind := by
  unfold foundPart
  cases hkind : error.token.kind.isEndMarker with
  | true =>
    have hempty : ¬ Breaks "" := by decide
    simpa using hempty
  | false =>
    -- The lexeme stands between quotes.
    show Breaks (", found " ++ grammar.tokenName error.token.kind ++ " " ++ Text.quoted error.token.text) ↔ _
    have hfound : ¬ Breaks ", found " := by decide
    have hblank : ¬ Breaks " " := by decide
    simp [breaks_append, grammar.breaks_tokenName_iff, Text.not_breaks_quoted, hfound, hblank]

theorem breaks_expectedPart_iff (grammar : Grammar) (error : ParseError) :
    Breaks (error.expectedPart grammar) ↔ ∃ label ∈ error.expected, Breaks (grammar.describeLabel label) := by
  unfold expectedPart
  cases error.expected with
  | nil =>
    have hempty : ¬ Breaks "" := by decide
    simpa using hempty
  | cons label rest =>
    have hexpected : ¬ Breaks "; expected " := by decide
    have hcomma : ¬ Breaks ", " := by decide
    simp [breaks_append, Text.breaks_intercalate hcomma, hexpected]

theorem breaks_render_iff (grammar : Grammar) (error : ParseError) :
    Breaks (error.render grammar) ↔
      (error.token.kind.isEndMarker = false ∧ grammar.NameBreaks error.token.kind) ∨
        ∃ label ∈ error.expected, Breaks (grammar.describeLabel label) := by
  rw [render, breaks_append, breaks_append, or_iff_right error.not_breaks_summary, breaks_foundPart_iff,
    breaks_expectedPart_iff]

end ParseError

namespace Parser

variable {grammar : Grammar} {parser next : Parser} {token : Token} {error : ParseError}

/-- What the error of a token expects, the parser does. -/
theorem InProgress.mem_expected_of_error (hs : grammar.Sound) (h : InProgress grammar parser)
    (hpush : parser.pushToken token = (.error error, next)) : ∀ label ∈ error.expected, label ∈ parser.expected := by
  obtain rfl := h.grammar_eq hs
  unfold Parser.pushToken at hpush
  split at hpush
  · cases hpush
    exact fun label hlabel => absurd hlabel List.not_mem_nil
  · have hexpected := (expected_of_error token.kind token hs (h.known hs) h.stack_ne_nil hpush).1
    exact fun label hlabel => hexpected ▸ hlabel

theorem InProgress.terminal_of_mem_expected (hg : grammar.Compiled) (h : InProgress grammar parser) {label : Label}
    (hlabel : label ∈ parser.expected) : grammar.Terminal label := by
  obtain rfl := h.grammar_eq hg.sound
  exact Parser.terminal_of_mem_expected hg (h.known hg.sound) hlabel

/-- The error of a run expects terminal labels only. -/
theorem InProgress.terminal_of_run (hg : grammar.Compiled) (h : InProgress grammar parser) {stop : Nat}
    {tokens unread : List Token} (hrun : parser.run stop tokens = ⟨.error error, unread⟩) :
    ∀ label ∈ error.expected, grammar.Terminal label := by
  induction tokens generalizing parser stop with
  | nil =>
    rw [run, conclude, h.root_eq] at hrun
    cases hrun
    exact fun label hlabel => h.terminal_of_mem_expected hg hlabel
  | cons token rest ih =>
    rw [run] at hrun
    split at hrun
    · rename_i failure _ hpush
      cases hrun
      exact fun label hlabel => h.terminal_of_mem_expected hg (h.mem_expected_of_error hg.sound hpush label hlabel)
    · -- A parse that is complete has a tree.
      rename_i done hpush
      obtain ⟨tree, hroot⟩ := h.pushToken hg.sound hpush
      rw [conclude, hroot] at hrun
      cases hrun
    · rename_i next hpush
      exact ih (h.pushToken hg.sound hpush) hrun

end Parser

/-- A line is a name and a token of kind 6 behind it, which may have to be spelled in one way. -/
def Table.line (spelling : Option String) : Table where
  version := 1
  tokenNames := TokenNames.empty.insert ⟨6⟩ "NEWLINE"
  labels := #[.token .name none, .token ⟨6⟩ spelling]
  symbols := #[{
    name := "line"
    states := #[⟨[⟨⟨0⟩, 1⟩], false⟩, ⟨[⟨⟨1⟩, 2⟩], false⟩, ⟨[], true⟩]
    first := [⟨0⟩] }]
  starts := StartMap.empty.insert "line" "line"

def Automaton.line : Automaton where
  symbol := .ofIndex 0
  name := "line"
  states := #[⟨[⟨⟨0⟩, 1⟩], false, [(⟨0⟩, ⟨⟨0⟩, 1⟩)]⟩, ⟨[⟨⟨1⟩, 2⟩], false, [(⟨1⟩, ⟨⟨1⟩, 2⟩)]⟩, ⟨[], true, []⟩]
  first := .ofList [⟨0⟩]

def Grammar.line (spelling : Option String) : Grammar where
  labels := (Table.line spelling).labels
  automata := #[.line]
  starts := StartMap.empty.insert "line" (.ofIndex 0)
  tokenNames := (Table.line spelling).tokenNames

theorem Table.ofTable_line (spelling : Option String) : Grammar.ofTable (.line spelling) = .ok (.line spelling) := by
  have hnames : checkNames ∅ ((line spelling).symbols.toList.map (·.name)) = .ok () := by
    simp [line, checkNames]
  have hlabels : (line spelling).checkLabels ∅ 0 (line spelling).labels.toList = .ok () := by
    simp [line, checkLabels]
    cbv
  have hstructure : (line spelling).checkStructure = .ok () := by
    rw [checkStructure, hnames, hlabels]
    cbv
  rw [Grammar.ofTable, hstructure]
  cbv

theorem Grammar.load_compact (explain : String → String) (table : Table) :
    load explain table.toJson.compact = ofTable table := by
  rw [load, table.ofText?_compact]

theorem Grammar.unbroken_line : (Grammar.line none).Unbroken where
  names := by
    intro kind name hname
    by_cases hkind : kind = ⟨6⟩
    · rw [hkind] at hname
      have hvalue : (Grammar.line none).tokenNames.get? ⟨6⟩ = some "NEWLINE" := by cbv
      obtain rfl := Option.some.inj (hvalue.symm.trans hname)
      decide
    · -- Only one kind has a name.
      have hnone : (Grammar.line none).tokenNames.get? kind = none := by
        simp [Grammar.line, Table.line, TokenNames.get?, TokenNames.insert, TokenNames.empty, TokenNames.place, hkind]
      cases hnone.symm.trans hname
  spellings := by
    intro kind text hmem
    simp [Grammar.line, Table.line] at hmem

/--
The words for a failed parse break exactly where the grammar's own words do: in the name that it gives to the kind of
the token, or in the spelling or the name that it has for an expected label. Neither the lexeme nor anything else
breaks them. So all failures are told on one line if no name and no spelling in the grammar breaks.
-/
theorem Grammar.breaks_render_of_parseTokens {grammar : Grammar} (hg : grammar.Compiled) {start : SymbolId}
    {tokens unread : List Token} {error : ParseError}
    (h : grammar.parseTokens start tokens = .ok ⟨.error error, unread⟩) :
    (Breaks (error.render grammar) ↔
      (error.token.kind.isEndMarker = false ∧ grammar.NameBreaks error.token.kind) ∨
        ∃ label ∈ error.expected, grammar.LabelBreaks label) ∧
    (grammar.Unbroken → ¬ Breaks (error.render grammar)) := by
  have hbreaks : Breaks (error.render grammar) ↔
      (error.token.kind.isEndMarker = false ∧ grammar.NameBreaks error.token.kind) ∨
        ∃ label ∈ error.expected, grammar.LabelBreaks label := by
    obtain ⟨parser, hsetup, hrun⟩ := exists_of_bind_eq_ok h
    have hterminal := (Parser.InProgress.setup hsetup).terminal_of_run hg (Except.ok.inj hrun)
    rw [error.breaks_render_iff]
    refine or_congr_right (exists_congr fun label => and_congr_right fun hlabel => ?_)
    exact breaks_describeLabel_iff (hterminal label hlabel)
  refine ⟨hbreaks, fun hunbroken => ?_⟩
  rw [hbreaks]
  rintro (⟨-, hname⟩ | ⟨label, -, hlabel⟩)
  · exact hunbroken.not_nameBreaks error.token.kind hname
  · exact hunbroken.not_labelBreaks label hlabel

/-- A line feed that stands where a name is expected is quoted. Where a line feed is expected, it is not. -/
theorem Grammar.breaks_render_of_parseTokens_line :
    (∃ error, (Grammar.line none).parseTokens (.ofIndex 0) [⟨⟨6⟩, "\n", .empty 0⟩] = .ok ⟨.error error, []⟩ ∧
        ¬ Breaks (error.render (.line none))) ∧
      ∃ error, (Grammar.line (some "\n")).parseTokens (.ofIndex 0)
          [⟨.name, "x", .empty 0⟩, ⟨.name, "y", .empty 1⟩] = .ok ⟨.error error, []⟩ ∧
        Breaks (error.render (.line (some "\n"))) := by
  constructor
  · have hparse : (Grammar.line none).parseTokens (.ofIndex 0) [⟨⟨6⟩, "\n", .empty 0⟩] =
        .ok ⟨.error ⟨.badInput, ⟨⟨6⟩, "\n", .empty 0⟩, [⟨0⟩]⟩, []⟩ := by cbv
    have hunbroken := (breaks_render_of_parseTokens (.ofTable (.line none) (Table.ofTable_line none)) hparse).2
    exact ⟨_, hparse, hunbroken unbroken_line⟩
  · have hparse : (Grammar.line (some "\n")).parseTokens (.ofIndex 0)
        [⟨.name, "x", .empty 0⟩, ⟨.name, "y", .empty 1⟩] =
        .ok ⟨.error ⟨.badInput, ⟨.name, "y", .empty 1⟩, [⟨1⟩]⟩, []⟩ := by cbv
    have hbreaks :=
      (breaks_render_of_parseTokens (.ofTable (.line (some "\n")) (Table.ofTable_line (some "\n"))) hparse).1
    have hlabel : (Grammar.line (some "\n")).LabelBreaks ⟨1⟩ := .inl ⟨⟨6⟩, "\n", rfl, by decide⟩
    exact ⟨_, hparse, hbreaks.2 (.inr ⟨⟨1⟩, List.mem_singleton.2 rfl, hlabel⟩)⟩

/-- A table is read whatever its spellings are. If a line has to end with a line feed, what is said of a line that does
not stands on two lines. -/
theorem Grammar.load_line_breaks :
    (∀ explain, load explain (Table.line (some "\n")).toJson.compact = .ok (.line (some "\n"))) ∧
      (Grammar.line (some "\n")).start? "line" = some (.ofIndex 0) ∧
      ∃ error, (Grammar.line (some "\n")).parseTokens (.ofIndex 0) (lex "x y") =
          .ok ⟨.error error, [.endMarker 3]⟩ ∧
        error.render (.line (some "\n")) = "unexpected token: bad input, found NAME \"y\"; expected '\n'" ∧
        '\n' ∈ (error.render (.line (some "\n"))).toList := by
  have hload explain := (load_compact explain (.line (some "\n"))).trans (Table.ofTable_line (some "\n"))
  have hlex : lex "x y" =
      [⟨.name, "x", ⟨0, 1, by omega⟩⟩, ⟨.name, "y", ⟨2, 3, by omega⟩⟩, .endMarker 3] := by decide +kernel
  have hparse : (Grammar.line (some "\n")).parseTokens (.ofIndex 0) (lex "x y") =
      .ok ⟨.error ⟨.badInput, ⟨.name, "y", ⟨2, 3, by omega⟩⟩, [⟨1⟩]⟩, [.endMarker 3]⟩ := by
    rw [hlex]
    cbv
  have hrender : (ParseError.mk .badInput ⟨.name, "y", ⟨2, 3, by omega⟩⟩ [⟨1⟩]).render (.line (some "\n")) =
      "unexpected token: bad input, found NAME \"y\"; expected '\n'" := by decide +kernel
  refine ⟨hload, by cbv, _, hparse, hrender, ?_⟩
  rw [hrender]
  decide

end Pushdown
