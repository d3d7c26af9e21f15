import Pushdown.Proofs.Parser.Completeness
import Pushdown.Proofs.Parser.Expected
import Pushdown.Proofs.Parser.Soundness

/-!
How far a run goes. It takes tokens as long as each is answered with `false`, stops at the first that is not, and its
error says what was wrong with that token.
-/

namespace Pushdown

namespace Parser

variable {grammar : Grammar} {parser : Parser}

/-- Each of the tokens is taken, and none of them completes the parse. -/
def GoesOn (parser : Parser) (tokens : List Token) : Prop :=
  ∀ before token after, tokens = before ++ token :: after →
    ((parser.feed before).pushToken token).1 = .ok false

theorem GoesOn.nil (parser : Parser) : parser.GoesOn [] := by
  intro before token after h
  simp at h

theorem goesOn_cons_iff (token : Token) (rest : List Token) :
    parser.GoesOn (token :: rest) ↔
      (parser.pushToken token).1 = .ok false ∧ (parser.pushToken token).2.GoesOn rest := by
  constructor
  · intro h
    refine ⟨h [] token rest rfl, ?_⟩
    intro before next after hrest
    exact h (token :: before) next after (congrArg (token :: ·) hrest)
  · rintro ⟨htoken, hrest⟩ before next after h
    cases before with
    | nil =>
      obtain ⟨rfl, -⟩ := List.cons_eq_cons.1 h
      exact htoken
    | cons first before =>
      obtain ⟨rfl, hrest'⟩ := List.cons_eq_cons.1 h
      exact hrest before next after hrest'

theorem GoesOn.append_cons {before after : List Token} {token : Token} (h : parser.GoesOn (before ++ token :: after)) :
    parser.GoesOn before ∧ ((parser.feed before).pushToken token).1 = .ok false ∧
      ((parser.feed before).pushToken token).2.GoesOn after := by
  induction before generalizing parser with
  | nil =>
    obtain ⟨htoken, hafter⟩ := (goesOn_cons_iff token after).1 h
    exact ⟨.nil parser, htoken, hafter⟩
  | cons first before ih =>
    obtain ⟨hfirst, hrest⟩ := (goesOn_cons_iff first (before ++ token :: after)).1 h
    obtain ⟨hbefore, htoken, hafter⟩ := ih hrest
    exact ⟨(goesOn_cons_iff first before).2 ⟨hfirst, hbefore⟩, htoken, hafter⟩

/-- All tokens are taken, or there is a first one that is not. -/
theorem goesOn_or_exists_first (parser : Parser) (tokens : List Token) :
    parser.GoesOn tokens ∨
      ∃ before token after, tokens = before ++ token :: after ∧ parser.GoesOn before ∧
        ((parser.feed before).pushToken token).1 ≠ .ok false := by
  induction tokens generalizing parser with
  | nil => exact .inl (.nil parser)
  | cons token rest ih =>
    by_cases htoken : (parser.pushToken token).1 = .ok false
    · rcases ih (parser.pushToken token).2 with hall | ⟨before, first, after, rfl, hbefore, hfirst⟩
      · exact .inl ((goesOn_cons_iff token rest).2 ⟨htoken, hall⟩)
      · exact .inr ⟨token :: before, first, after, rfl, (goesOn_cons_iff token before).2 ⟨htoken, hbefore⟩, hfirst⟩
    · exact .inr ⟨[], token, rest, rfl, .nil parser, htoken⟩

/-- All tokens are taken when the parse goes on. -/
theorem GoesOn.taken_eq {tokens : List Token} (h : parser.GoesOn tokens) : parser.taken tokens = tokens := by
  induction tokens generalizing parser with
  | nil => rfl
  | cons token rest ih =>
    obtain ⟨htoken, hrest⟩ := (goesOn_cons_iff token rest).1 h
    have hpush : parser.pushToken token = (.ok false, (parser.pushToken token).2) := Prod.ext htoken rfl
    rw [taken, hpush]
    exact congrArg (token :: ·) (ih hrest)

/-- Where the last of the tokens ends, or `stop` if there is none. -/
def lastStop (stop : Nat) (tokens : List Token) : Nat := (tokens.getLast?.map (·.span.stop)).getD stop

theorem lastStop_cons (stop : Nat) (token : Token) (rest : List Token) :
    lastStop stop (token :: rest) = lastStop token.span.stop rest := by
  rw [lastStop, lastStop, List.getLast?_cons]
  cases rest.getLast? with
  | none => rfl
  | some last => rfl

theorem GoesOn.run_append {before : List Token} (h : parser.GoesOn before) (stop : Nat) (rest : List Token) :
    parser.run stop (before ++ rest) = (parser.feed before).run (lastStop stop before) rest := by
  induction before generalizing parser stop with
  | nil => rfl
  | cons token before ih =>
    obtain ⟨htoken, hbefore⟩ := (goesOn_cons_iff token before).1 h
    have hpush : parser.pushToken token = (.ok false, (parser.pushToken token).2) := Prod.ext htoken rfl
    rw [List.cons_append, run, hpush, lastStop_cons]
    exact ih hbefore token.span.stop

/-- A parse has been started and is not complete. -/
structure InProgress (grammar : Grammar) (parser : Parser) : Prop where
  reachable : Reachable grammar parser
  stack_ne_nil : parser.stack ≠ []
  root_eq : parser.root = none

theorem InProgress.setup {start : SymbolId} (h : (Parser.new grammar).setup start = .ok parser) :
    InProgress grammar parser := by
  have hreach : Reachable grammar parser := .setup .new h
  obtain ⟨automaton, -, rfl⟩ := exists_of_setup h
  exact ⟨hreach, List.cons_ne_nil _ _, rfl⟩

theorem InProgress.grammar_eq (hs : grammar.Sound) (h : InProgress grammar parser) : parser.grammar = grammar :=
  (h.reachable.consistent hs).1

theorem InProgress.known (hs : grammar.Sound) (h : InProgress grammar parser) :
    Known parser.grammar parser.stack := (h.reachable.consistent hs).2.known

/-- A token that is not rejected leaves a parse in progress or completes it with a tree. -/
theorem InProgress.pushToken (hs : grammar.Sound) (h : InProgress grammar parser) {token : Token} {complete : Bool}
    {next : Parser} (hpush : parser.pushToken token = (.ok complete, next)) :
    match complete with
    | false => InProgress grammar next
    | true => ∃ tree, next.root = some tree := by
  have hgrammar := h.grammar_eq hs
  have hreach : Reachable grammar next := by
    have hnext := h.reachable.pushToken token
    rwa [hpush] at hnext
  rcases pushToken_adds hs hgrammar (hgrammar ▸ h.known hs) token with ⟨label, -, hadds⟩ | ⟨error, herror⟩
  · rw [hpush] at hadds
    cases hadds with
    | taken _ htakes _ => exact ⟨hreach, htakes.ne_nil, h.root_eq⟩
    | ended _ _ _ _ _ => exact ⟨_, rfl⟩
    | stopped _ _ _ => exact ⟨_, rfl⟩
  · cases herror.symm.trans hpush

theorem InProgress.feed (hs : grammar.Sound) (h : InProgress grammar parser) {tokens : List Token}
    (hgoes : parser.GoesOn tokens) : InProgress grammar (parser.feed tokens) := by
  induction tokens generalizing parser with
  | nil => exact h
  | cons token rest ih =>
    obtain ⟨htoken, hrest⟩ := (goesOn_cons_iff token rest).1 hgoes
    have hpush : parser.pushToken token = (.ok false, (parser.pushToken token).2) := Prod.ext htoken rfl
    exact ih (h.pushToken hs hpush) hrest

section Run

variable {before : List Token} {token : Token} {next : Parser}

theorem GoesOn.run_of_error (hgoes : parser.GoesOn before) {error : ParseError}
    (hpush : (parser.feed before).pushToken token = (.error error, next)) (stop : Nat) (rest : List Token) :
    parser.run stop (before ++ token :: rest) = ⟨.error error, rest⟩ := by
  rw [hgoes.run_append, run, hpush]

theorem GoesOn.run_of_complete (hgoes : parser.GoesOn before)
    (hpush : (parser.feed before).pushToken token = (.ok true, next)) {tree : Tree} (hroot : next.root = some tree)
    (stop : Nat) (rest : List Token) : parser.run stop (before ++ token :: rest) = ⟨.ok tree, rest⟩ := by
  have hconclude : next.conclude token.span.stop = .ok tree := by
    unfold conclude
    rw [hroot]
  rw [hgoes.run_append, run, hpush]
  exact congrArg (ParseOutcome.mk · rest) hconclude

theorem GoesOn.run_eq (hgoes : parser.GoesOn before) (hroot : (parser.feed before).root = none) (stop : Nat) :
    parser.run stop before =
      ⟨.error ⟨.missingEndMarker, .endMarker (lastStop stop before), (parser.feed before).expected⟩, []⟩ := by
  have hrun := hgoes.run_append stop []
  rw [List.append_nil] at hrun
  rw [hrun, run]
  unfold conclude
  rw [hroot]

/-- A run that gives a tree reads its tokens up to one that completes the parse. -/
theorem InProgress.exists_complete_of_run (hs : grammar.Sound) (h : InProgress grammar parser) {stop : Nat}
    {tokens unread : List Token} {tree : Tree} (hrun : parser.run stop tokens = ⟨.ok tree, unread⟩) :
    ∃ before last done, tokens = before ++ last :: unread ∧ parser.GoesOn before ∧
      (parser.feed before).pushToken last = (.ok true, done) ∧ done.root = some tree := by
  rcases parser.goesOn_or_exists_first tokens with hgoes | ⟨before, last, rest, rfl, hgoes, hlast⟩
  · rw [hgoes.run_eq (h.feed hs hgoes).root_eq] at hrun
    cases hrun
  rcases hpush : (parser.feed before).pushToken last with ⟨error | complete, done⟩
  · rw [hgoes.run_of_error hpush] at hrun
    cases hrun
  cases complete with
  | false => exact absurd (congrArg Prod.fst hpush) hlast
  | true =>
    obtain ⟨root, hroot⟩ := (h.feed hs hgoes).pushToken hs hpush
    rw [hgoes.run_of_complete hpush hroot] at hrun
    cases hrun
    exact ⟨before, last, done, rfl, hgoes, hpush, hroot⟩

end Run

section Complete

variable {base : Automaton}

/-- A token that completes a parse completes what has been built from the tokens before it, and from itself if an arc
has consumed it. -/
theorem Holds.built_of_complete (hs : grammar.Sound) (hbase : base ∈ grammar.automata) {done : Parser}
    {tokens : List Token} (h : parser.Holds grammar base tokens) {token : Token}
    (hdone : parser.pushToken token = (.ok true, done)) :
    ∃ root leaves, done.root = some root.node ∧ root.current.accepting = true ∧ Built grammar base leaves [root] ∧
      leaves <+: tokens ++ [token] := by
  rcases pushToken_adds hs h.1 (h.known hbase) token with ⟨label, hresolve, hadds⟩ | ⟨error, herror⟩
  · obtain ⟨rfl, -⟩ := id h
    rw [hdone] at hadds
    -- The token is in the tree if an arc has consumed it. If it has only ended the input, it is not.
    cases hadds with
    | @ended stack next root hcloses htakes _ hroot hends =>
      have hbuilt := h.built_of_closes hcloses htakes.stack_ne_nil
      have hclosed := hbuilt.closes hs hbase (fun _ => And.right) hcloses
      have hlast := (hclosed.takes hs hbase hresolve htakes).closes hs hbase (fun _ => id) hends
      exact ⟨root, _, rfl, hroot, hlast, List.prefix_rfl⟩
    | @stopped root _ hroot hcloses =>
      have hbuilt := h.built_of_closes hcloses (List.cons_ne_nil _ _)
      have hlast := hbuilt.closes hs hbase (fun _ => And.right) hcloses
      exact ⟨root, _, rfl, hroot.2, hlast, List.prefix_append _ _⟩
  · cases herror.symm.trans hdone

theorem Holds.built_of_run (hs : grammar.Sound) (hbase : base ∈ grammar.automata) {before rest : List Token}
    (hprogress : InProgress grammar parser) (h : parser.Holds grammar base before) {stop : Nat} {tree : Tree}
    {unread : List Token} (hrun : parser.run stop rest = ⟨.ok tree, unread⟩) :
    ∃ root leaves, tree = root.node ∧ root.current.accepting = true ∧ Built grammar base leaves [root] ∧
      leaves <+: before ++ rest := by
  obtain ⟨start, last, done, rfl, hgoes, hpush, hroot⟩ := hprogress.exists_complete_of_run hs hrun
  have hfed := h.feed hs hbase start
  rw [hgoes.taken_eq] at hfed
  obtain ⟨root, leaves, hdone, haccepting, hbuilt, hprefix⟩ := hfed.built_of_complete hs hbase hpush
  obtain rfl := Option.some.inj (hroot.symm.trans hdone)
  rw [List.append_cons, ← List.append_assoc, ← List.append_assoc]
  exact ⟨root, leaves, rfl, haccepting, hbuilt, hprefix.trans (List.prefix_append _ _)⟩

/-- The leaves of a tree are the first tokens of the run, in their order. -/
theorem Holds.leaves_prefix (hs : grammar.Sound) (hbase : base ∈ grammar.automata) {before rest : List Token}
    (hprogress : InProgress grammar parser) (h : parser.Holds grammar base before) {stop : Nat} {tree : Tree}
    {unread : List Token} (hrun : parser.run stop rest = ⟨.ok tree, unread⟩) : tree.leaves <+: before ++ rest := by
  obtain ⟨root, leaves, rfl, -, hbuilt, hprefix⟩ := h.built_of_run hs hbase hprogress hrun
  rwa [hbuilt.leaves_root]

end Complete

/-- The token would complete the parse if it came as an end marker that no arc consumes. -/
def StopsAt (parser : Parser) (marker : Token) : Prop :=
  ∃ done, parser.addToken .endMarker marker .implicitEnd = (.ok true, done)

section Failure

theorem implicitEnd_not_mem_expected (hg : parser.grammar.Compiled) (hknown : Known parser.grammar parser.stack) :
    Label.implicitEnd ∉ parser.expected := by
  intro hmem
  obtain ⟨kind, text, hentry⟩ := terminal_of_mem_expected hg hknown hmem
  -- The label lies behind every label table.
  have hbound := (Array.getElem?_eq_some_iff.1 hentry).1
  have hle := hg.sound.labels_le
  have hindex : Label.implicitEnd.index = 65535 := rfl
  omega

theorem stopsAt_iff (hg : parser.grammar.Compiled) (hknown : Known parser.grammar parser.stack)
    (hne : parser.stack ≠ []) (marker : Token) : parser.StopsAt marker ↔ allAccepting parser.stack = true := by
  have hnot := implicitEnd_not_mem_expected hg hknown
  have hkind : TokenKind.endMarker.isEndMarker = true := rfl
  rw [StopsAt, addToken_of_not_mem_expected .endMarker marker hne hnot, hkind, Bool.and_true]
  cases allAccepting parser.stack with
  | false => simp
  | true => simp

/-- What the error of a token says about the token and about the parser that has rejected it. -/
structure Explains (parser : Parser) (error : ParseError) : Prop where
  unresolved_iff : error.kind = .unresolvedLabel ↔
    parser.grammar.resolve? error.token.kind error.token.text = none
  unexpectedEnd_iff : error.kind = .unexpectedEnd ↔ error.token.kind.isEndMarker = true
  tooMuch_iff : error.kind = .unexpectedToken →
    ∀ marker, error.message = "too much input" ↔ parser.StopsAt marker
  bad_iff : error.kind = .unexpectedToken → ∀ marker, error.message = "bad input" ↔ ¬ parser.StopsAt marker

theorem explains_unexpected (hg : parser.grammar.Compiled) (hknown : Known parser.grammar parser.stack)
    (hne : parser.stack ≠ []) {token : Token} {label : Label}
    (hresolve : parser.grammar.resolve? token.kind token.text = some label) :
    parser.Explains (parser.unexpected token.kind token (allAccepting parser.stack)) := by
  have hstop := stopsAt_iff hg hknown hne
  have hresolved : parser.grammar.resolve? token.kind token.text ≠ none := by
    rw [hresolve]
    exact Option.some_ne_none label
  cases hkind : token.kind.isEndMarker with
  | true =>
    have herror : parser.unexpected token.kind token (allAccepting parser.stack) =
        ⟨.incompleteInput, token, parser.expected⟩ := by rw [unexpected, if_pos hkind]
    rw [herror]
    exact ⟨iff_of_false nofun hresolved, iff_of_true rfl hkind, nofun, nofun⟩
  | false =>
    have hnot : ¬ token.kind.isEndMarker = true := by
      rw [hkind]
      exact Bool.false_ne_true
    have herror : parser.unexpected token.kind token (allAccepting parser.stack) =
        ⟨if allAccepting parser.stack then .tooMuchInput else .badInput, token, parser.expected⟩ := by
      rw [unexpected, if_neg hnot]
    -- Whether all frames may end decides between the two messages, and nothing else.
    have hclass : ∀ accepting : Bool,
        (if accepting then ParseFailure.tooMuchInput else .badInput).kind = .unexpectedToken := by decide
    have htooMuch : ∀ accepting : Bool,
        (if accepting then ParseFailure.tooMuchInput else .badInput).message = "too much input" ↔
          accepting = true := by decide
    have hbad : ∀ accepting : Bool,
        (if accepting then ParseFailure.tooMuchInput else .badInput).message = "bad input" ↔
          ¬ accepting = true := by decide
    rw [herror]
    refine ⟨iff_of_false ?_ hresolved, iff_of_false ?_ hnot, fun _ marker => ?_, fun _ marker => ?_⟩
    · exact fun h => nomatch (hclass _).symm.trans h
    · exact fun h => nomatch (hclass _).symm.trans h
    · exact (htooMuch _).trans (hstop marker).symm
    · exact (hbad _).trans (not_congr (hstop marker)).symm

theorem explains_missingEndMarker (parser : Parser) (stop : Nat) (expected : List Label) :
    parser.Explains ⟨.missingEndMarker, .endMarker stop, expected⟩ := by
  have hkind : (Token.endMarker stop).kind.isEndMarker = true := rfl
  obtain ⟨label, hresolve⟩ := exists_resolve_endMarker parser.grammar hkind
  have hresolved : parser.grammar.resolve? (Token.endMarker stop).kind (Token.endMarker stop).text ≠ none := by
    rw [hresolve]
    exact Option.some_ne_none label
  exact ⟨iff_of_false nofun hresolved, iff_of_true rfl hkind, nofun, nofun⟩

theorem InProgress.explains (hg : grammar.Compiled) (h : InProgress grammar parser) {token : Token}
    {error : ParseError} {next : Parser} (hpush : parser.pushToken token = (.error error, next)) :
    error.token = token ∧ parser.Explains error := by
  obtain rfl := h.grammar_eq hg.sound
  have hknown := h.known hg.sound
  unfold Parser.pushToken at hpush
  cases hresolve : parser.grammar.resolve? token.kind token.text with
  | none =>
    rw [hresolve] at hpush
    cases hpush
    refine ⟨rfl, iff_of_true rfl hresolve, iff_of_false nofun ?_, nofun, nofun⟩
    -- An end marker always has a label.
    intro hkind
    obtain ⟨label, hlabel⟩ := exists_resolve_endMarker parser.grammar hkind
    exact Option.some_ne_none label (hlabel.symm.trans hresolve)
  | some label =>
    rw [hresolve] at hpush
    have hlabel := (expected_of_error token.kind token hg.sound hknown h.stack_ne_nil hpush).2
    have hadd := (addToken_of_not_mem_expected token.kind token h.stack_ne_nil hlabel).symm.trans hpush
    split at hadd
    · cases hadd
    · cases hadd
      exact ⟨rfl, explains_unexpected hg hknown h.stack_ne_nil hresolve⟩

end Failure

end Parser

theorem Grammar.parseTokens_of_setup {grammar : Grammar} {start : SymbolId} {parser : Parser}
    (hstart : (Parser.new grammar).setup start = .ok parser) (tokens : List Token) :
    grammar.parseTokens start tokens = .ok (parser.run 0 tokens) := by
  rw [parseTokens, hstart]
  rfl

/--
A parse reads its tokens up to the first that is not answered with `false`, and what comes behind does not matter. If
there is no such token, the end marker is missed at the end of the last one. An error says what is wrong with its
token.
-/
theorem Grammar.parseTokens_stops_at_first {grammar : Grammar} (hg : grammar.Compiled) {start : SymbolId}
    {parser : Parser} (hstart : (Parser.new grammar).setup start = .ok parser) :
    (∀ before token next, parser.GoesOn before →
      ((parser.feed before).pushToken token = (.ok true, next) →
        ∃ tree, next.root = some tree ∧
          ∀ rest, grammar.parseTokens start (before ++ token :: rest) = .ok ⟨.ok tree, rest⟩) ∧
      ∀ error, (parser.feed before).pushToken token = (.error error, next) →
        ∀ rest, grammar.parseTokens start (before ++ token :: rest) = .ok ⟨.error error, rest⟩) ∧
    (∀ tokens, parser.GoesOn tokens →
      ∃ error, grammar.parseTokens start tokens = .ok ⟨.error error, []⟩ ∧ error.kind = .unexpectedEnd ∧
        error.message = "missing end marker" ∧
        error.token = .endMarker ((tokens.getLast?.map (·.span.stop)).getD 0) ∧
        error.expected = (parser.feed tokens).expected) ∧
    ∀ tokens error unread, grammar.parseTokens start tokens = .ok ⟨.error error, unread⟩ →
      ∃ before, parser.GoesOn before ∧ (parser.feed before).Explains error ∧
        (tokens = before ++ error.token :: unread ∨
          tokens = before ∧ unread = [] ∧ error.message = "missing end marker") := by
  have hprogress := Parser.InProgress.setup hstart
  have hparse := parseTokens_of_setup hstart
  have hmissing : ∀ tokens, parser.GoesOn tokens → grammar.parseTokens start tokens =
      .ok ⟨.error ⟨.missingEndMarker, .endMarker (Parser.lastStop 0 tokens), (parser.feed tokens).expected⟩, []⟩ := by
    intro tokens hgoes
    rw [hparse, hgoes.run_eq (hprogress.feed hg.sound hgoes).root_eq]
  refine ⟨?_, ?_, ?_⟩
  · intro before token next hgoes
    have hfed := hprogress.feed hg.sound hgoes
    constructor
    · intro hpush
      obtain ⟨tree, hroot⟩ := hfed.pushToken hg.sound hpush
      refine ⟨tree, hroot, fun rest => ?_⟩
      rw [hparse, hgoes.run_of_complete hpush hroot]
    · intro error hpush rest
      rw [hparse, hgoes.run_of_error hpush]
  · intro tokens hgoes
    exact ⟨_, hmissing tokens hgoes, rfl, rfl, rfl, rfl⟩
  · intro tokens error unread herror
    rcases parser.goesOn_or_exists_first tokens with hgoes | ⟨before, token, rest, rfl, hgoes, hfirst⟩
    · cases (hmissing tokens hgoes).symm.trans herror
      exact ⟨tokens, hgoes, Parser.explains_missingEndMarker _ _ _, .inr ⟨rfl, rfl, rfl⟩⟩
    · have hfed := hprogress.feed hg.sound hgoes
      rcases hpush : (parser.feed before).pushToken token with ⟨failure | complete, next⟩
      · rw [hparse, hgoes.run_of_error hpush] at herror
        cases herror
        obtain ⟨rfl, hexplains⟩ := hfed.explains hg hpush
        exact ⟨before, hgoes, hexplains, .inl rfl⟩
      · -- The token has completed the parse, which is no error.
        cases complete with
        | false => exact absurd (congrArg Prod.fst hpush) hfirst
        | true =>
          obtain ⟨tree, hroot⟩ := hfed.pushToken hg.sound hpush
          rw [hparse, hgoes.run_of_complete hpush hroot] at herror
          cases herror

theorem Parser.goesOn_nested : Parser.nested.GoesOn nestedTokens := by
  refine (goesOn_cons_iff _ _).2 ⟨by cbv, (goesOn_cons_iff _ _).2 ⟨by cbv, (goesOn_cons_iff _ _).2 ⟨by cbv, ?_⟩⟩⟩
  exact .nil _

/-- After `acb` the sentence is complete, so another `b` is too much, and what comes behind it is not read. -/
theorem Grammar.parseTokens_stops_at_first_nested :
    (∃ error, Grammar.nested.parseTokens (.ofIndex 0) (Parser.nestedTokens ++ [⟨.name, "b", .empty 3⟩, .endMarker 4]) =
        .ok ⟨.error error, [.endMarker 4]⟩ ∧ error.message = "too much input") ∧
      ∃ error, Grammar.nested.parseTokens (.ofIndex 0) Parser.nestedTokens = .ok ⟨.error error, []⟩ ∧
        error.token = .endMarker 2 := by
  obtain ⟨hfirst, hmissing, -⟩ :=
    parseTokens_stops_at_first (.ofTable .nested Table.ofTable_nested) Parser.setup_nested
  have hanswer : ((Parser.nested.feed Parser.nestedTokens).pushToken ⟨.name, "b", .empty 3⟩).1 =
      .error ⟨.tooMuchInput, ⟨.name, "b", .empty 3⟩, []⟩ := by cbv
  constructor
  · have hparse := (hfirst Parser.nestedTokens ⟨.name, "b", .empty 3⟩ _ Parser.goesOn_nested).2 _
      (Prod.ext hanswer rfl)
    exact ⟨_, hparse [.endMarker 4], rfl⟩
  · obtain ⟨error, hparse, -, -, htoken, -⟩ := hmissing Parser.nestedTokens Parser.goesOn_nested
    exact ⟨error, hparse, htoken⟩

end Pushdown
