import Pushdown.Proofs.Parser.Progress
import Pushdown.Proofs.Tree.Alike

/-!
Two parsers side by side. If their grammars do the same under labels that stand for each other, and each token of the
one has such a label with its partner, then both answer alike at every token, and they end with trees or errors that
are alike.
-/

namespace Pushdown.Parser

/-- Which automata, labels and tokens of one run stand for which of another. -/
structure Likeness where
  automata : Automaton → Automaton → Prop
  labels : Label → Label → Prop
  tokens : Token → Token → Prop

section Rel

variable {α β : Type} {related : α → β → Prop} {a a' : Option α} {b b' : Option β}

theorem isSome_eq_of_rel (h : Option.Rel related a b) : a.isSome = b.isSome := by
  cases h <;> rfl

theorem rel_refl {related : α → α → Prop} (h : ∀ x, related x x) (a : Option α) : Option.Rel related a a := by
  cases a with
  | none => exact .none
  | some x => exact .some (h x)

theorem rel_of_forall (h : ∀ x, a = some x → ∃ y, b = some y ∧ related x y) (h' : ∀ y, b = some y → ∃ x, a = some x) :
    Option.Rel related a b := by
  cases a with
  | some x =>
    obtain ⟨y, rfl, hxy⟩ := h x rfl
    exact .some hxy
  | none =>
    cases b with
    | none => exact .none
    | some y =>
      obtain ⟨x, hx⟩ := h' y rfl
      cases hx

theorem rel_or (h : Option.Rel related a b) (h' : Option.Rel related a' b') :
    Option.Rel related (a.or a') (b.or b') := by
  cases h with
  | some h => exact .some h
  | none => exact h'

end Rel

namespace Likeness

variable (like : Likeness)

/-- The arcs lead to the same state, through automata that are alike or through none. -/
structure Arcs (grammar grammar' : Grammar) (arc arc' : Arc) : Prop where
  target_eq : arc.target = arc'.target
  opened : Option.Rel like.automata (opened? grammar arc) (opened? grammar' arc')

/-- Automata that are alike end in the same states, and they consume labels that are alike along arcs that are. -/
structure Grammars (grammar grammar' : Grammar) : Prop where
  size_eq : grammar.automata.size = grammar'.automata.size
  automaton : ∀ id, Option.Rel like.automata (grammar.automaton? id) (grammar'.automaton? id)
  symbol_eq : ∀ {a a'}, like.automata a a' → a.symbol = a'.symbol
  accepting_eq : ∀ {a a'}, like.automata a a' → ∀ number, (a.state number).accepting = (a'.state number).accepting
  arcFor : ∀ {a a'}, like.automata a a' → ∀ number {label label'}, like.labels label label' →
    Option.Rel (like.Arcs grammar grammar') ((a.state number).arcFor? label) ((a'.state number).arcFor? label')

structure Frames (frame frame' : Frame) : Prop where
  automaton : like.automata frame.automaton frame'.automaton
  state_eq : frame.state = frame'.state
  children : List.Forall₂ (Tree.Alike like.tokens) frame.children frame'.children
  returnState_eq : frame.returnState = frame'.returnState

def Stacks : List Frame → List Frame → Prop := List.Forall₂ like.Frames

/-- Both are in ascending order, and of labels that are alike, both are expected or neither is. -/
structure Expected (expected expected' : List Label) : Prop where
  ascending : expected.Pairwise (· < ·)
  ascending' : expected'.Pairwise (· < ·)
  mem_iff : ∀ {label label'}, like.labels label label' → (label ∈ expected ↔ label' ∈ expected')

/-- The errors say the same of the two tokens. -/
structure Errors (token token' : Token) (error error' : ParseError) : Prop where
  failure_eq : error.failure = error'.failure
  token_eq : error.token = token
  token_eq' : error'.token = token'
  expected : like.Expected error.expected error'.expected

/-- The parsers belong to the two grammars, and all that they hold is alike. -/
structure Parsers (grammar grammar' : Grammar) (parser parser' : Parser) : Prop where
  grammar_eq : parser.grammar = grammar
  grammar_eq' : parser'.grammar = grammar'
  stack : like.Stacks parser.stack parser'.stack
  root : Option.Rel (Tree.Alike like.tokens) parser.root parser'.root

/-- The answers to the two tokens, with the parsers afterwards. -/
inductive Answers (grammar grammar' : Grammar) (token token' : Token) :
    Except ParseError Bool × Parser → Except ParseError Bool × Parser → Prop where
  | error {error error' : ParseError} {parser parser' : Parser} (herror : like.Errors token token' error error')
    (hparser : like.Parsers grammar grammar' parser parser') :
    Answers grammar grammar' token token' (.error error, parser) (.error error', parser')
  | ok (complete : Bool) {parser parser' : Parser} (hparser : like.Parsers grammar grammar' parser parser') :
    Answers grammar grammar' token token' (.ok complete, parser) (.ok complete, parser')

/-- The tokens stand for each other, and so do their labels. -/
structure Pushed (grammar grammar' : Grammar) (token token' : Token) : Prop where
  tokens : like.tokens token token'
  endMarker_eq : token.kind.isEndMarker = token'.kind.isEndMarker
  label : Option.Rel like.labels (grammar.resolve? token.kind token.text) (grammar'.resolve? token'.kind token'.text)

variable {like} {grammar grammar' : Grammar}

section Frames

theorem Frames.start {a a' : Automaton} (h : like.automata a a') (returnState : UInt32) :
    like.Frames (.start a returnState) (.start a' returnState) := ⟨h, rfl, .nil, rfl⟩

theorem Frames.node (hg : like.Grammars grammar grammar') {frame frame' : Frame} (h : like.Frames frame frame') :
    Tree.Alike like.tokens frame.node frame'.node := by
  rw [Frame.node, Frame.node, hg.symbol_eq h.automaton]
  exact .of_forall₂ _ (List.rel_reverse h.children)

theorem Frames.move {frame frame' : Frame} (h : like.Frames frame frame') {child child' : Tree}
    (hchild : Tree.Alike like.tokens child child') {state state' : UInt32} (hstate : state = state') :
    like.Frames { frame.add child with state := state } { frame'.add child' with state := state' } :=
  ⟨h.automaton, hstate, .cons hchild h.children, h.returnState_eq⟩

theorem Frames.close (hg : like.Grammars grammar grammar') {top top' parent parent' : Frame}
    (htop : like.Frames top top') (hparent : like.Frames parent parent') :
    like.Frames (parent.close top) (parent'.close top') :=
  hparent.move (htop.node hg) htop.returnState_eq

end Frames

section Stacks

variable {stack stack' : List Frame}

theorem Stacks.closeFrames (hg : like.Grammars grammar grammar') (h : like.Stacks stack stack') (closing : Nat) :
    like.Stacks (closeFrames closing stack) (closeFrames closing stack') := by
  induction closing generalizing stack stack' with
  | zero => exact h
  | succ closing ih =>
    cases h with
    | nil => exact .nil
    | cons htop hbelow =>
      cases hbelow with
      -- The lowest frame has no parent to which its tree could go, so it stays.
      | nil => exact .cons htop .nil
      | cons hparent hbelow => exact ih (.cons (htop.close hg hparent) hbelow)

theorem Stacks.searchFrom_eq (hg : like.Grammars grammar grammar') (h : like.Stacks stack stack') {label label' : Label}
    (hlabel : like.labels label label') (closing : Nat) (current : UInt32) :
    searchFrom label closing current stack = searchFrom label' closing current stack' := by
  induction h generalizing closing current with
  | nil => rfl
  | cons hframe _ ih =>
    -- A search asks no more than whether there is an arc and whether the state is accepting.
    have hfound := isSome_eq_of_rel (hg.arcFor hframe.automaton current hlabel)
    have haccepting := hg.accepting_eq hframe.automaton current
    simp only [searchFrom, hfound, haccepting, ih, hframe.returnState_eq]

theorem Stacks.search_eq (hg : like.Grammars grammar grammar') (h : like.Stacks stack stack') {label label' : Label}
    (hlabel : like.labels label label') : search label stack = search label' stack' := by
  cases h with
  | nil => rfl
  | cons htop hbelow =>
    rw [search, search, htop.state_eq]
    exact Stacks.searchFrom_eq hg (.cons htop hbelow) hlabel 0 _

theorem Stacks.all_statesFrom_eq (hg : like.Grammars grammar grammar') (h : like.Stacks stack stack')
    (current : UInt32) :
    (statesFrom current stack).all (·.accepting) = (statesFrom current stack').all (·.accepting) := by
  induction h generalizing current with
  | nil => rfl
  | cons hframe _ ih =>
    rw [statesFrom, statesFrom, List.all_cons, List.all_cons, hg.accepting_eq hframe.automaton,
      hframe.returnState_eq, ih]

theorem Stacks.allAccepting_eq (hg : like.Grammars grammar grammar') (h : like.Stacks stack stack') :
    allAccepting stack = allAccepting stack' := by
  cases h with
  | nil => rfl
  | cons htop hbelow =>
    rw [allAccepting, allAccepting, reachableStates, reachableStates, htop.state_eq]
    exact Stacks.all_statesFrom_eq hg (.cons htop hbelow) _

/-- Both stacks have consumed the token, or neither has. -/
theorem Stacks.consume (hg : like.Grammars grammar grammar') (h : like.Stacks stack stack') {token token' : Token}
    (htoken : like.tokens token token') {label label' : Label} (hlabel : like.labels label label') (fuel : Nat) :
    (∃ next next', consume grammar token label fuel stack = .ok next ∧
      consume grammar' token' label' fuel stack' = .ok next' ∧ like.Stacks next next') ∨
    ∃ next next', consume grammar token label fuel stack = .error next ∧
      consume grammar' token' label' fuel stack' = .error next' ∧ like.Stacks next next' := by
  -- Each round opens an automaton in both runs or in neither, so both use up their fuel together.
  induction fuel generalizing stack stack' with
  | zero => exact .inr ⟨stack, stack', rfl, rfl, h⟩
  | succ fuel ih =>
    cases h with
    | nil => exact .inr ⟨[], [], rfl, rfl, .nil⟩
    | @cons top top' below below' htop hbelow =>
      have harc := hg.arcFor htop.automaton top.state hlabel
      rw [Parser.consume, Parser.consume, ← htop.state_eq]
      generalize (top.automaton.state top.state).arcFor? label = found,
        (top'.automaton.state top.state).arcFor? label' = found' at harc
      cases harc with
      | none => exact .inr ⟨_, _, rfl, rfl, .cons htop hbelow⟩
      | @some arc arc' harc =>
        have hopened := harc.opened
        dsimp only
        generalize opened? grammar arc = opened, opened? grammar' arc' = opened' at hopened
        cases hopened with
        | none => exact .inl ⟨_, _, rfl, rfl, .cons (htop.move (.leaf htoken) harc.target_eq) hbelow⟩
        | some hautomaton =>
          rw [← harc.target_eq]
          exact ih (.cons (.start hautomaton arc.target) (.cons htop hbelow))

theorem Stacks.isEmpty_eq (h : like.Stacks stack stack') : stack.isEmpty = stack'.isEmpty := by
  cases h <;> rfl

theorem Stacks.root (hg : like.Grammars grammar grammar') (h : like.Stacks stack stack') :
    Option.Rel (Tree.Alike like.tokens) (stack.head?.map (·.node)) (stack'.head?.map (·.node)) := by
  cases h with
  | nil => exact .none
  | cons htop _ => exact .some (htop.node hg)

end Stacks

section Parsers

variable {parser parser' : Parser} {token token' : Token}

theorem Parsers.finish (hg : like.Grammars grammar grammar') (h : like.Parsers grammar grammar' parser parser') :
    like.Parsers grammar grammar' parser.finish parser'.finish := by
  have hclosed := Stacks.closeFrames hg h.stack (parser.stack.length - 1)
  refine ⟨h.grammar_eq, h.grammar_eq', .nil, ?_⟩
  rw [Parser.finish, Parser.finish, ← h.stack.length_eq]
  exact Stacks.root hg hclosed

theorem Parsers.expected (hg : like.Grammars grammar grammar') (h : like.Parsers grammar grammar' parser parser') :
    like.Expected parser.expected parser'.expected := by
  refine ⟨LabelSet.ascending _, LabelSet.ascending _, fun hlabel => ?_⟩
  rw [mem_expected_iff, mem_expected_iff, Stacks.search_eq hg h.stack hlabel]

theorem expected_nil : like.Expected [] [] :=
  ⟨.nil, .nil, fun _ => iff_of_false List.not_mem_nil List.not_mem_nil⟩

theorem Parsers.unexpected (hg : like.Grammars grammar grammar') (h : like.Parsers grammar grammar' parser parser')
    {kind kind' : TokenKind} (hkind : kind.isEndMarker = kind'.isEndMarker) (accepting : Bool) :
    like.Errors token token' (parser.unexpected kind token accepting) (parser'.unexpected kind' token' accepting) :=
  ⟨by rw [Parser.unexpected, Parser.unexpected, hkind], rfl, rfl, h.expected hg⟩

theorem Parsers.addToken (hg : like.Grammars grammar grammar') (h : like.Parsers grammar grammar' parser parser')
    (htoken : like.tokens token token') {kind kind' : TokenKind} (hkind : kind.isEndMarker = kind'.isEndMarker)
    {label label' : Label} (hlabel : like.labels label label') :
    like.Answers grammar grammar' token token' (parser.addToken kind token label)
      (parser'.addToken kind' token' label') := by
  -- All tests of the one run are brought to those of the other, so that one case split is enough for both.
  have hsearch := Stacks.search_eq hg h.stack hlabel
  rw [Parser.addToken, Parser.addToken, Stacks.isEmpty_eq h.stack, hsearch, hkind]
  split
  · have hdone : parser.isDone = parser'.isDone := isSome_eq_of_rel h.root
    rw [hdone]
    exact .error ⟨rfl, rfl, rfl, expected_nil⟩ h
  cases search label' parser'.stack with
  | stuck accepting =>
    dsimp only
    split
    · exact .ok true (h.finish hg)
    · exact .error (h.unexpected hg hkind accepting) h
  | found closing =>
    have hclosed := Stacks.closeFrames hg h.stack closing
    have hnext : ∀ {next next' : List Frame}, like.Stacks next next' →
        like.Parsers grammar grammar' ⟨grammar, next, parser.root⟩ ⟨grammar', next', parser'.root⟩ :=
      fun hstack => ⟨rfl, rfl, hstack, h.root⟩
    rw [h.grammar_eq, h.grammar_eq', hg.size_eq]
    rcases Stacks.consume hg hclosed htoken hlabel (grammar'.automata.size + 1) with
      ⟨next, next', hconsume, hconsume', hstack⟩ | ⟨next, next', hconsume, hconsume', hstack⟩
    · simp only [hconsume, hconsume', Stacks.allAccepting_eq hg hstack]
      split
      · exact .ok true ((hnext hstack).finish hg)
      · exact .ok false (hnext hstack)
    · simp only [hconsume, hconsume']
      exact .error ((hnext hstack).unexpected hg hkind false) (hnext hstack)

theorem Parsers.pushToken (hg : like.Grammars grammar grammar') (h : like.Parsers grammar grammar' parser parser')
    (hpushed : like.Pushed grammar grammar' token token') :
    like.Answers grammar grammar' token token' (parser.pushToken token) (parser'.pushToken token') := by
  have hlabel := hpushed.label
  rw [Parser.pushToken, Parser.pushToken, h.grammar_eq, h.grammar_eq']
  generalize grammar.resolve? token.kind token.text = found,
    grammar'.resolve? token'.kind token'.text = found' at hlabel
  cases hlabel with
  | none => exact .error ⟨rfl, rfl, rfl, expected_nil⟩ h
  | some hlabel => exact h.addToken hg hpushed.tokens hpushed.endMarker_eq hlabel

end Parsers

section Run

variable (like) in
/--
The outcomes of two runs: trees that are alike, or errors that are alike at tokens of the same place, or both runs have
missed an end marker. Both have read the same number of tokens.
-/
inductive Outcomes (stop stop' : Nat) (tokens tokens' : List Token) : ParseOutcome → ParseOutcome → Prop where
  | complete (count : Nat) {tree tree' : Tree} (htree : Tree.Alike like.tokens tree tree') :
    Outcomes stop stop' tokens tokens' ⟨.ok tree, tokens.drop count⟩ ⟨.ok tree', tokens'.drop count⟩
  | failed (count : Nat) {token token' : Token} {error error' : ParseError}
    (herror : like.Errors token token' error error') (htoken : tokens[count]? = some token)
    (htoken' : tokens'[count]? = some token') :
    Outcomes stop stop' tokens tokens' ⟨.error error, tokens.drop (count + 1)⟩
      ⟨.error error', tokens'.drop (count + 1)⟩
  | missing {expected expected' : List Label} (hexpected : like.Expected expected expected') :
    Outcomes stop stop' tokens tokens'
      ⟨.error ⟨.missingEndMarker, .endMarker (lastStop stop tokens), expected⟩, []⟩
      ⟨.error ⟨.missingEndMarker, .endMarker (lastStop stop' tokens'), expected'⟩, []⟩

theorem Outcomes.cons {stop stop' : Nat} {token token' : Token} {rest rest' : List Token}
    {outcome outcome' : ParseOutcome}
    (h : like.Outcomes token.span.stop token'.span.stop rest rest' outcome outcome') :
    like.Outcomes stop stop' (token :: rest) (token' :: rest') outcome outcome' := by
  cases h with
  | complete count htree => exact .complete (count + 1) htree
  | failed count herror htoken htoken' => exact .failed (count + 1) herror htoken htoken'
  | missing hexpected =>
    rw [← lastStop_cons stop, ← lastStop_cons stop']
    exact .missing hexpected

theorem Outcomes.alike {stop stop' : Nat} {tokens tokens' : List Token} {outcome outcome' : ParseOutcome}
    (h : like.Outcomes stop stop' tokens tokens' outcome outcome') {tree tree' : Tree}
    (hresult : outcome.result = .ok tree) (hresult' : outcome'.result = .ok tree') :
    Tree.Alike like.tokens tree tree' := by
  cases h with
  | complete _ htree =>
    cases hresult
    cases hresult'
    exact htree
  | failed _ _ _ _ => cases hresult
  | missing _ => cases hresult

/-- Runs over tokens that stand for each other have outcomes that are alike. -/
theorem Parsers.run_outcomes (hs : grammar.Sound) (hg : like.Grammars grammar grammar') {parser parser' : Parser}
    (hprogress : InProgress grammar parser) (h : like.Parsers grammar grammar' parser parser')
    {tokens tokens' : List Token} (htokens : List.Forall₂ (like.Pushed grammar grammar') tokens tokens')
    (stop stop' : Nat) :
    like.Outcomes stop stop' tokens tokens' (parser.run stop tokens) (parser'.run stop' tokens') := by
  -- The parsers stay alike. While a run goes on the first has no root, so the second has none either.
  induction htokens generalizing parser parser' stop stop' with
  | nil =>
    have hroot := h.root
    rw [hprogress.root_eq] at hroot
    generalize hroot' : parser'.root = root' at hroot
    cases hroot
    rw [Parser.run, Parser.run, conclude, conclude, hprogress.root_eq, hroot']
    exact .missing (h.expected hg)
  | @cons token token' rest rest' hpushed _ ih =>
    have hanswers := h.pushToken hg hpushed
    rw [Parser.run, Parser.run]
    generalize hpush : parser.pushToken token = answer, hpush' : parser'.pushToken token' = answer' at hanswers
    cases hanswers with
    | error herror _ => exact .failed 0 herror rfl rfl
    | @ok complete next next' hnext =>
      have hprogress' := hprogress.pushToken hs hpush
      cases complete with
      | false => exact (ih hprogress' hnext _ _).cons
      | true =>
        obtain ⟨tree, htree⟩ := hprogress'
        have hroot := hnext.root
        rw [htree] at hroot
        generalize hroot' : next'.root = root' at hroot
        cases hroot with
        | some halike =>
          dsimp only
          rw [conclude, conclude, htree, hroot']
          exact .complete 1 halike

theorem Grammars.parseTokens_outcomes (hs : grammar.Sound) (hg : like.Grammars grammar grammar') (start : SymbolId)
    {tokens tokens' : List Token} (htokens : List.Forall₂ (like.Pushed grammar grammar') tokens tokens') :
    (∃ undefined, grammar.parseTokens start tokens = .error undefined ∧
      grammar'.parseTokens start tokens' = .error undefined) ∨
    ∃ outcome outcome', grammar.parseTokens start tokens = .ok outcome ∧
      grammar'.parseTokens start tokens' = .ok outcome' ∧ like.Outcomes 0 0 tokens tokens' outcome outcome' := by
  have hfound := hg.automaton start
  generalize hautomaton : grammar.automaton? start = found, hautomaton' : grammar'.automaton? start = found' at hfound
  cases hfound with
  | none =>
    left
    refine ⟨⟨start⟩, ?_, ?_⟩
    · rw [Grammar.parseTokens, setup, new, hautomaton]
      rfl
    · rw [Grammar.parseTokens, setup, new, hautomaton']
      rfl
  | @some automaton automaton' hlike =>
    right
    have hstart : (new grammar).setup start = .ok ⟨grammar, [.start automaton 0], none⟩ := by
      rw [setup, new, hautomaton]
    have hstart' : (new grammar').setup start = .ok ⟨grammar', [.start automaton' 0], none⟩ := by
      rw [setup, new, hautomaton']
    have hparsers : like.Parsers grammar grammar' ⟨grammar, [.start automaton 0], none⟩
        ⟨grammar', [.start automaton' 0], none⟩ := ⟨rfl, rfl, .cons (.start hlike 0) .nil, .none⟩
    exact ⟨_, _, Grammar.parseTokens_of_setup hstart tokens, Grammar.parseTokens_of_setup hstart' tokens',
      hparsers.run_outcomes hs hg (.setup hstart) htokens 0 0⟩

end Run

end Likeness

end Pushdown.Parser
