import Pushdown.Proofs.Parser.Soundness

/-!
The tree of a parse that is not complete. It is spread over the frames of the stack: each frame holds the children
that its nonterminal has so far, and stays in the state in which it was left when the frame above it was opened.
-/

namespace Pushdown.Parser

variable {grammar : Grammar} {base : Automaton}

/-- The tokens that are answered without an error. -/
def accepted (parser : Parser) : List Token → List Token
  | [] => []
  | token :: rest =>
    match parser.pushToken token with
    | (.ok _, next) => token :: next.accepted rest
    | (.error _, next) => next.accepted rest

/-- The frames, innermost first, hold one tree of `start` between them, with the tokens as its leaves so far. -/
structure PartialTree (grammar : Grammar) (start : SymbolId) (tokens : List Token) (stack : List Frame) : Prop where
  bottom : ∃ frame, stack.getLast? = some frame ∧ frame.automaton.symbol = start
  automaton_eq : ∀ frame ∈ stack, grammar.automaton? frame.automaton.symbol = some frame.automaton
  state_lt : ∀ frame ∈ stack, frame.state.toNat < frame.automaton.states.size
  reads : ∀ frame ∈ stack, grammar.Reads frame.automaton 0 frame.node.children frame.state
  complete : ∀ frame ∈ stack, ∀ child ∈ frame.node.children,
    (∃ token, child = .leaf token) ∨ ∃ symbol, grammar.Derivation symbol child
  linked : stack.IsChain fun upper lower =>
    ∃ arc ∈ lower.current.arcs, grammar.labelOf? (.symbol upper.automaton.symbol) = some arc.label ∧
      arc.target = upper.returnState
  leaves_eq : stack.reverse.flatMap (·.node.leaves) = tokens

section Stack

theorem leavesOf_eq (stack : List Frame) : leavesOf stack = stack.reverse.flatMap (·.node.leaves) := by
  induction stack with
  | nil => rfl
  | cons frame below ih =>
    calc leavesOf (frame :: below)
        = leavesOf below ++ frame.node.leaves := by rw [leavesOf, Frame.node, Tree.leaves_node]
      _ = (frame :: below).reverse.flatMap (·.node.leaves) := by simp [ih]

theorem Linked.getLast? {stack : List Frame} (h : Linked grammar base stack) :
    ∃ frame, stack.getLast? = some frame ∧ frame.automaton = base := by
  induction h with
  | bottom hautomaton _ => exact ⟨_, rfl, hautomaton⟩
  | link _ _ _ _ _ ih =>
    obtain ⟨frame, hlast, hautomaton⟩ := ih
    exact ⟨frame, by rw [List.getLast?_cons_cons, hlast], hautomaton⟩

theorem Linked.forall_state_lt {stack : List Frame} (h : Linked grammar base stack) :
    ∀ frame ∈ stack, frame.state.toNat < frame.automaton.states.size := by
  induction h with
  | bottom _ hstate => exact List.forall_mem_singleton.2 hstate
  | link hstate _ _ _ _ ih => exact List.forall_mem_cons.2 ⟨hstate, ih⟩

/-- Each frame above another has been opened for an arc that is labelled by its nonterminal. -/
theorem Linked.isChain (hs : grammar.Sound) {stack : List Frame} (h : Linked grammar base stack) :
    stack.IsChain fun upper lower =>
      ∃ arc ∈ lower.current.arcs, grammar.labelOf? (.symbol upper.automaton.symbol) = some arc.label ∧
        arc.target = upper.returnState := by
  induction h with
  | bottom _ _ => exact .singleton _
  | link _ harc hopened hreturn _ ih =>
    apply List.IsChain.cons_cons _ ih
    exact ⟨_, harc, (hs.labelOf?_of_opened? hopened).2, hreturn.symm⟩

theorem Linked.automaton_eq (hs : grammar.Sound) {start : SymbolId} (hbase : grammar.automaton? start = some base)
    {stack : List Frame} (h : Linked grammar base stack) :
    ∀ frame ∈ stack, grammar.automaton? frame.automaton.symbol = some frame.automaton := by
  induction h with
  | bottom hautomaton _ =>
    intro frame hframe
    obtain rfl := List.mem_singleton.1 hframe
    rw [hautomaton, hs.symbol_eq start base hbase, hbase]
  | link _ _ hopened _ _ ih => exact List.forall_mem_cons.2 ⟨(hs.labelOf?_of_opened? hopened).1, ih⟩

theorem Built.partialTree (hs : grammar.Sound) {start : SymbolId} (hbase : grammar.automaton? start = some base)
    {tokens : List Token} {stack : List Frame} (h : Built grammar base tokens stack) :
    PartialTree grammar start tokens stack where
  bottom := by
    obtain ⟨frame, hlast, rfl⟩ := h.linked.getLast?
    exact ⟨frame, hlast, hs.symbol_eq start _ hbase⟩
  automaton_eq := h.linked.automaton_eq hs hbase
  state_lt := h.linked.forall_state_lt
  reads := fun frame hframe => (h.grown frame hframe).reads
  complete := by
    intro frame hframe child hchild
    cases child with
    | leaf token => exact .inl ⟨token, rfl⟩
    | node symbol children =>
      have hmem : Tree.node symbol children ∈ frame.children := List.mem_reverse.1 hchild
      exact .inr ⟨symbol, (h.grown frame hframe).derivation _ hmem symbol rfl⟩
  linked := h.linked.isChain hs
  leaves_eq := (leavesOf_eq stack).symm.trans h.leaves_eq

end Stack

section Run

/-- The parsers that have a complete tree and nothing else, or only frames that have been built from the tokens. -/
inductive Standing (grammar : Grammar) (base : Automaton) (tokens : List Token) : Parser → Prop where
  | complete (tree : Tree) : Standing grammar base tokens ⟨grammar, [], some tree⟩
  | growing {stack : List Frame} (h : Built grammar base tokens stack) :
    Standing grammar base tokens ⟨grammar, stack, none⟩

variable {parser next : Parser} {tokens : List Token} {token : Token}

/-- Once nothing is open, every token is refused and changes nothing. -/
theorem pushToken_of_stack_eq_nil (hstack : parser.stack = []) (token : Token) :
    ∃ error, parser.pushToken token = (.error error, parser) := by
  rcases parser.pushToken_cases token with ⟨label, -, hpush⟩ | ⟨error, hpush⟩
  · rw [hpush, addToken, hstack, List.isEmpty_nil, if_pos rfl]
    exact ⟨_, rfl⟩
  · exact ⟨error, hpush⟩

theorem feed_of_stack_eq_nil (hstack : parser.stack = []) (more : List Token) : parser.feed more = parser := by
  induction more with
  | nil => rfl
  | cons token rest ih =>
    obtain ⟨error, hpush⟩ := pushToken_of_stack_eq_nil hstack token
    calc parser.feed (token :: rest)
        = (parser.pushToken token).2.feed rest := rfl
      _ = parser.feed rest := by rw [hpush]
      _ = parser := ih

theorem Standing.grammar_eq (h : Standing grammar base tokens parser) : parser.grammar = grammar := by
  cases h <;> rfl

theorem Standing.known (hbase : base ∈ grammar.automata) (h : Standing grammar base tokens parser) :
    Known grammar parser.stack := by
  cases h with
  | complete tree => exact fun frame hframe => absurd hframe List.not_mem_nil
  | growing hbuilt => exact hbuilt.linked.known hbase

theorem Standing.eq_of_error (hs : grammar.Sound) (hbase : base ∈ grammar.automata)
    (h : Standing grammar base tokens parser) {error : ParseError}
    (hpush : parser.pushToken token = (.error error, next)) : next = parser := by
  rcases pushToken_adds hs h.grammar_eq (h.known hbase) token with ⟨label, -, hadds⟩ | ⟨error', herror⟩
  · rw [hpush] at hadds
    exact hadds.eq_of_error
  · cases hpush.symm.trans herror
    rfl

/-- A token that is accepted becomes the last leaf so far, or it completes the tree. -/
theorem Standing.pushToken (hs : grammar.Sound) (hbase : base ∈ grammar.automata)
    (h : Standing grammar base tokens parser) {complete : Bool}
    (hpush : parser.pushToken token = (.ok complete, next)) :
    Standing grammar base (tokens ++ [token]) next := by
  rcases pushToken_adds hs h.grammar_eq (h.known hbase) token with ⟨label, hresolve, hadds⟩ | ⟨error, herror⟩
  · rw [hpush] at hadds
    cases h with
    | complete tree =>
      -- A parser whose tree is complete accepts nothing.
      obtain ⟨error, herror⟩ := @pushToken_of_stack_eq_nil ⟨grammar, [], some tree⟩ rfl token
      cases hpush.symm.trans herror
    | growing hbuilt =>
      cases hadds with
      | taken hcloses htakes _ =>
        have hclosed := hbuilt.closes hs hbase (fun _ => And.right) hcloses
        exact .growing (hclosed.takes hs hbase hresolve htakes)
      | ended _ _ _ _ _ => exact .complete _
      | stopped _ _ _ => exact .complete _
  · cases hpush.symm.trans herror

theorem Standing.feed (hs : grammar.Sound) (hbase : base ∈ grammar.automata)
    (h : Standing grammar base tokens parser) (pushed : List Token) :
    Standing grammar base (tokens ++ parser.accepted pushed) (parser.feed pushed) := by
  induction pushed generalizing parser tokens with
  | nil => rwa [accepted, List.append_nil]
  | cons token rest ih =>
    have hfeed : parser.feed (token :: rest) = (parser.pushToken token).2.feed rest := rfl
    rw [hfeed, accepted]
    -- A token that is refused leaves the parser as it was, so it does not count.
    rcases hpush : parser.pushToken token with ⟨error | complete, next⟩
    · obtain rfl := h.eq_of_error hs hbase hpush
      exact ih h
    · have hnext := ih (h.pushToken hs hbase hpush)
      rwa [List.append_cons]

end Run

/--
After any tokens, accepted or not, the tree is complete and nothing changes any more, or it stands on the stack as
far as the tokens that have been accepted go.
-/
theorem feed_partialTree (hg : grammar.Compiled) {fresh parser : Parser} {start : SymbolId}
    (hfresh : fresh.grammar = grammar) (hstart : fresh.setup start = .ok parser) (pushed : List Token) :
    ((parser.feed pushed).root.isSome ∧ (parser.feed pushed).stack = [] ∧
      ∀ more token, ∃ error,
        ((parser.feed pushed).feed more).pushToken token = (.error error, parser.feed pushed)) ∨
    ((parser.feed pushed).root = none ∧
      PartialTree grammar start (parser.accepted pushed) (parser.feed pushed).stack) := by
  have hs := hg.sound
  obtain ⟨base, hautomaton, hparser⟩ := exists_of_setup hstart
  rw [hfresh] at hautomaton hparser
  have hbase := Grammar.mem_of_automaton? hautomaton
  have hstanding : Standing grammar base [] parser := hparser ▸ .growing (.start hs hbase)
  have hfed := hstanding.feed hs hbase pushed
  rw [List.nil_append] at hfed
  generalize parser.feed pushed = fed at hfed
  cases hfed with
  | complete tree =>
    refine .inl ⟨rfl, rfl, ?_⟩
    intro more token
    rw [feed_of_stack_eq_nil rfl]
    exact pushToken_of_stack_eq_nil rfl token
  | growing hbuilt => exact .inr ⟨rfl, hbuilt.partialTree hs hautomaton⟩

/-- The `b` is refused, so the frames hold `a` and `c`, the `c` in a node of its own that is still open. -/
theorem feed_partialTree_nested :
    PartialTree .nested (.ofIndex 0) [⟨.name, "a", .empty 0⟩, ⟨.name, "c", .empty 2⟩]
      (nested.feed [⟨.name, "a", .empty 0⟩, ⟨.name, "b", .empty 1⟩, ⟨.name, "c", .empty 2⟩]).stack := by
  have haccepted : nested.accepted [⟨.name, "a", .empty 0⟩, ⟨.name, "b", .empty 1⟩, ⟨.name, "c", .empty 2⟩] =
      [⟨.name, "a", .empty 0⟩, ⟨.name, "c", .empty 2⟩] := by cbv
  have hopen : (nested.feed [⟨.name, "a", .empty 0⟩, ⟨.name, "b", .empty 1⟩, ⟨.name, "c", .empty 2⟩]).root =
      none := by cbv
  rcases feed_partialTree (.ofTable .nested Table.ofTable_nested) rfl setup_nested
    [⟨.name, "a", .empty 0⟩, ⟨.name, "b", .empty 1⟩, ⟨.name, "c", .empty 2⟩] with ⟨hroot, -, -⟩ | ⟨-, hpartial⟩
  · rw [hopen] at hroot
    cases hroot
  · rwa [haccepted] at hpartial

end Pushdown.Parser
