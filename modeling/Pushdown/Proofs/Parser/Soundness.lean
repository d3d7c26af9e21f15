import Pushdown.Proofs.Parser.Stack
import Pushdown.Proofs.Tree.Derivation

/-! The tree of a complete parse derives the tokens that have been taken. -/

namespace Pushdown

/-- The children of the frame lead to its state, and those that are nodes are derivation trees. -/
structure Frame.Grown (grammar : Grammar) (frame : Frame) : Prop where
  reads : grammar.Reads frame.automaton 0 frame.children.reverse frame.state
  derivation : ∀ child ∈ frame.children, ∀ inner, child.symbol? = some inner → grammar.Derivation inner child

section Frame

variable {grammar : Grammar}

theorem Frame.Grown.start (automaton : Automaton) (returnState : UInt32) :
    (Frame.start automaton returnState).Grown grammar where
  reads := .nil 0
  derivation := fun _ hchild => absurd hchild List.not_mem_nil

theorem Frame.Grown.node (hs : grammar.Sound) {frame : Frame} (h : frame.Grown grammar)
    (hautomaton : grammar.automaton? frame.automaton.symbol = some frame.automaton)
    (haccepting : frame.current.accepting = true) : grammar.Derivation frame.automaton.symbol frame.node := by
  refine .node hautomaton ?_ h.reads haccepting ?_
  · -- A node without children would end in the initial state, which is not accepting.
    intro hempty
    have hreads := h.reads
    rw [hempty] at hreads
    have hinitial := hs.initial frame.automaton (Grammar.mem_of_automaton? hautomaton)
    rw [Frame.current, ← hreads.eq_of_nil, hinitial] at haccepting
    exact Bool.false_ne_true haccepting
  · exact fun child hchild => h.derivation child (List.mem_reverse.1 hchild)

theorem Frame.Grown.add {frame : Frame} (h : frame.Grown grammar) {arc : Arc} (harc : arc ∈ frame.current.arcs)
    {child : Tree} (hlabel : grammar.labelOfTree? child = some arc.label)
    (hchild : ∀ inner, child.symbol? = some inner → grammar.Derivation inner child) :
    ({ frame.add child with state := arc.target } : Frame).Grown grammar where
  reads := by
    have hstep : grammar.Reads frame.automaton frame.state [child] arc.target :=
      .cons harc hlabel (.nil arc.target)
    have happend := h.reads.append hstep
    rw [← List.reverse_cons] at happend
    exact happend
  derivation := List.forall_mem_cons.2 ⟨hchild, h.derivation⟩

end Frame

namespace Parser

variable {grammar : Grammar} {base : Automaton} {token : Token} {label : Label}

/-- The tokens in the frames, from the bottom up. -/
def leavesOf : List Frame → List Token
  | [] => []
  | frame :: below => leavesOf below ++ frame.children.reverse.flatMap Tree.leaves

theorem leavesOf_close (top parent : Frame) (below : List Frame) :
    leavesOf (parent.close top :: below) = leavesOf (top :: parent :: below) := by
  simp [leavesOf, Frame.close, Frame.add, Frame.node]

/-- The stack has been built from the tokens, in this order. -/
structure Built (grammar : Grammar) (base : Automaton) (tokens : List Token) (stack : List Frame) : Prop where
  linked : Linked grammar base stack
  grown : ∀ frame ∈ stack, frame.Grown grammar
  leaves_eq : leavesOf stack = tokens

theorem Built.start (hs : grammar.Sound) (hbase : base ∈ grammar.automata) :
    Built grammar base [] [.start base 0] :=
  ⟨.bottom rfl (hs.states_pos base hbase), List.forall_mem_singleton.2 (.start base 0), rfl⟩

theorem Built.close (hs : grammar.Sound) (hbase : base ∈ grammar.automata) {tokens : List Token}
    {top parent : Frame} {below : List Frame} (h : Built grammar base tokens (top :: parent :: below))
    (haccepting : top.current.accepting = true) : Built grammar base tokens (parent.close top :: below) where
  linked := h.linked.close hs hbase
  grown := by
    obtain ⟨htop, hparent, hbelow⟩ := List.forall_mem_cons.1 h.grown |>.imp_right List.forall_mem_cons.1
    refine List.forall_mem_cons.2 ⟨?_, hbelow⟩
    cases h.linked with
    | @link _ _ _ arc _ harc hopened hreturn _ =>
      -- The node of the top frame is a child along the arc for which the frame was opened.
      obtain ⟨hautomaton, hlabel⟩ := hs.labelOf?_of_opened? hopened
      have hchild : ∀ inner, top.node.symbol? = some inner → grammar.Derivation inner top.node := by
        rintro inner ⟨⟩
        exact htop.node hs hautomaton haccepting
      have htree : grammar.labelOfTree? top.node = some arc.label := hlabel
      have hadd := hparent.add harc htree hchild
      rw [← hreturn] at hadd
      exact hadd
  leaves_eq := (leavesOf_close top parent below).trans h.leaves_eq

theorem Built.closes (hs : grammar.Sound) (hbase : base ∈ grammar.automata) {tokens : List Token}
    {ends : State → Prop} (hends : ∀ state, ends state → state.accepting = true) {stack rest : List Frame}
    (hcloses : Closes ends stack rest) (h : Built grammar base tokens stack) : Built grammar base tokens rest := by
  induction hcloses with
  | refl stack => exact h
  | close htop _ ih => exact ih (h.close hs hbase (hends _ htop))

theorem Built.leaf (hs : grammar.Sound) (hbase : base ∈ grammar.automata) {tokens : List Token} {top : Frame}
    {below : List Frame} (h : Built grammar base tokens (top :: below))
    (hresolve : grammar.resolve? token.kind token.text = some label) {arc : Arc}
    (hfind : top.current.arcFor? label = some arc) (hopened : opened? grammar arc = none) :
    Built grammar base (tokens ++ [token]) ({ top.add (.leaf token) with state := arc.target } :: below) where
  linked := h.linked.leaf hs hbase hfind
  grown := by
    obtain ⟨htop, hbelow⟩ := List.forall_mem_cons.1 h.grown
    obtain ⟨harc, hconsumes⟩ := h.linked.arc_of_find hs hbase hfind
    -- No frame is opened, so the arc carries the label of the token itself.
    rw [Grammar.Consumes, hopened] at hconsumes
    have hlabel : grammar.labelOfTree? (.leaf token) = some arc.label := hconsumes ▸ hresolve
    have hinner : ∀ inner, (Tree.leaf token).symbol? = some inner → grammar.Derivation inner (.leaf token) := by
      simp [Tree.symbol?]
    exact List.forall_mem_cons.2 ⟨htop.add harc hlabel hinner, hbelow⟩
  leaves_eq := by
    rw [← h.leaves_eq]
    simp [leavesOf, Frame.add]

theorem Built.through (hs : grammar.Sound) (hbase : base ∈ grammar.automata) {tokens : List Token} {top : Frame}
    {below : List Frame} (h : Built grammar base tokens (top :: below)) {arc : Arc}
    (hfind : top.current.arcFor? label = some arc) {automaton : Automaton}
    (hopened : opened? grammar arc = some automaton) :
    Built grammar base tokens (.start automaton arc.target :: top :: below) where
  linked := h.linked.through hs hbase hfind hopened
  grown := List.forall_mem_cons.2 ⟨.start automaton arc.target, h.grown⟩
  leaves_eq := by
    rw [← h.leaves_eq]
    simp [leavesOf, Frame.start]

theorem Built.takes (hs : grammar.Sound) (hbase : base ∈ grammar.automata) {tokens : List Token}
    (hresolve : grammar.resolve? token.kind token.text = some label) {stack next : List Frame}
    (htakes : Takes grammar token label stack next) (h : Built grammar base tokens stack) :
    Built grammar base (tokens ++ [token]) next := by
  induction htakes with
  | leaf hfind hopened => exact h.leaf hs hbase hresolve hfind hopened
  | through hfind hopened _ ih => exact ih (h.through hs hbase hfind hopened)

theorem Built.leaves_root {tokens : List Token} {root : Frame} (h : Built grammar base tokens [root]) :
    root.node.leaves = tokens := by
  rw [← h.leaves_eq]
  simp [leavesOf, Frame.node]

theorem Built.derivation (hs : grammar.Sound) {symbol : SymbolId} (hbase : grammar.automaton? symbol = some base)
    {tokens : List Token} {root : Frame} (h : Built grammar base tokens [root])
    (haccepting : root.current.accepting = true) :
    grammar.Derivation symbol root.node ∧ root.node.leaves = tokens := by
  have hautomaton : root.automaton = base := by
    cases h.linked with
    | bottom hautomaton _ => exact hautomaton
  have hsymbol : root.automaton.symbol = symbol := hautomaton ▸ hs.symbol_eq symbol base hbase
  have hgrown := h.grown root List.mem_cons_self
  have hderivation := hgrown.node hs (by rw [hsymbol, hautomaton, hbase]) haccepting
  exact ⟨hsymbol ▸ hderivation, h.leaves_root⟩

/-- The parser after the tokens have been pushed one after another, whatever the answers. -/
def feed (parser : Parser) (tokens : List Token) : Parser :=
  tokens.foldl (fun parser token => (parser.pushToken token).2) parser

/-- The tokens among them that are answered with `false`: those that have been taken before the last. -/
def taken (parser : Parser) : List Token → List Token
  | [] => []
  | token :: rest =>
    match parser.pushToken token with
    | (.ok false, next) => token :: next.taken rest
    | (_, next) => next.taken rest

/-- The parser has nothing on its stack, or what it has been given so far. -/
def Holds (parser : Parser) (grammar : Grammar) (base : Automaton) (tokens : List Token) : Prop :=
  parser.grammar = grammar ∧ (parser.stack = [] ∨ Built grammar base tokens parser.stack)

theorem Holds.known {parser : Parser} (hbase : base ∈ grammar.automata) {tokens : List Token}
    (h : parser.Holds grammar base tokens) : Known grammar parser.stack := by
  obtain ⟨-, hempty | hbuilt⟩ := h
  · exact fun frame hframe => absurd (hempty ▸ hframe) List.not_mem_nil
  · exact hbuilt.linked.known hbase

theorem Holds.built_of_closes {parser : Parser} {tokens : List Token} (h : parser.Holds grammar base tokens)
    {ends : State → Prop} {rest : List Frame} (hcloses : Closes ends parser.stack rest) (hne : rest ≠ []) :
    Built grammar base tokens parser.stack := by
  obtain ⟨-, hempty | hbuilt⟩ := h
  · rw [hempty] at hcloses
    cases hcloses
    exact absurd rfl hne
  · exact hbuilt

theorem Holds.pushToken (hs : grammar.Sound) (hbase : base ∈ grammar.automata) {parser : Parser}
    {tokens : List Token} (h : parser.Holds grammar base tokens) (token : Token) :
    (∃ next, parser.pushToken token = (.ok false, next) ∧ next.Holds grammar base (tokens ++ [token])) ∨
    ∃ answer next, parser.pushToken token = (answer, next) ∧ answer ≠ .ok false ∧
      next.Holds grammar base tokens := by
  rcases pushToken_adds hs h.1 (h.known hbase) token with ⟨label, hresolve, hadds⟩ | ⟨error, hpush⟩
  · obtain ⟨rfl, -⟩ := id h
    generalize parser.pushToken token = outcome at hadds
    -- Only a token that is taken is added to the tokens; one that completes the parse empties the stack.
    cases hadds with
    | rejected error => exact .inr ⟨_, _, rfl, (by simp), h⟩
    | taken hcloses htakes _ =>
      have hbuilt := h.built_of_closes hcloses htakes.stack_ne_nil
      have hclosed := hbuilt.closes hs hbase (fun _ => And.right) hcloses
      exact .inl ⟨_, rfl, rfl, .inr (hclosed.takes hs hbase hresolve htakes)⟩
    | ended _ _ _ _ _ => exact .inr ⟨_, _, rfl, (by simp), rfl, .inl rfl⟩
    | stopped _ _ _ => exact .inr ⟨_, _, rfl, (by simp), rfl, .inl rfl⟩
  · exact .inr ⟨_, _, hpush, (by simp), h⟩

theorem Holds.feed (hs : grammar.Sound) (hbase : base ∈ grammar.automata) {parser : Parser} {tokens : List Token}
    (h : parser.Holds grammar base tokens) (more : List Token) :
    (parser.feed more).Holds grammar base (tokens ++ parser.taken more) := by
  induction more generalizing parser tokens with
  | nil => simpa only [Parser.feed, Parser.taken, List.foldl_nil, List.append_nil] using h
  | cons token rest ih =>
    have hfeed : parser.feed (token :: rest) = (parser.pushToken token).2.feed rest := rfl
    rcases h.pushToken hs hbase token with ⟨next, hpush, hnext⟩ | ⟨answer, next, hpush, hanswer, hnext⟩
    · have htaken : parser.taken (token :: rest) = token :: next.taken rest := by
        rw [Parser.taken, hpush]
      rw [hfeed, hpush, htaken, List.append_cons]
      exact ih hnext
    · have htaken : parser.taken (token :: rest) = next.taken rest := by
        rw [Parser.taken, hpush]
        split
        · rename_i heq
          cases heq
          exact absurd rfl hanswer
        · rename_i heq
          cases heq
          rfl
      rw [hfeed, hpush, htaken]
      exact ih hnext

theorem Holds.setup (hs : grammar.Sound) {fresh parser : Parser} {start : SymbolId} (hfresh : fresh.grammar = grammar)
    (hstart : fresh.setup start = .ok parser) :
    ∃ base, grammar.automaton? start = some base ∧ parser.Holds grammar base [] := by
  obtain ⟨base, hautomaton, rfl⟩ := exists_of_setup hstart
  rw [hfresh] at hautomaton
  exact ⟨base, hautomaton, hfresh, .inr (.start hs (Grammar.mem_of_automaton? hautomaton))⟩

/--
If a token completes a parse, it is an end marker, and the tree derives from the start symbol the tokens that were
taken before it. The end marker itself is a leaf if and only if it was expected.
-/
theorem derivation_of_complete (hg : grammar.Compiled) {fresh parser done : Parser} {start : SymbolId}
    (hfresh : fresh.grammar = grammar) (hstart : fresh.setup start = .ok parser) (before : List Token) (token : Token)
    (hdone : (parser.feed before).pushToken token = (.ok true, done)) :
    token.kind.isEndMarker = true ∧
      ∃ tree label, done.root = some tree ∧ grammar.Derivation start tree ∧
        grammar.resolve? token.kind token.text = some label ∧
        tree.leaves = parser.taken before ++ if label ∈ (parser.feed before).expected then [token] else [] := by
  have hs := hg.sound
  obtain ⟨base, hautomaton, hholds⟩ := Holds.setup hs hfresh hstart
  have hbase := Grammar.mem_of_automaton? hautomaton
  have hfed := hholds.feed hs hbase before
  rw [List.nil_append] at hfed
  generalize parser.feed before = fed at hdone hfed
  generalize parser.taken before = tokens at hfed
  rcases fed.pushToken_cases token with ⟨label, hresolve, hpush⟩ | ⟨error, hpush⟩
  · obtain ⟨rfl, -⟩ := id hfed
    have hadds := addToken_adds token.kind hs (hfed.known hbase) token label
    rw [← hpush, hdone] at hadds
    cases hadds with
    | @ended stack next root hcloses htakes hkind hroot hends =>
      -- An arc consumes the end marker, so it was expected and is the last leaf.
      have hbuilt := hfed.built_of_closes hcloses htakes.stack_ne_nil
      have hclosed := hbuilt.closes hs hbase (fun _ => And.right) hcloses
      have htaken := hclosed.takes hs hbase hresolve htakes
      have hlast := htaken.closes hs hbase (fun _ => id) hends
      obtain ⟨hderivation, hleaves⟩ := hlast.derivation hs hautomaton hroot
      refine ⟨hkind, root.node, label, rfl, hderivation, hresolve, ?_⟩
      rw [if_pos (hcloses.mem_expected htakes), hleaves]
    | @stopped root hkind hroot hcloses =>
      -- No frame can consume the end marker, and the tree is that of the tokens before it.
      have hbuilt := hfed.built_of_closes hcloses (List.cons_ne_nil _ _)
      have hlast := hbuilt.closes hs hbase (fun _ => And.right) hcloses
      obtain ⟨hderivation, hleaves⟩ := hlast.derivation hs hautomaton hroot.2
      have hexpected : label ∉ fed.expected := by
        rw [mem_expected_iff, hcloses.search_eq_stuck hroot]
        simp
      refine ⟨hkind, root.node, label, rfl, hderivation, hresolve, ?_⟩
      rw [if_neg hexpected, hleaves, List.append_nil]
  · cases hpush.symm.trans hdone

/-- The tokens of `acb`. -/
def nestedTokens : List Token := [⟨.name, "a", .empty 0⟩, ⟨.name, "c", .empty 1⟩, ⟨.name, "b", .empty 2⟩]

theorem derivation_of_complete_nested :
    ∃ tree, ((nested.feed nestedTokens).pushToken (.endMarker 3)).2.root = some tree ∧
      Grammar.nested.Derivation (.ofIndex 0) tree ∧ tree.leaves = nestedTokens := by
  have hanswer : ((nested.feed nestedTokens).pushToken (.endMarker 3)).1 = .ok true := by cbv
  have htaken : nested.taken nestedTokens = nestedTokens := by cbv
  have hexpected : (nested.feed nestedTokens).expected = [] := by cbv
  obtain ⟨-, tree, label, hroot, hderivation, -, hleaves⟩ :=
    derivation_of_complete (.ofTable .nested Table.ofTable_nested) rfl setup_nested nestedTokens (.endMarker 3)
      (Prod.ext hanswer rfl)
  rw [htaken, hexpected, if_neg List.not_mem_nil, List.append_nil] at hleaves
  exact ⟨tree, hroot, hderivation, hleaves⟩

end Parser

end Pushdown
