import Pushdown.Parser.Run
import Pushdown.Proofs.Grammar.Compiled
import Pushdown.Proofs.Parser.Step
import Pushdown.Proofs.Tree.Derivation

/-! The parser finds the derivation tree that takes as many tokens as it can, wherever there is one. -/

namespace Pushdown

namespace Parser

variable {grammar : Grammar}

/-- The tokens are taken one after another. -/
inductive Steps (grammar : Grammar) :
    (stack : List Frame) → (tokens : List Token) → (last : List Frame) → Prop where
  | nil (stack : List Frame) : Steps grammar stack [] stack
  | cons {stack closed next last : List Frame} {token : Token} {rest : List Token} {label : Label}
    (hresolve : grammar.resolve? token.kind token.text = some label)
    (hcloses : Closes (Passes label) stack closed) (htakes : Takes grammar token label closed next)
    (h : Steps grammar next rest last) : Steps grammar stack (token :: rest) last

theorem Steps.append {stack middle last : List Frame} {a b : List Token} (h : Steps grammar stack a middle)
    (h' : Steps grammar middle b last) : Steps grammar stack (a ++ b) last := by
  induction h with
  | nil => exact h'
  | cons hresolve hcloses htakes _ ih => exact .cons hresolve hcloses htakes (ih h')

theorem Steps.split {stack last : List Frame} {a b : List Token} (h : Steps grammar stack (a ++ b) last) :
    ∃ middle, Steps grammar stack a middle ∧ Steps grammar middle b last := by
  induction a generalizing stack with
  | nil => exact ⟨stack, .nil stack, h⟩
  | cons token rest ih =>
    cases h with
    | cons hresolve hcloses htakes h =>
      obtain ⟨middle, hrest, hlast⟩ := ih h
      exact ⟨middle, .cons hresolve hcloses htakes hrest, hlast⟩

/-- A nonterminal may end in the state, which cannot consume the first of the tokens. -/
def Ends (grammar : Grammar) (tokens : List Token) (state : State) : Prop :=
  state.accepting = true ∧ ∀ token ∈ tokens.head?, ∀ label,
    grammar.resolve? token.kind token.text = some label → state.arcFor? label = none

theorem Ends.passes {tokens : List Token} {state : State} (h : Ends grammar tokens state) {token : Token}
    (htoken : token ∈ tokens.head?) {label : Label}
    (hresolve : grammar.resolve? token.kind token.text = some label) : Passes label state :=
  ⟨h.2 token htoken label hresolve, h.1⟩

/-- Whatever the first of the tokens does to `target`, it does to `stack` once frames have been closed. -/
def Leads (grammar : Grammar) (tokens : List Token) (stack target : List Frame) : Prop :=
  ∀ token ∈ tokens.head?, ∀ label, grammar.resolve? token.kind token.text = some label →
    ∀ next, Takes grammar token label target next →
      ∃ closed, Closes (Passes label) stack closed ∧ Takes grammar token label closed next

theorem Leads.refl (tokens : List Token) (stack : List Frame) : Leads grammar tokens stack stack :=
  fun _ _ _ _ _ htakes => ⟨stack, .refl stack, htakes⟩

theorem Leads.left {a b : List Token} {stack target : List Frame} (h : Leads grammar (a ++ b) stack target) :
    Leads grammar a stack target := by
  intro token htoken
  apply h token
  rw [List.head?_append, Option.mem_def.1 htoken, Option.some_or]
  exact Option.mem_some_self token

theorem Leads.of_closes {tokens following : List Token} {stack target : List Frame}
    (h : Closes (Ends grammar (tokens ++ following)) stack target) : Leads grammar tokens stack target := by
  intro token htoken label hresolve next htakes
  have hhead : token ∈ (tokens ++ following).head? := by
    cases tokens with
    | nil => cases htoken
    | cons _ _ => exact htoken
  exact ⟨target, h.imp fun _ hends => hends.passes hhead hresolve, htakes⟩

/--
The tokens of the tree are taken once a frame for its nonterminal has been opened. That frame then ends up as the
tree, but only when the next token comes are it and the frames above it closed.
-/
def Grows (grammar : Grammar) (symbol : SymbolId) (tree : Tree) : Prop :=
  ∀ automaton returnState below stack following, grammar.automaton? symbol = some automaton →
    grammar.Greedy tree following → Leads grammar tree.leaves stack (.start automaton returnState :: below) →
    ∃ last root, Steps grammar stack tree.leaves last ∧ Closes (Ends grammar following) last (root :: below) ∧
      Ends grammar following root.current ∧ root.node = tree ∧ root.returnState = returnState

theorem grow_child (hs : grammar.Sound) {frame : Frame} (hmem : frame.automaton ∈ grammar.automata) {arc : Arc}
    (harc : arc ∈ frame.current.arcs) {child : Tree} (hlabel : grammar.labelOfTree? child = some arc.label)
    (hderivation : ∀ inner, child.symbol? = some inner → grammar.Derivation inner child)
    (hgrows : ∀ inner, child.symbol? = some inner → Grows grammar inner child) {below stack : List Frame}
    {following : List Token} (hgreedy : grammar.Greedy child following)
    (hleads : Leads grammar child.leaves stack (frame :: below)) :
    ∃ last, Steps grammar stack child.leaves last ∧
      Closes (Ends grammar following) last ({ frame.add child with state := arc.target } :: below) := by
  obtain ⟨token, rest, label, hleaves, hresolve, hfind⟩ := hs.arcFor?_of_child hmem harc hlabel hderivation
  have hhead : token ∈ child.leaves.head? := by
    rw [hleaves]
    rfl
  cases child with
  | leaf token' =>
    rw [Tree.leaves_leaf] at hleaves
    cases hleaves
    have hopened := hs.opened?_of_resolve? hlabel
    obtain ⟨closed, hcloses, htakes⟩ := hleads token hhead label hresolve _ (.leaf hfind hopened)
    rw [Tree.leaves_leaf]
    exact ⟨_, .cons hresolve hcloses htakes (.nil _), .refl _⟩
  | node inner children =>
    obtain ⟨automaton, hautomaton⟩ : ∃ automaton, grammar.automaton? inner = some automaton := by
      cases hderivation inner rfl with
      | node hautomaton _ _ _ _ => exact ⟨_, hautomaton⟩
    have hopened : opened? grammar arc = some automaton := (hs.opened?_of_labelOf? hlabel).trans hautomaton
    -- The first leaf of the child opens a frame for it.
    have hstart : Leads grammar (Tree.node inner children).leaves stack
        (.start automaton arc.target :: frame :: below) := by
      intro token' htoken' label' hresolve' next htakes
      cases Option.some.inj (hhead.symm.trans htoken')
      cases hresolve.symm.trans hresolve'
      exact hleads token hhead label hresolve next (.through hfind hopened htakes)
    obtain ⟨last, root, hsteps, hcloses, hends, hnode, hreturn⟩ :=
      hgrows inner rfl automaton arc.target (frame :: below) stack following hautomaton hgreedy hstart
    refine ⟨last, hsteps, ?_⟩
    -- When that frame is closed, its node becomes the child.
    have hclose := hcloses.trans (.close hends (.refl _))
    rw [Frame.close, hnode, hreturn] at hclose
    exact hclose

theorem grow_children (hs : grammar.Sound) (frame : Frame) (hmem : frame.automaton ∈ grammar.automata)
    {children : List Tree} (hne : children ≠ []) {stop : UInt32}
    (hreads : grammar.Reads frame.automaton frame.state children stop)
    (hderivation : ∀ child ∈ children, ∀ inner, child.symbol? = some inner → grammar.Derivation inner child)
    (hgrows : ∀ child ∈ children, ∀ inner, child.symbol? = some inner → Grows grammar inner child)
    {below stack : List Frame} {following : List Token}
    (hgreedy : ∀ before child rest, children = before ++ child :: rest →
      grammar.Greedy child (rest.flatMap Tree.leaves ++ following))
    (hleads : Leads grammar (children.flatMap Tree.leaves) stack (frame :: below)) :
    ∃ last, Steps grammar stack (children.flatMap Tree.leaves) last ∧
      Closes (Ends grammar following) last
        ({ frame with state := stop, children := children.reverse ++ frame.children } :: below) := by
  induction children generalizing frame stack with
  | nil => exact absurd rfl hne
  | cons child rest ih =>
    obtain ⟨hchild, hrest⟩ := List.forall_mem_cons.1 hderivation
    obtain ⟨hchildGrows, hrestGrows⟩ := List.forall_mem_cons.1 hgrows
    rw [List.flatMap_cons] at hleads ⊢
    cases hreads with
    | @cons _ _ arc _ _ harc hlabel hreads =>
      obtain ⟨middle, hsteps, hcloses⟩ :=
        grow_child hs hmem harc hlabel hchild hchildGrows (hgreedy [] child rest rfl) hleads.left
      by_cases hempty : rest = []
      · subst hempty
        obtain rfl := hreads.eq_of_nil
        rw [List.flatMap_nil, List.append_nil]
        exact ⟨middle, hsteps, hcloses⟩
      -- What begins the next child finds the frame of this one ready to be closed.
      have hgreedyRest : ∀ before inner behind, rest = before ++ inner :: behind →
          grammar.Greedy inner (behind.flatMap Tree.leaves ++ following) := by
        rintro before inner behind rfl
        exact hgreedy (child :: before) inner behind rfl
      obtain ⟨last, hlast, hclosesLast⟩ :=
        ih { frame.add child with state := arc.target } hmem hempty hreads hrest hrestGrows hgreedyRest
          (.of_closes hcloses)
      refine ⟨last, hsteps.append hlast, ?_⟩
      rw [List.reverse_cons, List.append_assoc]
      exact hclosesLast

theorem Grows.of_derivation (hs : grammar.Sound) {symbol : SymbolId} {tree : Tree}
    (h : grammar.Derivation symbol tree) : Grows grammar symbol tree := by
  induction h with
  | @node symbol automaton children stop hautomaton hne hreads haccepting hderivation ih =>
    intro automaton' returnState below stack following hautomaton' hgreedy hleads
    cases hautomaton.symm.trans hautomaton'
    have hmem := Grammar.mem_of_automaton? hautomaton
    -- Since the node is greedy, the token behind it cannot go on from where it ends.
    have hends : Ends grammar following (automaton.state stop) := by
      refine ⟨haccepting, ?_⟩
      intro token htoken label hresolve
      obtain ⟨after, rfl⟩ : ∃ after, following = token :: after := List.head?_eq_some_iff.1 htoken
      obtain ⟨automaton'', stop', hautomaton'', hreads', hfind⟩ := hgreedy symbol children token after .self
      cases hautomaton.symm.trans hautomaton''
      rw [hreads.stop_unique hs hmem hderivation hreads']
      exact hfind label hresolve
    have hgreedyChild : ∀ before child rest, children = before ++ child :: rest →
        grammar.Greedy child (rest.flatMap Tree.leaves ++ following) := by
      rintro before child rest rfl
      exact hgreedy.child
    rw [Tree.leaves_node] at hleads ⊢
    obtain ⟨last, hsteps, hcloses⟩ :=
      grow_children hs (.start automaton returnState) hmem hne hreads hderivation ih hgreedyChild hleads
    refine ⟨last, _, hsteps, hcloses, hends, ?_, rfl⟩
    have hsymbol := hs.symbol_eq symbol automaton hautomaton
    simp [Frame.node, Frame.start, hsymbol]

theorem Takes.known {token : Token} {label : Label} {stack next : List Frame}
    (h : Takes grammar token label stack next) (hknown : Known grammar stack) : Known grammar next := by
  induction h with
  | leaf _ _ =>
    obtain ⟨htop, hbelow⟩ := List.forall_mem_cons.1 hknown
    exact List.forall_mem_cons.2 ⟨htop, hbelow⟩
  | through _ hopened _ ih => exact ih (List.forall_mem_cons.2 ⟨Grammar.mem_of_opened? hopened, hknown⟩)

theorem Steps.known {stack last : List Frame} {tokens : List Token} (h : Steps grammar stack tokens last)
    (hknown : Known grammar stack) : Known grammar last := by
  induction h with
  | nil => exact hknown
  | cons _ hcloses htakes _ ih => exact ih (htakes.known (hcloses.known hknown))

theorem pushToken_eq_addToken {parser : Parser} {token : Token} {label : Label}
    (hresolve : parser.grammar.resolve? token.kind token.text = some label) :
    parser.pushToken token = parser.addToken token.kind token label := by
  rw [pushToken, hresolve]

theorem run_of_steps (parser : Parser) (hs : parser.grammar.Sound) (hknown : Known parser.grammar parser.stack)
    {tokens : List Token} {last : List Frame} (h : Steps parser.grammar parser.stack tokens last)
    (hkind : ∀ token ∈ tokens, token.kind.isEndMarker = false) (stop : Nat) (rest : List Token) :
    ∃ stop', parser.run stop (tokens ++ rest) = ({ parser with stack := last } : Parser).run stop' rest := by
  induction tokens generalizing parser stop with
  | nil =>
    cases h
    exact ⟨stop, rfl⟩
  | cons token tokens ih =>
    obtain ⟨htoken, htokens⟩ := List.forall_mem_cons.1 hkind
    cases h with
    | @cons _ closed next _ _ _ label hresolve hcloses htakes h =>
      -- A token that is not an end marker never completes a parse.
      have hpush : parser.pushToken token = (.ok false, { parser with stack := next }) := by
        rw [pushToken_eq_addToken hresolve, addToken_of_takes token.kind hs hknown hcloses htakes, htoken]
        rfl
      have hnext := htakes.known (hcloses.known hknown)
      obtain ⟨stop', hrun⟩ := ih { parser with stack := next } hs hnext h htokens token.span.stop
      exact ⟨stop', by rw [List.cons_append, run, hpush]; exact hrun⟩

theorem run_of_complete {parser : Parser} {token : Token} {root : Frame}
    (hpush : parser.pushToken token = (.ok true, parser.completed root)) (stop : Nat) (rest : List Token) :
    parser.run stop (token :: rest) = ⟨.ok root.node, rest⟩ := by
  rw [run, hpush]
  rfl

theorem pushToken_of_taken_end (parser : Parser) (hs : parser.grammar.Sound)
    (hknown : Known parser.grammar parser.stack) {token : Token} (hkind : token.kind.isEndMarker = true)
    {last : List Frame} (h : Steps parser.grammar parser.stack [token] last) {root : Frame}
    (hroot : Ends parser.grammar [] root.current) (hcloses : Closes (Ends parser.grammar []) last [root]) :
    parser.pushToken token = (.ok true, parser.completed root) := by
  cases h with
  | cons hresolve hcloses' htakes h =>
    cases h
    have haccepting := (hcloses.imp fun _ hends => hends.1).allAccepting_eq hroot.1
    have hfinish := finish_eq_completed { parser with stack := last } hcloses
    rw [pushToken_eq_addToken hresolve, addToken_of_takes token.kind hs hknown hcloses' htakes, hkind, haccepting,
      Bool.and_self, if_pos rfl, hfinish]
    rfl

theorem exists_resolve_endMarker (grammar : Grammar) {token : Token} (h : token.kind.isEndMarker = true) :
    ∃ label, grammar.resolve? token.kind token.text = some label := by
  unfold Grammar.resolve?
  rw [if_pos h]
  cases grammar.labelOf? (.token token.kind (some token.text)) with
  | some label => exact ⟨label, rfl⟩
  | none =>
    cases grammar.labelOf? (.token token.kind none) with
    | some label => exact ⟨label, rfl⟩
    | none => exact ⟨.implicitEnd, rfl⟩

theorem pushToken_of_untaken_end (parser : Parser) {token : Token} (hkind : token.kind.isEndMarker = true)
    {root : Frame} (hroot : Ends parser.grammar [token] root.current)
    (hcloses : Closes (Ends parser.grammar [token]) parser.stack [root]) :
    parser.pushToken token = (.ok true, parser.completed root) := by
  -- An end marker resolves to some label, for which no frame that may end has an arc.
  obtain ⟨label, hresolve⟩ := exists_resolve_endMarker parser.grammar hkind
  have hpasses := hroot.passes rfl hresolve
  have hclosesPassing : Closes (Passes label) parser.stack [root] :=
    hcloses.imp fun _ hends => hends.passes rfl hresolve
  have hne : parser.stack ≠ [] := by
    intro hempty
    rw [hempty] at hcloses
    cases hcloses
  rw [pushToken_eq_addToken hresolve,
    addToken_of_search_eq_stuck token.kind hne (hclosesPassing.search_eq_stuck hpasses), hkind, Bool.and_self,
    if_pos rfl, finish_eq_completed parser hcloses]

/-- A parser in which a frame for the start symbol has been opened. -/
def opening (grammar : Grammar) (automaton : Automaton) : Parser := ⟨grammar, [.start automaton 0], none⟩

end Parser

theorem Grammar.parseTokens_eq_run {grammar : Grammar} {start : SymbolId} {automaton : Automaton}
    (h : grammar.automaton? start = some automaton) (tokens : List Token) :
    grammar.parseTokens start tokens = .ok ((Parser.opening grammar automaton).run 0 tokens) := by
  rw [parseTokens, Parser.setup, Parser.new, h]
  rfl

/-- A derivation tree of an input, with or without the end marker, in which every node takes all that it can. -/
def Grammar.LongestMatch (grammar : Grammar) (start : SymbolId) (input : List Token) (last : Token) (tree : Tree) :
    Prop :=
  grammar.Derivation start tree ∧
    (tree.leaves = input ∧ grammar.Greedy tree [last] ∨ tree.leaves = input ++ [last] ∧ grammar.Greedy tree [])

theorem Grammar.LongestMatch.parseTokens_eq {grammar : Grammar} (hs : grammar.Sound) {start : SymbolId}
    {input : List Token} (hinput : ∀ token ∈ input, token.kind.isEndMarker = false) {last : Token}
    (hlast : last.kind.isEndMarker = true) {tree : Tree} (h : grammar.LongestMatch start input last tree)
    (rest : List Token) : grammar.parseTokens start (input ++ last :: rest) = .ok ⟨.ok tree, rest⟩ := by
  obtain ⟨hderivation, hcases⟩ := h
  obtain ⟨automaton, hautomaton⟩ : ∃ automaton, grammar.automaton? start = some automaton := by
    cases hderivation with
    | node hautomaton _ _ _ _ => exact ⟨_, hautomaton⟩
  have hknown : Parser.Known grammar (Parser.opening grammar automaton).stack :=
    List.forall_mem_singleton.2 (Grammar.mem_of_automaton? hautomaton)
  have hgrows := Parser.Grows.of_derivation hs hderivation automaton 0 [] (Parser.opening grammar automaton).stack
  rw [parseTokens_eq_run hautomaton]
  -- Either no arc consumes the end marker, or the last arc does.
  rcases hcases with ⟨rfl, hgreedy⟩ | ⟨hleaves, hgreedy⟩
  · obtain ⟨stack, root, hsteps, hcloses, hroot, rfl, -⟩ :=
      hgrows [last] hautomaton hgreedy (.refl _ _)
    obtain ⟨stop, hrun⟩ :=
      Parser.run_of_steps (.opening grammar automaton) hs hknown hsteps hinput 0 (last :: rest)
    have hpush := Parser.pushToken_of_untaken_end { Parser.opening grammar automaton with stack } hlast hroot hcloses
    rw [hrun, Parser.run_of_complete hpush]
  · obtain ⟨stack, root, hsteps, hcloses, hroot, rfl, -⟩ := hgrows [] hautomaton hgreedy (.refl _ _)
    rw [hleaves] at hsteps
    obtain ⟨middle, hbefore, hend⟩ := hsteps.split
    obtain ⟨stop, hrun⟩ :=
      Parser.run_of_steps (.opening grammar automaton) hs hknown hbefore hinput 0 (last :: rest)
    have hpush := Parser.pushToken_of_taken_end { Parser.opening grammar automaton with stack := middle } hs
      (hbefore.known hknown) hlast hend hroot hcloses
    rw [hrun, Parser.run_of_complete hpush]

/--
If an input has a derivation tree in which every node takes all that it can, parsing finds this tree and reads no
further than the first end marker. So there is at most one such tree.
-/
theorem Grammar.parseTokens_of_longestMatch {grammar : Grammar} (hg : grammar.Compiled) (start : SymbolId)
    (input : List Token) (hinput : ∀ token ∈ input, token.kind.isEndMarker = false) (last : Token)
    (hlast : last.kind.isEndMarker = true) :
    (∀ tree, grammar.LongestMatch start input last tree →
      ∀ rest, grammar.parseTokens start (input ++ last :: rest) = .ok ⟨.ok tree, rest⟩) ∧
    ∀ tree tree', grammar.LongestMatch start input last tree → grammar.LongestMatch start input last tree' →
      tree = tree' := by
  have hs := hg.sound
  refine ⟨fun tree h rest => h.parseTokens_eq hs hinput hlast rest, ?_⟩
  intro tree tree' h h'
  have hparse := h.parseTokens_eq hs hinput hlast []
  have hparse' := h'.parseTokens_eq hs hinput hlast []
  cases hparse.symm.trans hparse'
  rfl

/-- The tree of `acb`. -/
def Tree.nested : Tree :=
  .node (.ofIndex 0) [.leaf ⟨.name, "a", .empty 0⟩, .node (.ofIndex 0) [.leaf ⟨.name, "c", .empty 1⟩],
    .leaf ⟨.name, "b", .empty 2⟩]

theorem Tree.longestMatch_nested :
    Grammar.nested.LongestMatch (.ofIndex 0) nested.leaves (.endMarker 3) nested := by
  have hautomaton : Grammar.nested.automaton? (.ofIndex 0) = some .nested := rfl
  have ha : (⟨⟨0⟩, 1⟩ : Arc) ∈ (Automaton.nested.state 0).arcs := by decide
  have hc : (⟨⟨2⟩, 3⟩ : Arc) ∈ (Automaton.nested.state 0).arcs := by decide
  have hs : (⟨⟨3⟩, 2⟩ : Arc) ∈ (Automaton.nested.state 1).arcs := by decide
  have hb : (⟨⟨1⟩, 3⟩ : Arc) ∈ (Automaton.nested.state 2).arcs := by decide
  have hinner : Grammar.nested.Reads .nested 0 [.leaf ⟨.name, "c", .empty 1⟩] 3 :=
    .cons hc (by cbv) (.nil 3)
  have houter : Grammar.nested.Reads .nested 0 nested.children 3 :=
    .cons ha (by cbv) (.cons hs (by cbv) (.cons hb (by cbv) (.nil 3)))
  refine ⟨.node hautomaton (List.cons_ne_nil _ _) houter rfl ?_, .inl ⟨rfl, ?_⟩⟩
  · have hderivation :
        Grammar.nested.Derivation (.ofIndex 0) (.node (.ofIndex 0) [.leaf ⟨.name, "c", .empty 1⟩]) :=
      .node hautomaton (List.cons_ne_nil _ _) hinner rfl (by simp [Tree.symbol?])
    simpa [Tree.symbol?] using hderivation
  · -- Nothing leaves state 3, in which both nodes end.
    refine .node (fun _ _ => ⟨.nested, 3, hautomaton, houter, fun _ _ => rfl⟩) ?_
    intro before child rest hchildren
    rcases before with _ | ⟨_, _ | ⟨_, _ | ⟨_, before⟩⟩⟩
    · cases hchildren
      exact .leaf _ _
    · cases hchildren
      refine .node (fun _ _ => ⟨.nested, 3, hautomaton, hinner, fun _ _ => rfl⟩) ?_
      intro before child rest hchildren
      rcases before with _ | ⟨_, before⟩
      · cases hchildren
        exact .leaf _ _
      · simp at hchildren
    · cases hchildren
      exact .leaf _ _
    · simp at hchildren

theorem Grammar.parseTokens_of_longestMatch_nested :
    Grammar.nested.parseTokens (.ofIndex 0) (Tree.nested.leaves ++ [.endMarker 3]) = .ok ⟨.ok .nested, []⟩ := by
  have hinput : ∀ token ∈ Tree.nested.leaves, token.kind.isEndMarker = false := by
    simp [Tree.nested, TokenKind.isEndMarker, TokenKind.name, TokenKind.endMarker]
  exact (parseTokens_of_longestMatch (.ofTable .nested Table.ofTable_nested) (.ofIndex 0) Tree.nested.leaves hinput
    (.endMarker 3) rfl).1 .nested Tree.longestMatch_nested []

end Pushdown
