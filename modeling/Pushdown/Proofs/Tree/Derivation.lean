import Pushdown.Proofs.Grammar.Sound
import Pushdown.Tree.Traversal

/-! Derivation trees of a grammar, and those of them that take as many tokens as they can. -/

namespace Pushdown

namespace Tree

theorem leavesFrom_append_found (found before : List Token) (trees : List Tree) :
    leavesFrom (found ++ before) trees = before.reverse ++ leavesFrom found trees := by
  fun_induction leavesFrom found trees with
  | case1 found => rw [leavesFrom, List.reverse_append]
  | case2 found token pending ih => rw [leavesFrom, ← List.cons_append, ih]
  | case3 found symbol children pending ih => rw [leavesFrom, ih]

theorem leavesFrom_append (found : List Token) (a b : List Tree) :
    leavesFrom found (a ++ b) = leavesFrom found a ++ leavesFrom [] b := by
  fun_induction leavesFrom found a with
  | case1 found => exact leavesFrom_append_found [] found b
  | case2 found token pending ih => rw [List.cons_append, leavesFrom, ih]
  | case3 found symbol children pending ih =>
    rw [List.cons_append, leavesFrom, ← List.append_assoc, ih]

theorem leavesFrom_nil_eq (trees : List Tree) : leavesFrom [] trees = trees.flatMap leaves := by
  induction trees with
  | nil => rw [leavesFrom, List.flatMap_nil, List.reverse_nil]
  | cons tree rest ih =>
    have happend := leavesFrom_append [] [tree] rest
    rw [List.singleton_append] at happend
    rw [happend, ih, List.flatMap_cons, leaves]

@[simp] theorem leaves_leaf (token : Token) : (leaf token).leaves = [token] := by
  rw [leaves, leavesFrom, leavesFrom, List.reverse_singleton]

@[simp] theorem leaves_node (symbol : SymbolId) (children : List Tree) :
    (node symbol children).leaves = children.flatMap leaves := by
  rw [leaves, leavesFrom, List.append_nil, leavesFrom_nil_eq]

/-- `inner` stands in `tree`, and `after` are the tokens behind it if `following` are those behind the tree. -/
inductive Contains (tree : Tree) (following : List Token) : (inner : Tree) → (after : List Token) → Prop where
  | self : Contains tree following tree following
  | child {symbol : SymbolId} {before rest : List Tree} {inner : Tree} {after : List Token}
    (h : Contains tree following (.node symbol (before ++ inner :: rest)) after) :
    Contains tree following inner (rest.flatMap leaves ++ after)

theorem Contains.trans {tree middle inner : Tree} {following behind after : List Token}
    (h : Contains tree following middle behind) (h' : Contains middle behind inner after) :
    Contains tree following inner after := by
  induction h' with
  | self => exact h
  | child _ ih => exact ih.child

theorem Contains.cases_head {tree inner : Tree} {following after : List Token}
    (h : Contains tree following inner after) :
    (inner = tree ∧ after = following) ∨
    ∃ symbol before child rest, tree = .node symbol (before ++ child :: rest) ∧
      Contains child (rest.flatMap leaves ++ following) inner after := by
  induction h with
  | self => exact .inl ⟨rfl, rfl⟩
  | @child symbol before rest inner after _ ih =>
    rcases ih with ⟨rfl, rfl⟩ | ⟨symbol', before', child, rest', rfl, hcontains⟩
    · exact .inr ⟨symbol, before, inner, rest, rfl, .self⟩
    · exact .inr ⟨symbol', before', child, rest', rfl, hcontains.child⟩

/-- The leaves of what stands in a tree stand one after another among those of the tree. -/
theorem Contains.leaves_eq {tree inner : Tree} {following after : List Token}
    (h : Contains tree following inner after) :
    ∃ before, tree.leaves ++ following = before ++ (inner.leaves ++ after) := by
  induction h with
  | self => exact ⟨[], rfl⟩
  | @child symbol earlier rest inner after _ ih =>
    obtain ⟨before, hbefore⟩ := ih
    refine ⟨before ++ earlier.flatMap leaves, ?_⟩
    rw [hbefore, leaves_node]
    simp only [List.flatMap_append, List.flatMap_cons, List.append_assoc]

end Tree

namespace Grammar

variable (grammar : Grammar)

/-- The label under which a tree is a child: that of its token, or the one that stands for its nonterminal. -/
def labelOfTree? : Tree → Option Label
  | .leaf token => grammar.resolve? token.kind token.text
  | .node symbol _ => grammar.labelOf? (.symbol symbol)

/-- The labels of the trees lead from one state of an automaton to another. -/
inductive Reads (automaton : Automaton) : UInt32 → List Tree → UInt32 → Prop where
  | nil (state : UInt32) : Reads automaton state [] state
  | cons {state stop : UInt32} {arc : Arc} {tree : Tree} {trees : List Tree}
    (harc : arc ∈ (automaton.state state).arcs) (hlabel : grammar.labelOfTree? tree = some arc.label)
    (h : Reads automaton arc.target trees stop) : Reads automaton state (tree :: trees) stop

/-- A tree that derives its leaves from a nonterminal. -/
inductive Derivation : SymbolId → Tree → Prop where
  | node {symbol : SymbolId} {automaton : Automaton} {children : List Tree} {stop : UInt32}
    (hautomaton : grammar.automaton? symbol = some automaton) (hne : children ≠ [])
    (hreads : grammar.Reads automaton 0 children stop)
    (haccepting : (automaton.state stop).accepting = true)
    (hchildren : ∀ child ∈ children, ∀ inner, child.symbol? = some inner → Derivation inner child) :
    Derivation symbol (.node symbol children)

/-- No node of the tree ends in a state that can consume the token behind it. -/
def Greedy (tree : Tree) (following : List Token) : Prop :=
  ∀ symbol children token after, tree.Contains following (.node symbol children) (token :: after) →
    ∃ automaton stop, grammar.automaton? symbol = some automaton ∧ grammar.Reads automaton 0 children stop ∧
      ∀ label, grammar.resolve? token.kind token.text = some label → (automaton.state stop).arcFor? label = none

variable {grammar}

theorem Reads.eq_of_nil {automaton : Automaton} {start stop : UInt32} (h : grammar.Reads automaton start [] stop) :
    start = stop := by
  cases h
  rfl

theorem Reads.append {automaton : Automaton} {start middle stop : UInt32} {before after : List Tree}
    (h : grammar.Reads automaton start before middle) (h' : grammar.Reads automaton middle after stop) :
    grammar.Reads automaton start (before ++ after) stop := by
  induction h with
  | nil => exact h'
  | cons harc hlabel _ ih => exact .cons harc hlabel (ih h')

theorem Reads.exists_arc {automaton : Automaton} {first stop : UInt32} {before rest : List Tree} {child : Tree}
    (h : grammar.Reads automaton first (before ++ child :: rest) stop) :
    ∃ (state : UInt32) (arc : Arc), arc ∈ (automaton.state state).arcs ∧
      grammar.labelOfTree? child = some arc.label ∧ grammar.Reads automaton arc.target rest stop := by
  induction before generalizing first with
  | nil =>
    cases h with
    | cons harc hlabel h => exact ⟨first, _, harc, hlabel, h⟩
  | cons tree before ih =>
    cases h with
    | cons _ _ h => exact ih h

theorem Derivation.symbol?_eq {symbol : SymbolId} {tree : Tree} (h : grammar.Derivation symbol tree) :
    tree.symbol? = some symbol := by
  cases h
  rfl

/-- Every node that stands in a derivation tree is one itself. -/
theorem Derivation.of_contains {symbol : SymbolId} {tree inner : Tree} {following after : List Token}
    (h : grammar.Derivation symbol tree) (hcontains : tree.Contains following inner after) :
    ∀ symbol', inner.symbol? = some symbol' → grammar.Derivation symbol' inner := by
  induction hcontains with
  | self =>
    intro symbol' hsymbol
    have heq := h.symbol?_eq.symm.trans hsymbol
    exact Option.some.inj heq ▸ h
  | child _ ih =>
    cases ih _ rfl with
    | node _ _ _ _ hchildren => exact hchildren _ (by simp)

theorem Greedy.leaf (token : Token) (following : List Token) : grammar.Greedy (.leaf token) following := by
  intro symbol children token' after hcontains
  rcases hcontains.cases_head with ⟨hnode, -⟩ | ⟨symbol', before, child, rest, hnode, -⟩
  · cases hnode
  · cases hnode

theorem Greedy.node {symbol : SymbolId} {children : List Tree} {following : List Token}
    (hself : ∀ token ∈ following.head?, ∃ automaton stop, grammar.automaton? symbol = some automaton ∧
      grammar.Reads automaton 0 children stop ∧
      ∀ label, grammar.resolve? token.kind token.text = some label → (automaton.state stop).arcFor? label = none)
    (hchildren : ∀ before child rest, children = before ++ child :: rest →
      grammar.Greedy child (rest.flatMap Tree.leaves ++ following)) :
    grammar.Greedy (.node symbol children) following := by
  intro symbol' children' token after hcontains
  rcases hcontains.cases_head with ⟨hnode, rfl⟩ | ⟨symbol'', before, child, rest, hnode, hinner⟩
  · cases hnode
    exact hself token rfl
  · cases hnode
    exact hchildren before child rest rfl symbol' children' token after hinner

theorem Greedy.child {symbol : SymbolId} {before rest : List Tree} {inner : Tree} {following : List Token}
    (h : grammar.Greedy (.node symbol (before ++ inner :: rest)) following) :
    grammar.Greedy inner (rest.flatMap Tree.leaves ++ following) := by
  intro symbol' children token after hcontains
  exact h symbol' children token after (Tree.Contains.self.child.trans hcontains)

/-- The first leaf of the tree has a label that can begin the nonterminal. -/
def Begun (grammar : Grammar) (symbol : SymbolId) (tree : Tree) : Prop :=
  ∃ automaton token rest label, grammar.automaton? symbol = some automaton ∧ tree.leaves = token :: rest ∧
    grammar.resolve? token.kind token.text = some label ∧ label ∈ automaton.first

theorem Sound.consumes_of_begun (hs : grammar.Sound) {arc : Arc} {child : Tree}
    (hlabel : grammar.labelOfTree? child = some arc.label)
    (hchild : ∀ inner, child.symbol? = some inner → grammar.Begun inner child) :
    ∃ token rest label, child.leaves = token :: rest ∧ grammar.resolve? token.kind token.text = some label ∧
      grammar.Consumes arc label := by
  cases child with
  | leaf token =>
    have hresolve : grammar.resolve? token.kind token.text = some arc.label := hlabel
    have hnone := hs.opened?_of_resolve? hresolve
    refine ⟨token, [], arc.label, Tree.leaves_leaf token, hresolve, ?_⟩
    rw [Consumes, hnone]
  | node inner grandchildren =>
    obtain ⟨automaton, token, rest, label, hautomaton, hleaves, hresolve, hfirst⟩ := hchild inner rfl
    -- The arc leads to the automaton of the child, whose first set holds the label.
    have hopened : Parser.opened? grammar arc = some automaton :=
      (hs.opened?_of_labelOf? hlabel).trans hautomaton
    refine ⟨token, rest, label, hleaves, hresolve, ?_⟩
    rw [Consumes, hopened]
    exact hfirst

theorem Derivation.begun (hs : grammar.Sound) {symbol : SymbolId} {tree : Tree}
    (h : grammar.Derivation symbol tree) : grammar.Begun symbol tree := by
  induction h with
  | @node symbol automaton children stop hautomaton hne hreads _ _ ih =>
    cases hreads with
    | nil => exact absurd rfl hne
    | @cons _ _ arc child trees harc hlabel _ =>
      obtain ⟨token, rest, label, hleaves, hresolve, hconsumes⟩ :=
        hs.consumes_of_begun hlabel (ih child List.mem_cons_self)
      have hfirst : label ∈ automaton.first :=
        (hs.first_iff automaton (mem_of_automaton? hautomaton) label).2 ⟨arc, harc, hconsumes⟩
      refine ⟨automaton, token, rest ++ trees.flatMap Tree.leaves, label, hautomaton, ?_, hresolve, hfirst⟩
      rw [Tree.leaves_node, List.flatMap_cons, hleaves, List.cons_append]

theorem Derivation.leaves_ne_nil (hs : grammar.Sound) {symbol : SymbolId} {tree : Tree}
    (h : grammar.Derivation symbol tree) : tree.leaves ≠ [] := by
  obtain ⟨-, token, rest, -, -, hleaves, -⟩ := h.begun hs
  rw [hleaves]
  exact List.cons_ne_nil token rest

/-- The arc along which a tree is read is the one that its state finds for the first leaf. -/
theorem Sound.arcFor?_of_child (hs : grammar.Sound) {automaton : Automaton} (hmem : automaton ∈ grammar.automata)
    {state : UInt32} {arc : Arc} (harc : arc ∈ (automaton.state state).arcs) {child : Tree}
    (hlabel : grammar.labelOfTree? child = some arc.label)
    (hchild : ∀ inner, child.symbol? = some inner → grammar.Derivation inner child) :
    ∃ token rest label, child.leaves = token :: rest ∧ grammar.resolve? token.kind token.text = some label ∧
      (automaton.state state).arcFor? label = some arc := by
  obtain ⟨token, rest, label, hleaves, hresolve, hconsumes⟩ :=
    hs.consumes_of_begun hlabel fun inner hinner => (hchild inner hinner).begun hs
  have hfind := (hs.arcFor?_iff automaton hmem state label arc).2 ⟨harc, hconsumes⟩
  exact ⟨token, rest, label, hleaves, hresolve, hfind⟩

theorem Reads.stop_unique (hs : grammar.Sound) {automaton : Automaton} (hmem : automaton ∈ grammar.automata)
    {start stop stop' : UInt32} {children : List Tree}
    (hchildren : ∀ child ∈ children, ∀ inner, child.symbol? = some inner → grammar.Derivation inner child)
    (h : grammar.Reads automaton start children stop) (h' : grammar.Reads automaton start children stop') :
    stop = stop' := by
  induction h with
  | nil =>
    cases h' with
    | nil => rfl
  | @cons state stop arc child rest harc hlabel _ ih =>
    cases h' with
    | @cons _ _ arc' _ _ harc' hlabel' hrest' =>
      -- Both arcs consume the first leaf of the child, and a state has one arc for its label.
      obtain ⟨hchild, hrest⟩ := List.forall_mem_cons.1 hchildren
      obtain ⟨token, _, label, hleaves, hresolve, hfind⟩ := hs.arcFor?_of_child hmem harc hlabel hchild
      obtain ⟨token', _, label', hleaves', hresolve', hfind'⟩ := hs.arcFor?_of_child hmem harc' hlabel' hchild
      cases hleaves.symm.trans hleaves'
      cases hresolve.symm.trans hresolve'
      cases hfind.symm.trans hfind'
      exact ih hrest hrest'

end Grammar

end Pushdown
