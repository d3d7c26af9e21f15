import Pushdown.Proofs.Lexer.Coverage
import Pushdown.Proofs.Parser.Progress
import Pushdown.Proofs.Tree.Span

/-! The places of the trees that are parsed from a source. -/

namespace Pushdown

namespace Grammar

/-- The node extends over the stretch of the source from its first leaf to its last, and around its children. -/
structure Spans (source : String) (node : Tree) (span : Span) : Prop where
  first : ∃ token, node.leaves.head? = some token ∧ span.start = token.span.start
  last : ∃ token, node.leaves.getLast? = some token ∧ span.stop = token.span.stop
  contains : ∀ child ∈ node.children, ∃ inner,
    child.span? = some inner ∧ span.start ≤ inner.start ∧ inner.stop ≤ span.stop
  ordered : node.children.Pairwise fun a b => ∀ left ∈ a.span?, ∀ right ∈ b.span?, left.stop ≤ right.start
  /-- What the leaves leave out of the stretch are blanks and comments. -/
  gaps : ∀ stretch ∈ Lexer.stretches span.start span.stop node.leaves, Lexer.Gap source stretch

variable {grammar : Grammar}

/-- A tree that has been parsed is a derivation, and its leaves are the first tokens in their order. -/
theorem derivation_of_parseTokens (hs : grammar.Sound) {start : SymbolId} {tokens unread : List Token} {tree : Tree}
    (hparse : grammar.parseTokens start tokens = .ok ⟨.ok tree, unread⟩) :
    grammar.Derivation start tree ∧ tree.leaves <+: tokens := by
  cases hstart : (Parser.new grammar).setup start with
  | error undefined =>
    rw [parseTokens, hstart] at hparse
    cases hparse
  | ok parser =>
    rw [parseTokens_of_setup hstart] at hparse
    obtain ⟨base, hautomaton, hholds⟩ := Parser.Holds.setup hs rfl hstart
    have hbase := mem_of_automaton? hautomaton
    obtain ⟨root, leaves, rfl, haccepting, hbuilt, hprefix⟩ :=
      hholds.built_of_run hs hbase (.setup hstart) (Except.ok.inj hparse)
    obtain ⟨hderivation, rfl⟩ := hbuilt.derivation hs hautomaton haccepting
    exact ⟨hderivation, hprefix⟩

theorem Derivation.leaves_ne_nil_of_child (hs : grammar.Sound) {symbol : SymbolId} {children : List Tree}
    (h : grammar.Derivation symbol (.node symbol children)) {child : Tree} (hchild : child ∈ children) :
    child.leaves ≠ [] := by
  cases child with
  | leaf token => simp
  | node inner grandchildren =>
    cases h with
    | node _ _ _ _ hchildren => exact (hchildren _ hchild inner rfl).leaves_ne_nil hs

/-- A derivation tree over tokens of a source extends from its first leaf to its last, and around its children. -/
theorem Derivation.exists_spans (hs : grammar.Sound) {source : String} (hsize : source.utf8ByteSize < 2 ^ 32)
    {symbol : SymbolId} {children : List Tree} (h : grammar.Derivation symbol (.node symbol children))
    {before after : List Token} (hlex : lex source = before ++ ((Tree.node symbol children).leaves ++ after)) :
    ∃ span, (Tree.node symbol children).span? = some span ∧ Spans source (.node symbol children) span := by
  -- The tokens of a source are in order, so those of the node are.
  have horder : InOrder (Tree.node symbol children).leaves := by
    have hall := (Lexer.scanned_lex hsize).pairwise
    rw [hlex] at hall
    exact (List.pairwise_append.1 (List.pairwise_append.1 hall).2.1).1
  have hchildren : ∀ child ∈ children, child.leaves ≠ [] := fun _ => h.leaves_ne_nil_of_child hs
  obtain ⟨first, last, span, hfirst, hlast, hspan, hstart, hstop⟩ := Tree.exists_span (h.leaves_ne_nil hs) horder
  refine ⟨span, hspan, ⟨first, hfirst, hstart⟩, ⟨last, hlast, hstop⟩, ?_, ?_, ?_⟩
  · exact fun child hchild => Tree.exists_span_of_child horder hspan hchild (hchildren child hchild)
  · exact Tree.pairwise_children horder hchildren
  · rw [hstart, hstop]
    exact fun stretch hstretch => Lexer.gap_of_infix hsize hlex hfirst hlast hstretch

/-- Every node of a tree that is parsed from a source has a place in the source, and these places nest. -/
theorem parseSource_spans_nest (hg : grammar.Compiled) {start : SymbolId} {source : String}
    (hsize : source.utf8ByteSize < 2 ^ 32) {tree : Tree} {unread : List Token}
    (hparse : grammar.parseSource start source = .ok ⟨.ok tree, unread⟩) {symbol : SymbolId} {children : List Tree}
    {after : List Token} (hnode : tree.Contains [] (.node symbol children) after) :
    ∃ span, (Tree.node symbol children).span? = some span ∧ Spans source (.node symbol children) span := by
  have hs := hg.sound
  obtain ⟨hderivation, rest, hprefix⟩ := derivation_of_parseTokens hs hparse
  obtain ⟨before, hleaves⟩ := hnode.leaves_eq
  apply (hderivation.of_contains hnode symbol rfl).exists_spans hs hsize
  calc lex source
      = tree.leaves ++ [] ++ rest := by rw [List.append_nil, hprefix]
    _ = before ++ ((Tree.node symbol children).leaves ++ after) ++ rest := by rw [hleaves]
    _ = before ++ ((Tree.node symbol children).leaves ++ (after ++ rest)) := by simp only [List.append_assoc]

/-- The tree of `a c b`, with a comment and a line end behind the `a`. -/
theorem parseSource_spans_nest_commented :
    ∃ tree span, nested.parseSource (.ofIndex 0) "a # x\n c b" = .ok ⟨.ok tree, []⟩ ∧
      tree.span? = some span ∧ Spans "a # x\n c b" tree span := by
  have hlex : lex "a # x\n c b" = [⟨.name, "a", { start := 0, stop := 1 }⟩,
      ⟨.name, "c", { start := 7, stop := 8 }⟩, ⟨.name, "b", { start := 9, stop := 10 }⟩, .endMarker 10] := by
    decide +kernel
  have hparse : nested.parseSource (.ofIndex 0) "a # x\n c b" = .ok ⟨.ok (.node (.ofIndex 0) [
      .leaf ⟨.name, "a", { start := 0, stop := 1 }⟩,
      .node (.ofIndex 0) [.leaf ⟨.name, "c", { start := 7, stop := 8 }⟩],
      .leaf ⟨.name, "b", { start := 9, stop := 10 }⟩]), []⟩ := by
    rw [parseSource, hlex]
    cbv
  obtain ⟨span, hspan, hspans⟩ :=
    parseSource_spans_nest (.ofTable .nested Table.ofTable_nested) (by decide) hparse .self
  exact ⟨_, span, hparse, hspan, hspans⟩

end Grammar

end Pushdown
