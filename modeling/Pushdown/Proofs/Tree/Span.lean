import Pushdown.Proofs.Tree.Derivation

/-!
The places of trees. If the leaves stand one after another, a tree extends from its first leaf to its last, around its
children, which stand one after another as well.
-/

namespace Pushdown

/-- Each token ends before the next one starts. -/
def InOrder (tokens : List Token) : Prop := tokens.Pairwise fun a b => a.span.stop ≤ b.span.start

section InOrder

variable {tokens : List Token} {first last token : Token}

theorem InOrder.start_le (h : InOrder tokens) (hfirst : tokens.head? = some first) (htoken : token ∈ tokens) :
    first.span.start ≤ token.span.start := by
  obtain ⟨rest, rfl⟩ := List.head?_eq_some_iff.1 hfirst
  rcases List.mem_cons.1 htoken with rfl | hrest
  · exact Nat.le_refl _
  · have hle := (List.pairwise_cons.1 h).1 token hrest
    exact Nat.le_trans first.span.start_le_stop hle

theorem InOrder.stop_le (h : InOrder tokens) (hlast : tokens.getLast? = some last) (htoken : token ∈ tokens) :
    token.span.stop ≤ last.span.stop := by
  obtain ⟨before, rfl⟩ := List.getLast?_eq_some_iff.1 hlast
  rcases List.mem_append.1 htoken with hbefore | hself
  · have hle := (List.pairwise_append.1 h).2.2 token hbefore last List.mem_cons_self
    exact Nat.le_trans hle last.span.start_le_stop
  · exact List.mem_singleton.1 hself ▸ Nat.le_refl _

end InOrder

namespace Tree

theorem firstLeaf?_eq (trees : List Tree) : firstLeaf? trees = (trees.flatMap leaves).head? := by
  fun_induction firstLeaf? trees with
  | case1 => rfl
  | case2 token pending => simp
  | case3 symbol children pending ih => rw [ih, List.flatMap_append, List.flatMap_cons, leaves_node]

theorem lastLeaf?_eq (trees : List Tree) : lastLeaf? trees = (trees.reverse.flatMap leaves).getLast? := by
  fun_induction lastLeaf? trees with
  | case1 => rfl
  | case2 token pending => simp
  | case3 symbol children pending ih =>
    rw [List.unattach_reverse, List.unattach_attach] at ih
    calc lastLeaf? (children.reverse ++ pending)
        = ((children.reverse ++ pending).reverse.flatMap leaves).getLast? := ih
      _ = ((node symbol children :: pending).reverse.flatMap leaves).getLast? := by simp

/-- A tree with leaves extends from the first of them to the last. -/
theorem exists_span {tree : Tree} (hne : tree.leaves ≠ []) (horder : InOrder tree.leaves) :
    ∃ first last span, tree.leaves.head? = some first ∧ tree.leaves.getLast? = some last ∧
      tree.span? = some span ∧ span.start = first.span.start ∧ span.stop = last.span.stop := by
  have hfirst := List.head?_eq_some_head hne
  have hlast := List.getLast?_eq_some_getLast hne
  have hspan : tree.span? = some ((tree.leaves.head hne).span.cover (tree.leaves.getLast hne).span) := by
    rw [span?, firstLeaf?_eq, lastLeaf?_eq, List.reverse_singleton, List.flatMap_singleton, hfirst, hlast]
    rfl
  refine ⟨_, _, _, hfirst, hlast, hspan, ?_, ?_⟩
  · exact Nat.min_eq_left (horder.start_le hfirst (List.getLast_mem hne))
  · exact Nat.max_eq_right (horder.stop_le hlast (List.head_mem hne))

section Children

variable {symbol : SymbolId} {children : List Tree} {span : Span}

/-- The places of the leaves of a tree are within its own. -/
theorem span?_bounds {tree : Tree} (horder : InOrder tree.leaves) (hspan : tree.span? = some span) {token : Token}
    (htoken : token ∈ tree.leaves) : span.start ≤ token.span.start ∧ token.span.stop ≤ span.stop := by
  obtain ⟨first, last, span', hfirst, hlast, hspan', hstart, hstop⟩ :=
    exists_span (List.ne_nil_of_mem htoken) horder
  obtain rfl := Option.some.inj (hspan.symm.trans hspan')
  rw [hstart, hstop]
  exact ⟨horder.start_le hfirst htoken, horder.stop_le hlast htoken⟩

theorem inOrder_child (horder : InOrder (node symbol children).leaves) {child : Tree} (hchild : child ∈ children) :
    InOrder child.leaves := by
  rw [InOrder, leaves_node, List.pairwise_flatMap] at horder
  exact horder.1 child hchild

theorem exists_span_of_child (horder : InOrder (node symbol children).leaves)
    (hspan : (node symbol children).span? = some span) {child : Tree} (hchild : child ∈ children)
    (hne : child.leaves ≠ []) :
    ∃ inner, child.span? = some inner ∧ span.start ≤ inner.start ∧ inner.stop ≤ span.stop := by
  have hsub : child.leaves ⊆ (node symbol children).leaves := by
    intro token htoken
    rw [leaves_node]
    exact List.mem_flatMap.2 ⟨child, hchild, htoken⟩
  obtain ⟨first, last, inner, hfirst, hlast, hinner, hstart, hstop⟩ := exists_span hne (inOrder_child horder hchild)
  have hleft := (span?_bounds horder hspan (hsub (List.mem_of_head? hfirst))).1
  have hright := (span?_bounds horder hspan (hsub (List.mem_of_getLast? hlast))).2
  exact ⟨inner, hinner, hstart ▸ hleft, hstop ▸ hright⟩

/-- Each child ends before the next one starts. -/
theorem pairwise_children (horder : InOrder (node symbol children).leaves)
    (hne : ∀ child ∈ children, child.leaves ≠ []) :
    children.Pairwise fun a b => ∀ left ∈ a.span?, ∀ right ∈ b.span?, left.stop ≤ right.start := by
  have hordered := horder
  rw [InOrder, leaves_node, List.pairwise_flatMap] at hordered
  obtain ⟨hinner, hpairwise⟩ := hordered
  refine hpairwise.imp_of_mem ?_
  intro a b ha hb hbetween left hleft right hright
  obtain ⟨-, last, left', -, hlast, hleft', -, hstop⟩ := exists_span (hne a ha) (hinner a ha)
  obtain ⟨first, -, right', hfirst, -, hright', hstart, -⟩ := exists_span (hne b hb) (hinner b hb)
  obtain rfl := Option.some.inj (hleft.symm.trans hleft')
  obtain rfl := Option.some.inj (hright.symm.trans hright')
  calc left.stop
      = last.span.stop := hstop
    _ ≤ first.span.start := hbetween last (List.mem_of_getLast? hlast) first (List.mem_of_head? hfirst)
    _ = right.start := hstart.symm

end Children

end Tree

end Pushdown
