import Pushdown.Proofs.Tree.Span
import Pushdown.Tree.Render

/-!
Walks over trees with a list of what is pending, beside recursion on the trees. Both meet every node before its children
and these from left to right, so they find the same leaves and show the same text.
-/

namespace Pushdown.Tree

section Leaves

mutual

/-- The tokens of the leaves from left to right, by recursion. -/
def tokens : Tree → List Token
  | leaf token => [token]
  | node _ children => tokensOfAll children

def tokensOfAll : List Tree → List Token
  | [] => []
  | tree :: trees => tree.tokens ++ tokensOfAll trees

end

/-- The leaves of the pending trees are handed out one after another, until there is none left. -/
inductive Yields : List Tree → List Token → Prop where
  | done {pending : List Tree} (h : nextLeaf? pending = none) : Yields pending []
  | next {pending rest : List Tree} {token : Token} {tokens : List Token}
    (h : nextLeaf? pending = some (token, rest)) (hrest : Yields rest tokens) : Yields pending (token :: tokens)

mutual

theorem leaves_eq_tokens (tree : Tree) : tree.leaves = tree.tokens := by
  cases tree with
  | leaf token => rw [leaves_leaf, tokens]
  | node symbol children => rw [leaves_node, tokens, flatMap_leaves_eq_tokens]

theorem flatMap_leaves_eq_tokens (trees : List Tree) : trees.flatMap leaves = tokensOfAll trees := by
  cases trees with
  | nil => rfl
  | cons tree rest => rw [List.flatMap_cons, leaves_eq_tokens, flatMap_leaves_eq_tokens, tokensOfAll]

end

theorem flatMap_leaves_of_nextLeaf?_eq_none {pending : List Tree} (h : nextLeaf? pending = none) :
    pending.flatMap leaves = [] := by
  fun_induction nextLeaf? pending with
  | case1 => rfl
  | case2 token pending => cases h
  | case3 symbol children pending ih =>
    have hopened := ih h
    rwa [List.flatMap_append, ← leaves_node symbol, ← List.flatMap_cons] at hopened

theorem flatMap_leaves_of_nextLeaf?_eq_some {pending rest : List Tree} {token : Token}
    (h : nextLeaf? pending = some (token, rest)) : pending.flatMap leaves = token :: rest.flatMap leaves := by
  fun_induction nextLeaf? pending with
  | case1 => cases h
  | case2 token' pending =>
    cases h
    rw [List.flatMap_cons, leaves_leaf, List.singleton_append]
  | case3 symbol children pending ih =>
    have hopened := ih h
    rwa [List.flatMap_append, ← leaves_node symbol, ← List.flatMap_cons] at hopened

theorem yields_flatMap_leaves (pending : List Tree) : Yields pending (pending.flatMap leaves) := by
  -- The induction is on the leaves that are left. A turn that finds one makes them fewer, whatever it has to open.
  generalize htokens : pending.flatMap leaves = tokens
  induction tokens generalizing pending with
  | nil =>
    cases hnext : nextLeaf? pending with
    | none => exact .done hnext
    | some found =>
      have hleaves := flatMap_leaves_of_nextLeaf?_eq_some hnext
      rw [htokens] at hleaves
      cases hleaves
  | cons token tokens ih =>
    cases hnext : nextLeaf? pending with
    | none =>
      have hleaves := flatMap_leaves_of_nextLeaf?_eq_none hnext
      rw [htokens] at hleaves
      cases hleaves
    | some found =>
      have hleaves := flatMap_leaves_of_nextLeaf?_eq_some hnext
      rw [htokens] at hleaves
      obtain ⟨rfl, hrest⟩ := List.cons_eq_cons.1 hleaves
      apply Yields.next hnext
      apply ih
      exact hrest.symm

end Leaves

section Nodes

mutual

/-- The tree at a depth and all below it, each before its children, by recursion. -/
def nodesAt (depth : Nat) : Tree → List (Nat × Tree)
  | leaf token => [(depth, leaf token)]
  | node symbol children => (depth, node symbol children) :: nodesOfAllAt (depth + 1) children

def nodesOfAllAt (depth : Nat) : List Tree → List (Nat × Tree)
  | [] => []
  | tree :: trees => tree.nodesAt depth ++ nodesOfAllAt depth trees

end

theorem nodesAt_eq (depth : Nat) (tree : Tree) :
    tree.nodesAt depth = (depth, tree) :: nodesOfAllAt (depth + 1) tree.children := by
  cases tree with
  | leaf token => rfl
  | node symbol children => rfl

theorem flatMap_nodesAt_map (depth : Nat) (trees : List Tree) :
    ((trees.map (depth, ·)).flatMap fun entry => entry.2.nodesAt entry.1) = nodesOfAllAt depth trees := by
  induction trees with
  | nil => rfl
  | cons tree rest ih => rw [List.map_cons, List.flatMap_cons, ih, nodesOfAllAt]

/-- What is pending is met as by recursion, one tree after another. -/
theorem preorderFrom_eq (found pending : List (Nat × Tree)) :
    preorderFrom found pending = found.reverse ++ pending.flatMap fun entry => entry.2.nodesAt entry.1 := by
  fun_induction preorderFrom found pending with
  | case1 found => rw [List.flatMap_nil, List.append_nil]
  | case2 found depth tree pending ih =>
    calc preorderFrom ((depth, tree) :: found) (tree.children.map (depth + 1, ·) ++ pending)
        = ((depth, tree) :: found).reverse ++
          ((tree.children.map (depth + 1, ·) ++ pending).flatMap fun entry => entry.2.nodesAt entry.1) := ih
      _ = found.reverse ++ ((depth, tree) :: nodesOfAllAt (depth + 1) tree.children ++
          pending.flatMap fun entry => entry.2.nodesAt entry.1) := by
        rw [List.flatMap_append, flatMap_nodesAt_map, List.reverse_cons, List.append_assoc, List.singleton_append,
          List.cons_append]
      _ = found.reverse ++ ((depth, tree) :: pending).flatMap fun entry => entry.2.nodesAt entry.1 := by
        rw [List.flatMap_cons, nodesAt_eq]

theorem preorder_eq (tree : Tree) : tree.preorder = tree.nodesAt 0 := by
  rw [preorder, preorderFrom_eq, List.reverse_nil, List.nil_append, List.flatMap_singleton]

mutual

theorem filterMap_token?_nodesAt (depth : Nat) (tree : Tree) :
    ((tree.nodesAt depth).filterMap fun entry => entry.2.token?) = tree.tokens := by
  cases tree with
  | leaf token => rfl
  | node symbol children =>
    have hchildren := filterMap_token?_nodesOfAllAt (depth + 1) children
    rwa [nodesAt, List.filterMap_cons_none rfl, tokens]

theorem filterMap_token?_nodesOfAllAt (depth : Nat) (trees : List Tree) :
    ((nodesOfAllAt depth trees).filterMap fun entry => entry.2.token?) = tokensOfAll trees := by
  cases trees with
  | nil => rfl
  | cons tree rest =>
    rw [nodesOfAllAt, List.filterMap_append, filterMap_token?_nodesAt, filterMap_token?_nodesOfAllAt, tokensOfAll]

end

end Nodes

section Rendering

/-- From the first of the tokens to the last. -/
def extent? (tokens : List Token) : Option Span := do
  let first ← tokens.head?
  let last ← tokens.getLast?
  return first.span.cover last.span

theorem span?_eq_extent? (tree : Tree) : tree.span? = extent? tree.tokens := by
  rw [span?, firstLeaf?_eq, lastLeaf?_eq, List.reverse_singleton, List.flatMap_singleton, leaves_eq_tokens, extent?]

/-- The entry of a node: what is shown of it, behind two blanks for each node above it. -/
def entryAt (depth : Nat) (shown : String) : String := String.ofList (List.replicate (2 * depth) ' ') ++ shown ++ "\n"

variable (grammar : Grammar) (places : Bool)

mutual

/-- The rendering of a tree at a depth by recursion: its entry, and behind it the renderings of its children. -/
def renderedAt (depth : Nat) : Tree → String
  | leaf token =>
    entryAt depth (grammar.tokenName token.kind ++ place places (some token.span) ++ " " ++ Text.quoted token.text)
  | node symbol children =>
    entryAt depth ((grammar.symbolName? symbol).getD "?" ++ place places (extent? (tokensOfAll children))) ++
      renderedAllAt (depth + 1) children

def renderedAllAt (depth : Nat) : List Tree → String
  | [] => ""
  | tree :: trees => tree.renderedAt depth ++ renderedAllAt depth trees

end

mutual

theorem join_lines_nodesAt (depth : Nat) (tree : Tree) :
    String.join ((tree.nodesAt depth).map fun entry => entry.2.line grammar places entry.1) =
      tree.renderedAt grammar places depth := by
  cases tree with
  | leaf token =>
    rw [nodesAt, List.map_singleton, String.join_cons, renderedAt]
    exact String.append_empty
  | node symbol children =>
    have hspan : (node symbol children).span? = extent? (tokensOfAll children) := span?_eq_extent? _
    rw [nodesAt, List.map_cons, String.join_cons, join_lines_nodesOfAllAt (depth + 1) children, renderedAt, ← hspan]
    rfl

theorem join_lines_nodesOfAllAt (depth : Nat) (trees : List Tree) :
    String.join ((nodesOfAllAt depth trees).map fun entry => entry.2.line grammar places entry.1) =
      renderedAllAt grammar places depth trees := by
  cases trees with
  | nil => rfl
  | cons tree rest =>
    rw [nodesOfAllAt, List.map_append, String.join_append, join_lines_nodesAt depth tree,
      join_lines_nodesOfAllAt depth rest, renderedAllAt]

end

theorem render_eq_join_lines (tree : Tree) :
    tree.render grammar places =
      String.join ((tree.nodesAt 0).map fun entry => entry.2.line grammar places entry.1) := by
  rw [render, preorder_eq]

theorem render_eq_renderedAt (tree : Tree) : tree.render grammar places = tree.renderedAt grammar places 0 := by
  rw [render_eq_join_lines, join_lines_nodesAt]

end Rendering

/--
The leaves that are handed out are those that recursion finds, in the same order. Both renderings are what recursion
renders, node by node, and the leaves among their entries come in the order in which they are handed out.
-/
theorem walks_eq_recursion (grammar : Grammar) (tree : Tree) :
    Yields [tree] tree.leaves ∧ tree.leaves = tree.tokens ∧
      tree.dump grammar = tree.renderedAt grammar true 0 ∧ tree.outline grammar = tree.renderedAt grammar false 0 ∧
      (∀ places, tree.render grammar places =
        String.join ((tree.nodesAt 0).map fun entry => entry.2.line grammar places entry.1)) ∧
      ((tree.nodesAt 0).filterMap fun entry => entry.2.token?) = tree.leaves := by
  have hleaves := leaves_eq_tokens tree
  have hyields := yields_flatMap_leaves [tree]
  rw [List.flatMap_singleton] at hyields
  refine ⟨hyields, hleaves, ?_, ?_, ?_, ?_⟩
  · exact render_eq_renderedAt grammar true tree
  · exact render_eq_renderedAt grammar false tree
  · intro places
    exact render_eq_join_lines grammar places tree
  · rw [filterMap_token?_nodesAt, hleaves]

end Pushdown.Tree
