import Pushdown.Proofs.Tree.Occurrence
import Pushdown.Tree.Lexemes

/-!
Lexeme trees beside the trees that they are made from. The events of a tree are balanced, and the lexeme tree that they
describe has a node for each node of the tree and a token for each leaf, at the same places.
-/

namespace Pushdown

namespace Tree

mutual

/-- The tree with nothing kept but the codes of its nodes and the codes and lexemes of its leaves. -/
def bare : Tree → LexemeTree
  | leaf token => .token token.kind.code token.text
  | node symbol children => .node symbol.code (bareAll children)

def bareAll : List Tree → List LexemeTree
  | [] => []
  | tree :: trees => bare tree :: bareAll trees

end

mutual

/-- The events of a tree, by recursion. -/
def walk : Tree → List Event
  | leaf token => [.token token.kind.code token.text]
  | node symbol children => .start symbol.code :: (walkAll children ++ [.finish])

def walkAll : List Tree → List Event
  | [] => []
  | tree :: trees => walk tree ++ walkAll trees

end

end Tree

section Walk

/-- The events of what is still to be done. -/
def Errand.walk : Errand → List Event
  | enter tree => tree.walk
  | exit => [.finish]

end Walk

section Nesting

namespace LexemeTree

theorem Nesting.foldl_add (code : UInt16) (children trees : List LexemeTree) (outer : List Unfinished)
    (finished : List LexemeTree) :
    trees.foldl add ⟨⟨code, children⟩ :: outer, finished⟩ = ⟨⟨code, trees.reverse ++ children⟩ :: outer, finished⟩ := by
  induction trees generalizing children with
  | nil => rfl
  | cons tree rest ih =>
    rw [List.foldl_cons, List.reverse_cons, List.append_assoc]
    exact ih (tree :: children)

mutual

/-- A tree is put into the innermost node that is unfinished when its walk begins. -/
theorem foldlM_step_walk (tree : Tree) (nesting : Nesting) :
    tree.walk.foldlM Nesting.step nesting = some (nesting.add tree.bare) := by
  cases tree with
  | leaf token => rfl
  | node symbol children =>
    obtain ⟨outer, finished⟩ := nesting
    have hstart : Nesting.step ⟨outer, finished⟩ (.start symbol.code) =
        some ⟨⟨symbol.code, []⟩ :: outer, finished⟩ := rfl
    have hchildren := foldlM_step_walkAll children ⟨⟨symbol.code, []⟩ :: outer, finished⟩
    rw [Nesting.foldl_add, List.append_nil] at hchildren
    have hfinish : Nesting.step ⟨⟨symbol.code, (Tree.bareAll children).reverse⟩ :: outer, finished⟩ .finish =
        some (Nesting.add ⟨outer, finished⟩ (Tree.node symbol children).bare) := by
      simp only [Nesting.step, List.reverse_reverse, Tree.bare]
    simp [Tree.walk, hstart, hchildren, hfinish]

theorem foldlM_step_walkAll (trees : List Tree) (nesting : Nesting) :
    (Tree.walkAll trees).foldlM Nesting.step nesting = some ((Tree.bareAll trees).foldl Nesting.add nesting) := by
  cases trees with
  | nil => rfl
  | cons tree rest =>
    rw [Tree.walkAll, List.foldlM_append, foldlM_step_walk tree nesting, Tree.bareAll, List.foldl_cons]
    exact foldlM_step_walkAll rest (nesting.add tree.bare)

end

end LexemeTree

end Nesting

section Text

/-- The size of the lexemes of tokens in bytes. -/
def lexemeSize (tokens : List Token) : Nat := total (·.text.utf8ByteSize) tokens

theorem lexemeSize_append (a b : List Token) : lexemeSize (a ++ b) = lexemeSize a + lexemeSize b := total_append _ a b

theorem utf8ByteSize_join_texts (tokens : List Token) :
    (String.join (tokens.map Token.text)).utf8ByteSize = lexemeSize tokens := by
  induction tokens with
  | nil => rfl
  | cons token rest ih =>
    rw [List.map_cons, String.join_cons, String.utf8ByteSize_append, ih, lexemeSize, lexemeSize, total_cons]

namespace Tree

mutual

theorem text_bare (tree : Tree) : tree.bare.text = String.join (tree.leaves.map Token.text) := by
  cases tree with
  | leaf token => simp [bare, LexemeTree.text]
  | node symbol children => rw [bare, LexemeTree.text, textAll_bareAll, leaves_node]

theorem textAll_bareAll (trees : List Tree) :
    LexemeTree.textAll (bareAll trees) = String.join ((trees.flatMap leaves).map Token.text) := by
  cases trees with
  | nil => rfl
  | cons tree rest =>
    rw [bareAll, LexemeTree.textAll, text_bare, textAll_bareAll, List.flatMap_cons, List.map_append, String.join_append]

end

theorem width_bare (tree : Tree) : tree.bare.width = lexemeSize tree.leaves := by
  rw [LexemeTree.width, text_bare, utf8ByteSize_join_texts]

end Tree

end Text

section Elements

namespace Tree

/-- What is to be seen of an occurrence among the elements of a lexeme tree. -/
def Occurrence.element (occurrence : Occurrence) : Element where
  code := occurrence.tree.kind.code
  span := {
    start := lexemeSize occurrence.before
    stop := lexemeSize occurrence.before + lexemeSize occurrence.tree.leaves }
  parent := occurrence.parent.map (·.kind.code)
  index := occurrence.index
  text := occurrence.tree.token?.map (·.text)

mutual

theorem elementsAt_bare (tree : Tree) (outside : Option Tree) (index : Nat) (before : List Token) :
    tree.bare.elementsAt (lexemeSize before) (outside.map (·.kind.code)) index =
      (occurrencesAt outside index before tree).map Occurrence.element := by
  cases tree with
  | leaf token =>
    have hsize : lexemeSize [token] = token.text.utf8ByteSize := Nat.add_zero _
    simp [bare, LexemeTree.elementsAt, occurrencesAt, Occurrence.element, kind, NodeKind.code, token?, hsize]
  | node symbol children =>
    have hwidth := width_bare (node symbol children)
    rw [bare] at hwidth
    have hchildren := elementsOfAll_bareAll children (node symbol children) 0 before
    simp only [bare, LexemeTree.elementsAt, occurrencesAt, List.map_cons, ← hchildren, hwidth]
    rfl

theorem elementsOfAll_bareAll (trees : List Tree) (parent : Tree) (index : Nat) (before : List Token) :
    LexemeTree.elementsOfAll (lexemeSize before) parent.kind.code index (bareAll trees) =
      (occurrencesOfAll parent index before trees).map Occurrence.element := by
  cases trees with
  | nil => rfl
  | cons tree rest =>
    have hfirst := elementsAt_bare tree (some parent) index before
    have hrest := elementsOfAll_bareAll rest parent (index + 1) (before ++ tree.leaves)
    rw [bareAll, LexemeTree.elementsOfAll, occurrencesOfAll, List.map_append, ← hfirst, ← hrest, lexemeSize_append,
      width_bare]
    rfl

end

end Tree

end Elements

end Pushdown
