import Pushdown.Token

/-!
Parse trees. A leaf holds a token, and an inner node stands for a nonterminal.
-/

namespace Pushdown

/-- A parse tree. -/
inductive Tree where
  | leaf (token : Token)
  | node (symbol : SymbolId) (children : List Tree)
deriving Repr

namespace Tree

def kind : Tree → NodeKind
  | leaf token => .token token.kind
  | node symbol _ => .symbol symbol

def children : Tree → List Tree
  | leaf _ => []
  | node _ children => children

def token? : Tree → Option Token
  | leaf token => some token
  | node _ _ => none

def symbol? : Tree → Option SymbolId
  | leaf _ => none
  | node symbol _ => some symbol

def isLeaf (tree : Tree) : Bool := tree.token?.isSome

mutual

/-- The number of leaves and inner nodes. -/
def size : Tree → Nat
  | leaf _ => 1
  | node _ children => sizeAll children + 1

/-- The number of leaves and inner nodes of several trees. -/
def sizeAll : List Tree → Nat
  | [] => 0
  | tree :: trees => tree.size + sizeAll trees

end

theorem sizeAll_children (tree : Tree) : sizeAll tree.children + 1 = tree.size := by
  cases tree <;> simp [children, size, sizeAll]

theorem sizeAll_eq_total (trees : List Tree) : sizeAll trees = total size trees := by
  induction trees with
  | nil => rfl
  | cons tree rest ih => simp only [sizeAll, total_cons, ih]

theorem sizeAll_append (a b : List Tree) : sizeAll (a ++ b) = sizeAll a + sizeAll b := by
  simp only [sizeAll_eq_total, total_append]

theorem sizeAll_reverse (trees : List Tree) : sizeAll trees.reverse = sizeAll trees := by
  simp only [sizeAll_eq_total, total_reverse]

end Tree

end Pushdown
