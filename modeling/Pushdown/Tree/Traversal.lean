import Pushdown.Tree.Basic

/-!
Walks over parse trees that keep a list of what is still to be done, so trees may be as deep as memory allows.
-/

namespace Pushdown.Tree

/-- The tokens of the leaves of the pending trees, after those in `found`, which are in reverse order. -/
def leavesFrom (found : List Token) : List Tree → List Token
  | [] => found.reverse
  | leaf token :: pending => leavesFrom (token :: found) pending
  | node _ children :: pending => leavesFrom found (children ++ pending)
termination_by pending => sizeAll pending
decreasing_by all_goals simp only [sizeAll_append, sizeAll, size]; omega

/-- The tokens of the leaves, from left to right. -/
def leaves (tree : Tree) : List Token := leavesFrom [] [tree]

/-- The token of the first leaf of the pending trees, and what is pending behind it. -/
def nextLeaf? : List Tree → Option (Token × List Tree)
  | [] => none
  | leaf token :: pending => some (token, pending)
  | node _ children :: pending => nextLeaf? (children ++ pending)
termination_by pending => sizeAll pending
decreasing_by simp only [sizeAll_append, sizeAll, size]; omega

/-- The token of the first leaf of the pending trees. -/
def firstLeaf? : List Tree → Option Token
  | [] => none
  | leaf token :: _ => some token
  | node _ children :: pending => firstLeaf? (children ++ pending)
termination_by pending => sizeAll pending
decreasing_by simp only [sizeAll_append, sizeAll, size]; omega

/-- The token of the last leaf of the pending trees, which are in reverse order. -/
def lastLeaf? : List Tree → Option Token
  | [] => none
  | leaf token :: _ => some token
  | node _ children :: pending => lastLeaf? (children.reverse ++ pending)
termination_by pending => sizeAll pending
decreasing_by
  simp only [List.unattach_reverse, List.unattach_attach, sizeAll_append, sizeAll_reverse, sizeAll, size]
  omega

/-- From the first leaf to the last; there is none if the tree has no leaf. -/
def span? (tree : Tree) : Option Span := do
  let first ← firstLeaf? [tree]
  let last ← lastLeaf? [tree]
  return first.span.cover last.span

/-- The number of nodes of trees with their depths. -/
def sizeAt (pending : List (Nat × Tree)) : Nat := sizeAll (pending.map Prod.snd)

/--
The pending trees and all below them, each before its children, after those in `found`, which are in reverse
order. Every tree comes with its depth.
-/
def preorderFrom (found : List (Nat × Tree)) : List (Nat × Tree) → List (Nat × Tree)
  | [] => found.reverse
  | (depth, tree) :: pending =>
    preorderFrom ((depth, tree) :: found) (tree.children.map (depth + 1, ·) ++ pending)
termination_by pending => sizeAt pending
decreasing_by
  have := sizeAll_children tree
  simp only [sizeAt, List.map_append, List.map_map, Function.comp_def, List.map_id', sizeAll_append,
    List.map_cons, sizeAll]
  omega

/-- The tree and all below it, each before its children and with its depth. -/
def preorder (tree : Tree) : List (Nat × Tree) := preorderFrom [] [(0, tree)]

/-- The number of nodes of the first trees of pairs. -/
def sizeFst (pending : List (Tree × Tree)) : Nat := sizeAll (pending.map Prod.fst)

theorem sizeAll_fst_zip_le (a b : List Tree) : sizeAll ((a.zip b).map Prod.fst) ≤ sizeAll a := by
  induction a generalizing b with
  | nil => simp
  | cons tree rest ih =>
    cases b with
    | nil => simp [sizeAll]
    | cons other others =>
      have := ih others
      simp only [List.zip_cons_cons, List.map_cons, sizeAll]
      omega

/-- Whether the two trees of every pending pair are equal. -/
def equalAll : List (Tree × Tree) → Bool
  | [] => true
  | (leaf a, leaf b) :: pending => a = b && equalAll pending
  | (node a as, node b bs) :: pending =>
    a = b && as.length = bs.length && equalAll ((as.zip bs).reverse ++ pending)
  | (leaf _, node _ _) :: _ => false
  | (node _ _, leaf _) :: _ => false
termination_by pending => sizeFst pending
decreasing_by
  · simp only [sizeFst, List.map_cons, sizeAll, size]
    omega
  · have := sizeAll_fst_zip_le as bs
    simp only [sizeFst, List.map_append, List.map_reverse, sizeAll_append, sizeAll_reverse, List.map_cons,
      sizeAll, size]
    omega

/-- Whether two trees have the same nodes, tokens and children. -/
def equal (a b : Tree) : Bool := equalAll [(a, b)]

instance : BEq Tree := ⟨equal⟩

/-- A node that is being copied, with the copies of its first children in reverse order. -/
structure Copying where
  source : Tree
  copied : List Tree

namespace Copying

/-- Nothing has been copied. -/
def start (tree : Tree) : Copying := ⟨tree, []⟩

/-- The copy, as far as it has been made. -/
def copy (work : Copying) : Tree :=
  match work.source with
  | leaf token => .leaf token
  | node symbol _ => .node symbol work.copied.reverse

def add (work : Copying) (child : Tree) : Copying := { work with copied := child :: work.copied }

/-- The child that is copied next. A copy is complete once it has as many children as its source. -/
def next? (work : Copying) : Option Tree := work.source.children[work.copied.length]?

/-- The number of steps that are left for a node and what is below its children, but for the next `begun` of them. -/
def cost (begun : Nat) (work : Copying) : Nat :=
  2 * sizeAll (work.source.children.drop (work.copied.length + begun)) + 1

/-- The number of steps that are left. A child of every node but the first has been begun. -/
def costAll : List Copying → Nat
  | [] => 0
  | work :: above => work.cost 0 + total (cost 1) above

theorem cost_of_next? {work : Copying} {child : Tree} (h : work.next? = some child) :
    work.cost 0 = work.cost 1 + 2 * child.size := by
  have hdrop : work.source.children.drop work.copied.length =
      child :: work.source.children.drop (work.copied.length + 1) := by
    rw [next?] at h
    rw [List.drop_eq_getElem?_toList_append, h, Option.toList_some, List.singleton_append]
  simp only [cost, Nat.add_zero, hdrop, sizeAll]
  omega

theorem cost_start (tree : Tree) : (start tree).cost 0 + 1 = 2 * tree.size := by
  have hsize := sizeAll_children tree
  simp only [cost, start, List.length_nil, Nat.add_zero, List.drop_zero]
  omega

theorem cost_add (work : Copying) (child : Tree) : (work.add child).cost 0 = work.cost 1 := by
  rw [cost, cost, add, List.length_cons, Nat.add_zero]

end Copying

/--
The copy of the last of the pending nodes. The first one is worked on, and every other one waits for the copy of the
child before it. There is none only if nothing is pending.
-/
def copyFrom : List Copying → Option Tree
  | [] => none
  | work :: above =>
    match _h : work.next? with
    | some child => copyFrom (.start child :: work :: above)
    | none =>
      match above with
      | [] => some work.copy
      | parent :: above => copyFrom (parent.add work.copy :: above)
termination_by pending => Copying.costAll pending
decreasing_by
  · have hnext := Copying.cost_of_next? _h
    have hstart := Copying.cost_start child
    simp only [Copying.costAll, total_cons]
    omega
  · simp only [Copying.costAll, total_cons, Copying.cost_add]
    simp only [Copying.cost]
    omega

theorem isSome_copyFrom {pending : List Copying} (h : pending ≠ []) : (copyFrom pending).isSome := by
  fun_induction copyFrom pending with
  | case1 => exact absurd rfl h
  | case2 work above child _ ih => exact ih (List.cons_ne_nil _ _)
  | case3 work _ => rfl
  | case4 work _ parent above ih => exact ih (List.cons_ne_nil _ _)

/-- The tree, built anew node by node. -/
def copy (tree : Tree) : Tree := (copyFrom [.start tree]).get (isSome_copyFrom (List.cons_ne_nil _ _))

end Pushdown.Tree
