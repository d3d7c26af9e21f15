import Pushdown.Tree.Basic

/-!
Parse trees as events: the start and the end of each inner node, and between them its tokens and inner nodes.
-/

namespace Pushdown

/-- A step of a walk around a tree. -/
inductive Event where
  | start (code : UInt16)
  | token (code : UInt16) (text : String)
  | finish
deriving DecidableEq, Repr

/-- What is still to be done on a walk around a tree. -/
inductive Errand where
  | enter (tree : Tree)
  | exit

namespace Errand

/-- The number of steps that an errand takes at most. -/
def cost : Errand → Nat
  | enter tree => 2 * tree.size
  | exit => 1

theorem total_cost_enter (trees : List Tree) :
    total cost (trees.map enter) = 2 * Tree.sizeAll trees := by
  induction trees with
  | nil => rfl
  | cons tree rest ih => simp only [List.map_cons, total_cons, ih, cost, Tree.sizeAll]; omega

end Errand

namespace Tree

/-- The events of the pending errands, after those in `found`, which are in reverse order. -/
def eventsFrom (found : List Event) : List Errand → List Event
  | [] => found.reverse
  | .exit :: pending => eventsFrom (.finish :: found) pending
  | .enter (leaf token) :: pending => eventsFrom (.token token.kind.code token.text :: found) pending
  | .enter (node symbol children) :: pending =>
    eventsFrom (.start symbol.code :: found) (children.map .enter ++ .exit :: pending)
termination_by pending => total Errand.cost pending
decreasing_by
  · simp [Errand.cost]
  · simp [Errand.cost, size]
  · simp only [total_append, total_cons, List.attach_map_val, Errand.total_cost_enter, Errand.cost, size]
    omega

/-- The events of a tree. A leaf on its own is put into a node of its kind. -/
def events (tree : Tree) : List Event :=
  match tree with
  | leaf token => .start token.kind.code :: eventsFrom [] [.enter tree] ++ [.finish]
  | node _ _ => eventsFrom [] [.enter tree]

end Tree

end Pushdown
