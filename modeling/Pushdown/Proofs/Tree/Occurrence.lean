import Pushdown.Proofs.Tree.Derivation

/-! What occurs in a tree: under which node, as which of its children, and behind which leaves. -/

namespace Pushdown.Tree

/-- A tree with where it stands in another one. -/
structure Occurrence where
  tree : Tree
  /-- The node around it. The root has none. -/
  parent : Option Tree
  /-- The position among the children of the node around it. -/
  index : Nat
  /-- The leaves before it. -/
  before : List Token

/-- `root` has the occurrence: itself, or a child of what occurs. -/
inductive Occurs (root : Tree) : Occurrence → Prop where
  | root : Occurs root ⟨root, none, 0, []⟩
  | child {outer : Occurrence} {symbol : SymbolId} {left right : List Tree} {tree : Tree} (h : Occurs root outer)
    (houter : outer.tree = node symbol (left ++ tree :: right)) :
    Occurs root ⟨tree, some outer.tree, left.length, outer.before ++ left.flatMap leaves⟩

mutual

/-- What occurs in a tree that stands at a place, each before its children. -/
def occurrencesAt (parent : Option Tree) (index : Nat) (before : List Token) : Tree → List Occurrence
  | leaf token => [⟨leaf token, parent, index, before⟩]
  | node symbol children =>
    ⟨node symbol children, parent, index, before⟩ :: occurrencesOfAll (node symbol children) 0 before children

def occurrencesOfAll (parent : Tree) (index : Nat) (before : List Token) : List Tree → List Occurrence
  | [] => []
  | tree :: trees =>
    occurrencesAt (some parent) index before tree ++ occurrencesOfAll parent (index + 1) (before ++ tree.leaves) trees

end

section Occurrences

variable {root parent tree child : Tree} {outside : Option Tree} {index : Nat} {before : List Token}
  {symbol : SymbolId} {left right : List Tree} {occurrence : Occurrence}

theorem mem_occurrencesAt_self : ⟨tree, outside, index, before⟩ ∈ occurrencesAt outside index before tree := by
  cases tree with
  | leaf token => exact List.mem_singleton.2 rfl
  | node symbol children => exact List.mem_cons_self

theorem occurrencesOfAll_append (left right : List Tree) :
    occurrencesOfAll parent index before (left ++ right) = occurrencesOfAll parent index before left ++
      occurrencesOfAll parent (index + left.length) (before ++ left.flatMap leaves) right := by
  induction left generalizing index before with
  | nil => simp [occurrencesOfAll]
  | cons tree rest ih =>
    rw [List.cons_append, occurrencesOfAll, occurrencesOfAll, ih, List.flatMap_cons, List.length_cons]
    simp only [List.append_assoc, Nat.add_assoc, Nat.add_comm 1]

theorem mem_occurrencesOfAll :
    ⟨tree, some parent, index + left.length, before ++ left.flatMap leaves⟩ ∈
      occurrencesOfAll parent index before (left ++ tree :: right) := by
  rw [occurrencesOfAll_append, occurrencesOfAll]
  exact List.mem_append_right _ (List.mem_append_left _ mem_occurrencesAt_self)

mutual

/-- With a node all its children are among what occurs. -/
theorem child_mem_occurrencesAt (tree : Tree) (outside : Option Tree) (index : Nat) (before : List Token)
    (hmem : occurrence ∈ occurrencesAt outside index before tree)
    (htree : occurrence.tree = node symbol (left ++ child :: right)) :
    ⟨child, some occurrence.tree, left.length, occurrence.before ++ left.flatMap leaves⟩ ∈
      occurrencesAt outside index before tree := by
  cases tree with
  | leaf token =>
    obtain rfl := List.mem_singleton.1 hmem
    cases htree
  | node symbol' children =>
    rcases List.mem_cons.1 hmem with rfl | hinner
    · cases htree
      apply List.mem_cons_of_mem
      rw [← Nat.zero_add left.length]
      exact mem_occurrencesOfAll
    · exact List.mem_cons_of_mem _ (child_mem_occurrencesOfAll children _ 0 before hinner htree)

theorem child_mem_occurrencesOfAll (trees : List Tree) (parent : Tree) (index : Nat) (before : List Token)
    (hmem : occurrence ∈ occurrencesOfAll parent index before trees)
    (htree : occurrence.tree = node symbol (left ++ child :: right)) :
    ⟨child, some occurrence.tree, left.length, occurrence.before ++ left.flatMap leaves⟩ ∈
      occurrencesOfAll parent index before trees := by
  cases trees with
  | nil => cases hmem
  | cons tree rest =>
    rcases List.mem_append.1 hmem with hfirst | hrest
    · exact List.mem_append_left _ (child_mem_occurrencesAt tree _ index before hfirst htree)
    · exact List.mem_append_right _ (child_mem_occurrencesOfAll rest parent _ _ hrest htree)

end

mutual

theorem occurs_of_mem_occurrencesAt (tree : Tree) (outside : Option Tree) (index : Nat) (before : List Token)
    (h : root.Occurs ⟨tree, outside, index, before⟩) (hmem : occurrence ∈ occurrencesAt outside index before tree) :
    root.Occurs occurrence := by
  cases tree with
  | leaf token =>
    obtain rfl := List.mem_singleton.1 hmem
    exact h
  | node symbol children =>
    rcases List.mem_cons.1 hmem with rfl | hinner
    · exact h
    · exact occurs_of_mem_occurrencesOfAll children ⟨node symbol children, outside, index, before⟩ symbol [] h rfl
        (by simpa using hinner)

theorem occurs_of_mem_occurrencesOfAll (trees : List Tree) (outer : Occurrence) (symbol : SymbolId) (left : List Tree)
    (h : root.Occurs outer) (houter : outer.tree = node symbol (left ++ trees))
    (hmem : occurrence ∈ occurrencesOfAll outer.tree left.length (outer.before ++ left.flatMap leaves) trees) :
    root.Occurs occurrence := by
  cases trees with
  | nil => cases hmem
  | cons tree rest =>
    rcases List.mem_append.1 hmem with hfirst | hrest
    · exact occurs_of_mem_occurrencesAt tree _ _ _ (h.child houter) hfirst
    · -- The first child goes to those on the left.
      apply occurs_of_mem_occurrencesOfAll rest outer symbol (left ++ [tree]) h
      · rw [houter, List.append_assoc, List.singleton_append]
      · simpa using hrest

end

end Occurrences

end Pushdown.Tree
