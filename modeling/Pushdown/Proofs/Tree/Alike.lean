import Mathlib.Data.List.Forall2
import Pushdown.Proofs.Tree.Derivation
import Pushdown.Tree.Render

/-! Trees that differ in nothing but the tokens at their leaves. -/

namespace Pushdown.Tree

/-- The trees have the same inner nodes, and the tokens at their leaves are related one by one. -/
inductive Alike (tokens : Token → Token → Prop) : Tree → Tree → Prop where
  | leaf {token token' : Token} (h : tokens token token') : Alike tokens (.leaf token) (.leaf token')
  | node (symbol : SymbolId) (pairs : List (Tree × Tree)) (h : ∀ pair ∈ pairs, Alike tokens pair.1 pair.2) :
    Alike tokens (.node symbol (pairs.map Prod.fst)) (.node symbol (pairs.map Prod.snd))

/-- A tree with numbers at its leaves. -/
inductive Numbered where
  | leaf (number : Nat)
  | node (symbol : SymbolId) (children : List Numbered)
deriving Repr

mutual

/-- The tree with its leaves replaced by numbers, from left to right and beginning with `first`. -/
def numberFrom (first : Nat) : Tree → Numbered
  | leaf _ => .leaf first
  | node symbol children => .node symbol (numberAllFrom first children)

/-- Several trees, numbered one after another. -/
def numberAllFrom (first : Nat) : List Tree → List Numbered
  | [] => []
  | tree :: trees => numberFrom first tree :: numberAllFrom (first + tree.leaves.length) trees

end

/-- The tree with each leaf replaced by its position among the leaves. -/
def numbered (tree : Tree) : Numbered := tree.numberFrom 0

variable {tokens : Token → Token → Prop} {tree tree' : Tree}

theorem Alike.of_forall₂ (symbol : SymbolId) {children children' : List Tree}
    (h : List.Forall₂ (Alike tokens) children children') :
    Alike tokens (.node symbol children) (.node symbol children') := by
  obtain ⟨hlength, hpairs⟩ := List.forall₂_iff_zip.1 h
  have hnode : Alike tokens (.node symbol ((children.zip children').map Prod.fst))
      (.node symbol ((children.zip children').map Prod.snd)) := .node symbol _ fun _ hpair => hpairs hpair
  rwa [List.map_fst_zip (Nat.le_of_eq hlength), List.map_snd_zip (Nat.le_of_eq hlength.symm)] at hnode

theorem Alike.children (h : Alike tokens tree tree') :
    List.Forall₂ (Alike tokens) tree.children tree'.children := by
  cases h with
  | leaf _ => exact .nil
  | node symbol pairs hpairs =>
    rw [Tree.children, Tree.children, List.forall₂_map_left_iff, List.forall₂_map_right_iff, List.forall₂_same]
    exact hpairs

/-- Trees with equal tokens at their leaves are equal. -/
theorem Alike.eq (h : Alike Eq tree tree') : tree = tree' := by
  induction h with
  | leaf h => rw [h]
  | node symbol pairs _ ih => rw [List.map_congr_left ih]

theorem Alike.length_leaves_eq (h : Alike tokens tree tree') : tree.leaves.length = tree'.leaves.length := by
  induction h with
  | leaf _ => rw [leaves_leaf, leaves_leaf, List.length_singleton, List.length_singleton]
  | node symbol pairs _ ih =>
    have hlengths : pairs.map (fun pair => pair.1.leaves.length) = pairs.map fun pair => pair.2.leaves.length :=
      List.map_congr_left ih
    simp only [leaves_node, List.length_flatMap, List.map_map, Function.comp_def, hlengths]

theorem numberAllFrom_eq {pairs : List (Tree × Tree)}
    (hlength : ∀ pair ∈ pairs, pair.1.leaves.length = pair.2.leaves.length)
    (h : ∀ pair ∈ pairs, ∀ first, pair.1.numberFrom first = pair.2.numberFrom first) (first : Nat) :
    numberAllFrom first (pairs.map Prod.fst) = numberAllFrom first (pairs.map Prod.snd) := by
  induction pairs generalizing first with
  | nil => rfl
  | cons pair rest ih =>
    obtain ⟨hpair, hrest⟩ := List.forall_mem_cons.1 h
    obtain ⟨hleaves, hlengths⟩ := List.forall_mem_cons.1 hlength
    rw [List.map_cons, List.map_cons, numberAllFrom, numberAllFrom, hpair, ih hlengths hrest, hleaves]

theorem Alike.numberFrom_eq (h : Alike tokens tree tree') (first : Nat) :
    tree.numberFrom first = tree'.numberFrom first := by
  induction h generalizing first with
  | leaf _ => rfl
  | node symbol pairs hpairs ih =>
    -- The first number of a child depends on how many leaves stand before it, so these have to be as many.
    have hlength : ∀ pair ∈ pairs, pair.1.leaves.length = pair.2.leaves.length :=
      fun pair hpair => (hpairs pair hpair).length_leaves_eq
    rw [numberFrom, numberFrom, numberAllFrom_eq hlength ih]

/-- Trees that are alike become equal when each leaf is replaced by its position. -/
theorem Alike.numbered_eq (h : Alike tokens tree tree') : tree.numbered = tree'.numbered := h.numberFrom_eq 0

section Outline

/-- The tokens differ at most in their places. -/
def SameText (token token' : Token) : Prop := token.kind = token'.kind ∧ token.text = token'.text

theorem place_false (span : Option Span) : place false span = "" := by
  cases span <;> rfl

theorem Alike.line_eq (h : Alike SameText tree tree') (grammar : Grammar) (depth : Nat) :
    tree.line grammar false depth = tree'.line grammar false depth := by
  cases h with
  | leaf h => rw [line, line, headline, headline, place_false, place_false, h.1, h.2]
  | node symbol pairs _ => rfl

/-- Trees at the same depth that are alike. -/
def AlikeAt (tokens : Token → Token → Prop) (entry entry' : Nat × Tree) : Prop :=
  entry.1 = entry'.1 ∧ Alike tokens entry.2 entry'.2

theorem Alike.children_at {depth : Nat} (h : Alike tokens tree tree') :
    List.Forall₂ (AlikeAt tokens) (tree.children.map (depth, ·)) (tree'.children.map (depth, ·)) := by
  rw [List.forall₂_map_left_iff, List.forall₂_map_right_iff]
  exact h.children.imp fun _ _ hchild => ⟨rfl, hchild⟩

theorem preorderFrom_forall₂ {found found' pending pending' : List (Nat × Tree)}
    (hfound : List.Forall₂ (AlikeAt tokens) found found')
    (hpending : List.Forall₂ (AlikeAt tokens) pending pending') :
    List.Forall₂ (AlikeAt tokens) (preorderFrom found pending) (preorderFrom found' pending') := by
  -- What has been found and what is pending are alike at each turn of the loop.
  fun_induction preorderFrom found pending generalizing found' pending' with
  | case1 found =>
    cases hpending
    rw [preorderFrom]
    exact List.rel_reverse hfound
  | case2 found depth tree pending ih =>
    cases hpending with
    | @cons _ entry' _ rest' hentry hrest =>
      obtain ⟨depth', tree'⟩ := entry'
      obtain ⟨rfl, htree⟩ := hentry
      rw [preorderFrom]
      exact ih (.cons ⟨rfl, htree⟩ hfound) (List.rel_append htree.children_at hrest)

/-- Without places, trees are shown the same if their leaves have the same kinds and texts. -/
theorem Alike.outline_eq (h : Alike SameText tree tree') (grammar : Grammar) :
    tree.outline grammar = tree'.outline grammar := by
  have hpreorder : List.Forall₂ (AlikeAt SameText) tree.preorder tree'.preorder :=
    preorderFrom_forall₂ .nil (.cons ⟨rfl, h⟩ .nil)
  have hline : ∀ entry entry', AlikeAt SameText entry entry' →
      entry.2.line grammar false entry.1 = entry'.2.line grammar false entry'.1 := by
    intro entry entry' hentry
    rw [hentry.2.line_eq, hentry.1]
  have hlines : List.Forall₂ Eq (tree.preorder.map fun entry => entry.2.line grammar false entry.1)
      (tree'.preorder.map fun entry => entry.2.line grammar false entry.1) := by
    rw [List.forall₂_map_left_iff, List.forall₂_map_right_iff]
    exact hpreorder.imp hline
  rw [List.forall₂_eq_eq_eq] at hlines
  exact congrArg String.join hlines

end Outline

end Pushdown.Tree
