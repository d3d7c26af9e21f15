import Mathlib.Data.List.Chain
import Mathlib.Data.List.Forall2
import Pushdown.Tree.Traversal

/-!
Copies and comparisons of trees. Both walk along lists of what is pending, and both come to what recursion on the trees
would come to: a copy is the tree itself, and trees are found to be equal just if they are.
-/

namespace Pushdown.Tree

namespace Copying

variable {work parent : Copying} {child : Tree}

/-- The copies made so far are the first children of the source. -/
def Faithful (work : Copying) : Prop := work.copied.reverse = work.source.children.take work.copied.length

/-- The first node is the child that the second one waits for. -/
def Awaited (work parent : Copying) : Prop := parent.next? = some work.source

theorem Faithful.start (tree : Tree) : (start tree).Faithful := by
  rw [Faithful, Copying.start, List.reverse_nil, List.length_nil, List.take_zero]

theorem Faithful.add (h : work.Faithful) (hnext : work.next? = some child) : (work.add child).Faithful := by
  rw [next?] at hnext
  rw [Faithful, Copying.add, List.reverse_cons, List.length_cons, List.take_add_one, hnext, h, Option.toList_some]

/-- A copy that has as many children as its source is equal to it. -/
theorem Faithful.copy_eq (h : work.Faithful) (hdone : work.next? = none) : work.copy = work.source := by
  have hle : work.source.children.length ≤ work.copied.length := List.getElem?_eq_none_iff.1 hdone
  have hall : work.copied.reverse = work.source.children := Eq.trans h (List.take_of_length_le hle)
  obtain ⟨source, copied⟩ := work
  cases source with
  | leaf token => rfl
  | node symbol children => exact congrArg (Tree.node symbol) hall

end Copying

/-- Of nodes that are copied faithfully, and each of which is the child of the next, the last one is what is copied. -/
theorem copyFrom_eq {pending : List Copying} (hfaithful : ∀ work ∈ pending, work.Faithful)
    (hawaited : pending.IsChain Copying.Awaited) : copyFrom pending = pending.getLast?.map Copying.source := by
  -- Both hypotheses are kept by every turn of the loop, and so is the source of the last node.
  fun_induction copyFrom pending with
  | case1 => rfl
  | case2 work above child hnext ih =>
    have hcopy := ih (List.forall_mem_cons.2 ⟨.start child, hfaithful⟩) (hawaited.cons_cons hnext)
    rw [hcopy, List.getLast?_cons_cons]
  | case3 work hdone =>
    have hwork := List.forall_mem_singleton.1 hfaithful
    rw [hwork.copy_eq hdone, List.getLast?_singleton, Option.map_some]
  | case4 work hdone parent above ih =>
    obtain ⟨hwork, hrest⟩ := List.forall_mem_cons.1 hfaithful
    obtain ⟨hparent, habove⟩ := List.forall_mem_cons.1 hrest
    obtain ⟨hnext, hchain⟩ := List.isChain_cons_cons.1 hawaited
    rw [hwork.copy_eq hdone] at ih ⊢
    -- A further copy does not change the source of the parent.
    have hadded : (parent.add work.source :: above).IsChain Copying.Awaited := by
      rw [List.isChain_cons] at hchain ⊢
      exact hchain
    have hcopy := ih (List.forall_mem_cons.2 ⟨hparent.add hnext, habove⟩) hadded
    rw [hcopy, List.getLast?_cons_cons]
    cases above with
    | nil => rfl
    | cons next above => rw [List.getLast?_cons_cons, List.getLast?_cons_cons]

theorem copyFrom_start (tree : Tree) : copyFrom [.start tree] = some tree :=
  copyFrom_eq (List.forall_mem_singleton.2 (.start tree)) (.singleton _)

theorem eq_iff_zip {as bs : List Tree} :
    as = bs ↔ as.length = bs.length ∧ ∀ pair ∈ as.zip bs, pair.1 = pair.2 := by
  have hforall : List.Forall₂ Eq as bs ↔ as.length = bs.length ∧ ∀ {a b}, (a, b) ∈ as.zip bs → a = b :=
    List.forall₂_iff_zip
  rw [List.forall₂_eq_eq_eq] at hforall
  exact hforall.trans (and_congr_right fun _ => ⟨fun h _ hpair => h hpair, fun h _ _ hpair => h _ hpair⟩)

theorem equalAll_iff (pending : List (Tree × Tree)) : equalAll pending = true ↔ ∀ pair ∈ pending, pair.1 = pair.2 := by
  fun_induction equalAll pending with
  | case1 => exact ⟨fun _ _ hpair => absurd hpair List.not_mem_nil, fun _ => rfl⟩
  | case2 a b pending ih =>
    rw [Bool.and_eq_true, decide_eq_true_iff, ih, List.forall_mem_cons, leaf.injEq]
  | case3 a as b bs pending ih =>
    rw [Bool.and_eq_true, Bool.and_eq_true, decide_eq_true_iff, decide_eq_true_iff, ih, List.forall_mem_append,
      List.forall_mem_cons, node.injEq, eq_iff_zip]
    simp only [List.mem_reverse, and_assoc]
  | case4 token symbol children pending => simp
  | case5 symbol children token pending => simp

/--
Copying and comparing trees with lists of pending nodes come to what recursion comes to. There always is a copy, and it
is the tree; two trees are found to be equal if and only if they have the same nodes, tokens and children.
-/
theorem copy_eq_and_equal_iff (a b : Tree) :
    copyFrom [.start a] = some a ∧ a.copy = a ∧ (a.equal b = true ↔ a = b) := by
  refine ⟨copyFrom_start a, ?_, ?_⟩
  · simp only [copy, copyFrom_start, Option.get_some]
  · rw [equal, equalAll_iff, List.forall_mem_singleton]

end Pushdown.Tree
