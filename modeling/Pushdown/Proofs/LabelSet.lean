import Mathlib.Data.List.Perm.Subperm
import Pushdown.Grammar.LabelSet

/-! Sets of labels as lists. A set is determined by its members, and it lists each of them once. -/

namespace Pushdown

theorem Label.lt_irrefl (label : Label) : ¬ label < label := UInt16.lt_irrefl label.code

theorem Label.lt_trans {a b c : Label} (hab : a < b) (hbc : b < c) : a < c := UInt16.lt_trans hab hbc

theorem Label.lt_of_not_lt (a b : Label) (h : ¬ a < b) (hne : a ≠ b) : b < a :=
  UInt16.lt_of_le_of_ne (UInt16.not_lt.1 h) fun heq => hne (congrArg Label.mk heq.symm)

/-- Lists in the same strict order that have the same members are equal. -/
theorem eq_of_pairwise_of_mem_iff {α : Type} {before : α → α → Prop} (hasymm : ∀ a b, before a b → ¬ before b a)
    {as bs : List α} (has : as.Pairwise before) (hbs : bs.Pairwise before) (hmem : ∀ a, a ∈ as ↔ a ∈ bs) :
    as = bs := by
  have hne : ∀ {a b : α}, before a b → a ≠ b := by
    rintro a b hab rfl
    exact hasymm a a hab hab
  have hperm : as.Perm bs := (List.perm_ext_iff_of_nodup (has.imp hne) (hbs.imp hne)).2 hmem
  apply hperm.eq_of_pairwise _ has hbs
  intro a b _ _ hab hba
  exact absurd hba (hasymm a b hab)

theorem Label.nodup_of_ascending {labels : List Label} (h : labels.Pairwise (· < ·)) : labels.Nodup := by
  refine h.imp ?_
  rintro a b hlt rfl
  exact Label.lt_irrefl _ hlt

namespace LabelSet

theorem nodup (set : LabelSet) : set.labels.Nodup := Label.nodup_of_ascending set.ascending

theorem eq_of_mem_iff (a b : LabelSet) (h : ∀ label, label ∈ a ↔ label ∈ b) : a = b := by
  have heq : a.labels = b.labels := by
    apply eq_of_pairwise_of_mem_iff _ a.ascending b.ascending h
    exact fun _ _ hlt hgt => Label.lt_irrefl _ (Label.lt_trans hlt hgt)
  cases a
  cases b
  cases heq
  rfl

/-- The set of a list without repetitions has the labels of the list, sorted. -/
theorem labels_ofList_eq_mergeSort {labels : List Label} (h : labels.Nodup) :
    (ofList labels).labels = labels.mergeSort (· ≤ ·) := by
  have hperm : (labels.mergeSort (· ≤ ·)).Perm labels := List.mergeSort_perm labels _
  have hsorted : (labels.mergeSort (· ≤ ·)).Pairwise (· ≤ ·) := by
    refine (List.pairwise_mergeSort ?_ ?_ labels).imp of_decide_eq_true
    · exact fun _ _ _ hab hbc => decide_eq_true (UInt16.le_trans (of_decide_eq_true hab) (of_decide_eq_true hbc))
    · intro a b
      rw [Bool.or_eq_true, decide_eq_true_iff, decide_eq_true_iff]
      exact UInt16.le_total a.code b.code
  have hascending : (labels.mergeSort (· ≤ ·)).Pairwise (· < ·) := by
    refine (hsorted.and (hperm.nodup_iff.2 h)).imp ?_
    rintro a b ⟨hle, hne⟩
    exact UInt16.lt_of_le_of_ne hle fun hcode => hne (congrArg Label.mk hcode)
  apply eq_of_pairwise_of_mem_iff _ (ofList labels).ascending hascending
  · exact fun label => mem_ofList.trans hperm.mem_iff.symm
  · exact fun _ _ hlt hgt => Label.lt_irrefl _ (Label.lt_trans hlt hgt)

/-- A list names each member of a set once if it makes the set and is no longer than it. -/
theorem ofList_eq_and_length_eq_iff (labels : List Label) (set : LabelSet) :
    ofList labels = set ∧ labels.length = set.labels.length ↔
      labels.Nodup ∧ ∀ label, label ∈ labels ↔ label ∈ set := by
  constructor
  · rintro ⟨rfl, hlength⟩
    have hmem : ∀ label, label ∈ labels ↔ label ∈ ofList labels := fun _ => mem_ofList.symm
    have hsub : (ofList labels).labels ⊆ labels := fun label hlabel => mem_ofList.1 hlabel
    have hperm := ((ofList labels).nodup.subperm hsub).perm_of_length_le (Nat.le_of_eq hlength)
    exact ⟨hperm.nodup_iff.1 (ofList labels).nodup, hmem⟩
  · rintro ⟨hnodup, hmem⟩
    refine ⟨eq_of_mem_iff _ _ fun label => mem_ofList.trans (hmem label), ?_⟩
    exact ((List.perm_ext_iff_of_nodup hnodup set.nodup).2 hmem).length_eq

end LabelSet

end Pushdown
