import Pushdown.Code

/-!
Finite sets of labels, kept as ascending lists. Two sets with the same members are the same list.
-/

namespace Pushdown

/-- A set of labels. -/
structure LabelSet where
  labels : List Label
  ascending : labels.Pairwise (· < ·)
deriving DecidableEq, Repr

namespace LabelSet

def empty : LabelSet := ⟨[], .nil⟩

/-- Puts a label at its place in an ascending list that may have it already. -/
def place (label : Label) : List Label → List Label
  | [] => [label]
  | head :: rest =>
    if label < head then label :: head :: rest
    else if label = head then head :: rest
    else head :: place label rest

theorem mem_place {label other : Label} {labels : List Label} :
    other ∈ place label labels ↔ other = label ∨ other ∈ labels := by
  induction labels with
  | nil => simp [place]
  | cons head rest ih =>
    rw [place]
    split
    · simp
    · split
      · rename_i heq
        simp [heq]
      · simp only [List.mem_cons, ih]
        exact or_left_comm

theorem place_ascending {label : Label} {labels : List Label} (h : labels.Pairwise (· < ·)) :
    (place label labels).Pairwise (· < ·) := by
  induction labels with
  | nil => simp [place]
  | cons head rest ih =>
    obtain ⟨hhead, hrest⟩ := List.pairwise_cons.1 h
    rw [place]
    split
    · rename_i hlt
      refine List.pairwise_cons.2 ⟨?_, h⟩
      intro other hother
      rcases List.mem_cons.1 hother with rfl | hother
      · exact hlt
      · exact UInt16.lt_trans hlt (hhead other hother)
    · split
      · exact h
      · rename_i hlt hne
        refine List.pairwise_cons.2 ⟨?_, ih hrest⟩
        intro other hother
        rcases mem_place.1 hother with rfl | hother
        · exact UInt16.lt_of_le_of_ne (UInt16.not_lt.1 hlt) fun heq =>
            hne (congrArg Label.mk heq.symm)
        · exact hhead other hother

def insert (set : LabelSet) (label : Label) : LabelSet :=
  ⟨place label set.labels, place_ascending set.ascending⟩

/-- The set of the labels of a list. -/
def ofList (labels : List Label) : LabelSet := labels.foldl insert empty

def union (a b : LabelSet) : LabelSet := b.labels.foldl insert a

instance : Membership Label LabelSet := ⟨fun set label => label ∈ set.labels⟩

instance (label : Label) (set : LabelSet) : Decidable (label ∈ set) :=
  inferInstanceAs (Decidable (label ∈ set.labels))

theorem mem_insert {set : LabelSet} {label other : Label} :
    other ∈ set.insert label ↔ other = label ∨ other ∈ set :=
  mem_place

theorem mem_foldl_insert {labels : List Label} {set : LabelSet} {other : Label} :
    other ∈ labels.foldl insert set ↔ other ∈ set ∨ other ∈ labels := by
  induction labels generalizing set with
  | nil => simp
  | cons label rest ih =>
    rw [List.foldl_cons, ih, mem_insert, List.mem_cons]
    constructor
    · rintro ((h | h) | h)
      · exact .inr (.inl h)
      · exact .inl h
      · exact .inr (.inr h)
    · rintro (h | h | h)
      · exact .inl (.inr h)
      · exact .inl (.inl h)
      · exact .inr h

/-- Nothing is added and nothing is lost. -/
theorem mem_ofList {labels : List Label} {label : Label} : label ∈ ofList labels ↔ label ∈ labels := by
  rw [ofList, mem_foldl_insert]
  exact ⟨fun h => h.resolve_left List.not_mem_nil, .inr⟩

theorem mem_union {a b : LabelSet} {label : Label} : label ∈ a.union b ↔ label ∈ a ∨ label ∈ b :=
  mem_foldl_insert

end LabelSet

end Pushdown
