import Pushdown.Grammar.Draft
import Pushdown.Proofs.Table.Renumbered

/-!
The table of a draft. It is the skeleton with a first column for each nonterminal, and since nothing else is changed,
the columns hold what begins the nonterminals in the skeleton as well as in the table.
-/

namespace Pushdown

namespace Draft

variable {draft : Draft} {table : Table}

/-- The first sets of the draft have become the first column of its table. -/
structure Completed (draft : Draft) (table : Table) : Prop where
  structured : draft.skeleton.Structured
  acyclic : ∀ i, ¬ Relation.TransGen draft.skeleton.BeginsWith i i
  rearranged : draft.skeleton.Rearranged (.refl Nat) table
  labels_eq : table.labels = draft.labels
  symbol : ∀ (i : Nat) symbol, table.symbols[i]? = some symbol →
    ∃ original, draft.symbols[i]? = some original ∧ symbol.name = original.name ∧ symbol.states = original.states
  first_ascending : ∀ symbol ∈ table.symbols, symbol.first.Pairwise (· < ·)
  first_exact : ∀ (i : Nat) symbol, table.symbols[i]? = some symbol →
    ∀ label, label ∈ symbol.first ↔ table.FirstLabel i label

/-- The nonterminals with the first sets as their first columns. -/
def filled (symbols : Array SymbolEntry) (first : Array LabelSet) : Array SymbolEntry :=
  (symbols.zip first).map fun (symbol, set) => { symbol with first := set.labels }

theorem exists_of_filled {symbols : Array SymbolEntry} {first : Array LabelSet} {i : Nat} {symbol : SymbolEntry}
    (h : (filled symbols first)[i]? = some symbol) :
    ∃ original set, symbols[i]? = some original ∧ first[i]? = some set ∧
      symbol = { original with first := set.labels } := by
  rw [filled, Array.getElem?_map, Option.map_eq_some_iff] at h
  obtain ⟨⟨original, set⟩, hzip, rfl⟩ := h
  obtain ⟨horiginal, hset⟩ := Array.getElem?_zip_eq_some.1 hzip
  exact ⟨original, set, horiginal, hset, rfl⟩

theorem rearranged_filled {skeleton : Table} {first : Array LabelSet} (hf : skeleton.ExactFirst first) :
    skeleton.Rearranged (.refl Nat) { skeleton with symbols := filled skeleton.symbols first } := by
  apply skeleton.rearranged_of_symbols
  · rw [filled, Array.size_map, Array.size_zip, hf.size_eq, Nat.min_self]
  · intro i symbol symbol' hsymbol hsymbol'
    obtain ⟨original, set, horiginal, -, rfl⟩ := exists_of_filled hsymbol'
    cases hsymbol.symm.trans horiginal
    exact ⟨rfl, rfl⟩

theorem table_meets (draft : Draft) :
    Meets draft.Completed (Defect.StructuralIn draft.skeleton) draft.table := by
  unfold Draft.table
  refine draft.skeleton.checkStructure_meets.bind fun _ hs => ?_
  refine ((draft.skeleton.firstSets_meets hs).mono (fun _ => id) fun _ => Defect.CycleIn.structuralIn).bind ?_
  rintro first ⟨hf, hsettled⟩
  have hrearranged := rearranged_filled hf
  exact {
    structured := hs
    acyclic := fun i => (hsettled i).not_cycle
    rearranged := hrearranged
    labels_eq := rfl
    symbol := by
      intro i symbol hsymbol
      obtain ⟨original, set, horiginal, -, rfl⟩ := exists_of_filled hsymbol
      exact ⟨original, horiginal, rfl, rfl⟩
    first_ascending := by
      intro symbol hsymbol
      obtain ⟨i, hi⟩ := Array.mem_iff_getElem?.1 hsymbol
      obtain ⟨original, set, -, -, rfl⟩ := exists_of_filled hi
      exact set.ascending
    first_exact := by
      intro i symbol hsymbol label
      obtain ⟨original, set, -, hset, rfl⟩ := exists_of_filled hsymbol
      -- The sets were computed for the skeleton, and the table has the same first labels.
      have hfirst := congrFun (congrFun hrearranged.firstLabel_eq i) label
      exact (hf.mem_iff i set hset label).trans (iff_of_eq hfirst.symm) }

end Draft

end Pushdown
