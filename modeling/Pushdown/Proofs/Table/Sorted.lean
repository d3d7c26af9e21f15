import Pushdown.Proofs.LabelSet
import Pushdown.Proofs.Table.Renumbered

/-!
Tables with their first labels in ascending order. The order of the first labels is all that a grammar does not keep
of its table.
-/

namespace Pushdown

/-- The nonterminal with its first labels in ascending order, each named once. -/
def SymbolEntry.sorted (symbol : SymbolEntry) : SymbolEntry :=
  { symbol with first := (LabelSet.ofList symbol.first).labels }

theorem SymbolEntry.mem_sorted_first_iff (symbol : SymbolEntry) (label : Label) :
    label ∈ symbol.sorted.first ↔ label ∈ symbol.first := LabelSet.mem_ofList

namespace Table

/-- The table with the first labels of all nonterminals in ascending order, each named once. -/
def sorted (table : Table) : Table := { table with symbols := table.symbols.map SymbolEntry.sorted }

variable (table : Table)

theorem sorted_symbols_size : table.sorted.symbols.size = table.symbols.size := Array.size_map

theorem sorted_symbols_getElem? (i : Nat) :
    table.sorted.symbols[i]? = table.symbols[i]?.map SymbolEntry.sorted := Array.getElem?_map

theorem checkEntry_sorted : table.sorted.checkEntry = table.checkEntry := by
  funext label entry
  cases entry with
  | token kind text => rfl
  | symbol id => rw [checkEntry, sorted_symbols_size, checkEntry]

theorem rearranged_sorted : table.Rearranged (.refl Nat) table.sorted := by
  apply table.rearranged_of_symbols table.sorted_symbols_size
  intro i symbol symbol' hsymbol hsymbol'
  have hsorted : table.sorted.symbols[i]? = some symbol' := hsymbol'
  rw [sorted_symbols_getElem?, hsymbol] at hsorted
  cases hsorted
  exact ⟨rfl, rfl⟩

theorem sorted_compiledState : table.sorted.CompiledState = table.CompiledState := by
  funext entry state
  apply propext
  have hconsumes := table.rearranged_sorted.consumes_eq
  constructor
  · rintro ⟨hentry, hdeterministic, hascending, hmem⟩
    rw [hconsumes] at hdeterministic hmem
    exact ⟨hentry, hdeterministic, hascending, hmem⟩
  · rintro ⟨hentry, hdeterministic, hascending, hmem⟩
    rw [← hconsumes] at hdeterministic hmem
    exact ⟨hentry, hdeterministic, hascending, hmem⟩

variable {table}

theorem WellFormed.sorted (h : table.WellFormed) : table.sorted.WellFormed := by
  apply h.rearranged table.rearranged_sorted
  · intro symbol hsymbol
    obtain ⟨original, -, rfl⟩ := Array.mem_map.1 hsymbol
    exact LabelSet.nodup _
  · intro i symbol hsymbol label
    rw [sorted_symbols_getElem?] at hsymbol
    obtain ⟨original, horiginal, rfl⟩ := Option.map_eq_some_iff.1 hsymbol
    rw [table.rearranged_sorted.firstLabel_eq, original.mem_sorted_first_iff]
    exact h.first_exact i original horiginal label

/-- The grammar that a table describes is the one that it describes when its first labels are in order. -/
theorem Describes.of_sorted {grammar : Grammar} (h : table.sorted.Describes grammar) : table.Describes grammar where
  labels_eq := h.labels_eq
  size_eq := h.size_eq.trans table.sorted_symbols_size
  automaton := by
    intro i symbol hsymbol
    have hsorted : table.sorted.symbols[i]? = some symbol.sorted := by
      rw [sorted_symbols_getElem?, hsymbol, Option.map_some]
    obtain ⟨automaton, hautomaton, hcompiled⟩ := h.automaton i symbol.sorted hsorted
    refine ⟨automaton, hautomaton, hcompiled.symbol_eq, hcompiled.name_eq, hcompiled.size_eq, ?_, ?_⟩
    · rw [← sorted_compiledState]
      exact hcompiled.state
    · rw [← table.rearranged_sorted.firstLabel_eq]
      exact hcompiled.mem_first_iff

theorem compileStarts_sorted (table : Table) : table.sorted.compileStarts = table.compileStarts := by
  have hfind : ∀ name, table.sorted.symbols.findIdx? (·.name = name) = table.symbols.findIdx? (·.name = name) := by
    intro name
    rw [sorted, Array.findIdx?_map]
    rfl
  unfold compileStarts
  simp only [hfind]
  rfl

end Table

end Pushdown
