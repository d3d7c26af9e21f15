import Pushdown.Proofs.Draft.Records
import Pushdown.Proofs.Table.Json

/-!
A draft cannot contradict itself. Its names and labels differ, and its arcs and start names lead to what there is, so
all that can be wrong with it is what it has been told.
-/

namespace Pushdown.Draft

variable {steps : List Step} {draft : Draft} {table : Table}

section Consistent

variable (hkept : Kept steps draft)

include hkept

theorem Kept.exists_added {i j : Nat} {arc : Arc} (harc : arc ∈ (stateIn (draft.states i) j).arcs) :
    ∃ added ∈ steps.filterMap (Step.arc? i j), arc = ⟨labelIn draft.labels.toList added.1, added.2⟩ := by
  rw [hkept.arcs_eq, List.mem_map] at harc
  obtain ⟨added, hadded, rfl⟩ := harc
  exact ⟨added, hadded, rfl⟩

/-- A label that has been given out is in range, even one that several entries share. -/
theorem Kept.label_lt {i j : Nat} {arc : Arc} (harc : arc ∈ (stateIn (draft.states i) j).arcs) :
    arc.label.index < draft.labels.size := by
  obtain ⟨added, hadded, rfl⟩ := hkept.exists_added harc
  have hlt := List.idxOf_lt_length_of_mem (hkept.entry_mem hadded)
  rw [Array.length_toList] at hlt
  rw [index_labelIn]
  omega

theorem Kept.target_lt {i j : Nat} {arc : Arc} (harc : arc ∈ (stateIn (draft.states i) j).arcs) :
    arc.target.toNat < (draft.states i).size := by
  obtain ⟨added, hadded, rfl⟩ := hkept.exists_added harc
  rw [hkept.size_eq]
  exact lt_span (Step.target_mem_states hadded)

theorem Kept.start_exists : ∀ entry ∈ draft.starts.entries, ∃ symbol ∈ draft.symbols, symbol.name = entry.2 := by
  intro entry hentry
  obtain ⟨before, id, after, -, -, hname⟩ := hkept.start_last entry hentry
  rw [names_getElem?, Option.map_eq_some_iff] at hname
  obtain ⟨symbol, hsymbol, hname⟩ := hname
  exact ⟨symbol, Array.mem_of_getElem? hsymbol, hname⟩

theorem Kept.size_symbols : draft.symbols.size = (steps.filterMap Step.declared?).eraseDups.length := by
  rw [← hkept.names_eq, names, List.length_map, Array.length_toList]

theorem Kept.consistent (hsize : (steps.filterMap Step.declared?).eraseDups.length ≤ 65280) :
    draft.skeleton.Consistent := by
  -- An arc of the draft stands at some position, and what is at a position is known from the steps.
  have harcs : ∀ symbol ∈ draft.symbols, ∀ state ∈ symbol.states, ∀ arc ∈ state.arcs, ∃ i j,
      draft.states i = symbol.states ∧ arc ∈ (stateIn (draft.states i) j).arcs := by
    intro symbol hsymbol state hstate arc harc
    obtain ⟨i, hi⟩ := Array.mem_iff_getElem?.1 hsymbol
    obtain ⟨j, hj⟩ := Array.mem_iff_getElem?.1 hstate
    refine ⟨i, j, states_of_symbol hi, ?_⟩
    rw [states_of_symbol hi, stateIn, hj]
    exact harc
  have hnames : draft.names.Nodup := hkept.names_eq ▸ nodup_eraseDups _
  exact {
    version := rfl
    symbols_le := hkept.size_symbols ▸ hsize
    names_nodup := hnames
    labels_nodup := by
      show draft.labels.toList.Nodup
      rw [hkept.labels_eq]
      exact nodup_eraseDups _
    label_lt := by
      intro symbol hsymbol state hstate arc harc
      obtain ⟨i, j, -, hmem⟩ := harcs symbol hsymbol state hstate arc harc
      exact hkept.label_lt hmem
    target_lt := by
      intro symbol hsymbol state hstate arc harc
      obtain ⟨i, j, hstates, hmem⟩ := harcs symbol hsymbol state hstate arc harc
      rw [← hstates]
      exact hkept.target_lt hmem
    start_exists := hkept.start_exists }

end Consistent

theorem Completed.filled (hc : draft.Completed table) (hconsistent : draft.skeleton.Consistent) : table.Filled :=
  hc.structured.fill hc.rearranged hc.acyclic hconsistent.start_exists
    (fun symbol hsymbol => Label.nodup_of_ascending (hc.first_ascending symbol hsymbol)) hc.first_exact

theorem not_isContradiction_of_table (hconsistent : draft.skeleton.Consistent) {defect : Defect}
    (h : draft.table = .error defect) : defect.isContradiction = false := by
  have hmeets := draft.table_meets
  rw [h] at hmeets
  have hstructural : defect.StructuralIn draft.skeleton := hmeets
  apply Bool.eq_false_iff.2
  intro hkind
  refine hconsistent.not_realIn hkind ?_ hstructural.realIn
  -- First columns are not compared before they have been written.
  rintro name rfl
  exact hstructural

theorem ofTable_cases_of_filled (h : table.Filled) :
    (∃ grammar, Grammar.ofTable table = .ok grammar) ∨ Grammar.ofTable table = .error .noStarts ∨
      ∃ name number label, Grammar.ofTable table = .error (.ambiguous name number label) := by
  have hmeets := table.ofTable_meets
  cases hresult : Grammar.ofTable table with
  | ok grammar => exact .inl ⟨grammar, rfl⟩
  | error defect =>
    rw [hresult] at hmeets
    rcases h.realIn_cases hmeets with ⟨name, number, label, rfl⟩ | rfl
    · exact .inr (.inr ⟨name, number, label, rfl⟩)
    · exact .inr (.inl rfl)

/--
A draft of at most 65280 nonterminals never fails because of its version, its size, names or labels that occur twice,
labels, states or start symbols that do not exist, or first labels that are wrong. Once it has a table, the grammar of
the table is that of the draft, it can be written as JSON and read again, and all that can still be wrong is that a
state is ambiguous or that there is no start name.
-/
theorem table_consistent (hrun : run steps = .ok draft)
    (hsize : (steps.filterMap Step.declared?).eraseDups.length ≤ 65280) :
    (∀ defect, draft.table = .error defect → defect.isContradiction = false) ∧
    (∀ defect, draft.grammar = .error defect → defect.isContradiction = false) ∧
    ∀ table, draft.table = .ok table →
      draft.grammar = Grammar.ofTable table ∧
      (∀ explain, Grammar.load explain table.toJson.pretty = Grammar.ofTable table) ∧
      (∀ explain, Grammar.load explain table.toJson.compact = Grammar.ofTable table) ∧
      ((∃ grammar, Grammar.ofTable table = .ok grammar) ∨ Grammar.ofTable table = .error .noStarts ∨
        ∃ name number label, Grammar.ofTable table = .error (.ambiguous name number label)) := by
  have hconsistent := (kept_of_run hrun).consistent hsize
  have htable : ∀ table, draft.table = .ok table → draft.grammar = Grammar.ofTable table := by
    intro table h
    rw [Draft.grammar, h]
    rfl
  have hcases : ∀ table, draft.table = .ok table → (∃ grammar, Grammar.ofTable table = .ok grammar) ∨
      Grammar.ofTable table = .error .noStarts ∨
        ∃ name number label, Grammar.ofTable table = .error (.ambiguous name number label) :=
    fun table h => ofTable_cases_of_filled ((completed_of_table h).filled hconsistent)
  refine ⟨fun defect => not_isContradiction_of_table hconsistent, ?_, ?_⟩
  · intro defect hdefect
    cases h : draft.table with
    | error early =>
      rw [Draft.grammar, h] at hdefect
      cases hdefect
      exact not_isContradiction_of_table hconsistent h
    | ok table =>
      -- What is wrong with a table that has been completed is no contradiction.
      rw [htable table h] at hdefect
      rcases hcases table h with ⟨grammar, hgrammar⟩ | hnone | ⟨name, number, label, hambiguous⟩
      · cases hdefect.symm.trans hgrammar
      · cases hdefect.symm.trans hnone
        rfl
      · cases hdefect.symm.trans hambiguous
        rfl
  · intro table h
    refine ⟨htable table h, ?_, ?_, hcases table h⟩
    · intro explain
      rw [Grammar.load, table.ofText?_pretty]
    · intro explain
      rw [Grammar.load, table.ofText?_compact]

/-- What `nestedSteps` have drafted can be written in either layout, and is read as the grammar of the draft. -/
theorem table_consistent_nested : ∃ draft table, run nestedSteps = .ok draft ∧ draft.table = .ok table ∧
    draft.grammar = .ok .nested ∧ Grammar.load id table.toJson.pretty = .ok .nested ∧
    Grammar.load id table.toJson.compact = .ok .nested := by
  have hsize : (nestedSteps.filterMap Step.declared?).eraseDups.length ≤ 65280 := by decide
  obtain ⟨-, -, htable⟩ := table_consistent run_nested hsize
  obtain ⟨hgrammar, hpretty, hcompact, -⟩ := htable .nested table_nested
  refine ⟨nested, .nested, run_nested, table_nested, ?_, ?_, ?_⟩
  · rw [hgrammar, Table.ofTable_nested]
  · rw [hpretty, Table.ofTable_nested]
  · rw [hcompact, Table.ofTable_nested]

end Pushdown.Draft
