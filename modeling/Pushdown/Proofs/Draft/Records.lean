import Pushdown.Proofs.Draft.History
import Pushdown.Proofs.Draft.Table
import Pushdown.Proofs.Grammar.Compiled

/-!
A draft records exactly what it has been told. Its table is determined by the steps, whatever their order is and however
the nonterminals take turns.
-/

namespace Pushdown.Draft

/-- The table says what the steps have said. -/
structure Records (steps : List Step) (table : Table) : Prop where
  /-- A kind of tokens has the name that it was given last, and without one it has none. -/
  tokenName_eq : ∀ kind, table.tokenNames.get? kind = (steps.filterMap (Step.named? kind)).getLast?
  /-- The nonterminals stand in the order in which their names were first declared. -/
  names_eq : table.symbols.toList.map (·.name) = (steps.filterMap Step.declared?).eraseDups
  /-- Each declaration of a name, also a repeated one, has given the id of the nonterminal. -/
  declared_id : ∀ before name after, steps = before ++ .declare name :: after →
    ∃ earlier i symbol, run before = .ok earlier ∧ table.symbols[i]? = some symbol ∧ symbol.name = name ∧
      (earlier.declare name).1.code.toNat = 256 + i
  /-- The label entries stand in the order of their first use. -/
  labels_eq : table.labels.toList = (steps.filterMap Step.entry?).eraseDups
  labels_nodup : table.labels.toList.Nodup
  /-- The states go up to the largest one that has been mentioned. -/
  size_eq : ∀ (i : Nat) symbol, table.symbols[i]? = some symbol → ∃ largest ∈ steps.flatMap (Step.states i),
    symbol.states.size = largest.toNat + 1 ∧ ∀ number ∈ steps.flatMap (Step.states i), number ≤ largest
  /-- Each state has the arcs that were added to it, in their order. -/
  arcs_eq : ∀ (i : Nat) symbol, table.symbols[i]? = some symbol → ∀ (j : Nat) state, symbol.states[j]? = some state →
    state.arcs.map (fun arc => (table.labels[arc.label.index]?, arc.target)) =
      (steps.filterMap (Step.arc? i j)).map fun added => (some added.1, added.2)
  accepting_iff : ∀ (i : Nat) symbol, table.symbols[i]? = some symbol → ∀ (j : Nat) state,
    symbol.states[j]? = some state → (state.accepting = true ↔ ∃ step ∈ steps, step.accepts i j = true)
  /-- The first column lists the terminal labels that can begin the nonterminal. -/
  first_ascending : ∀ symbol ∈ table.symbols, symbol.first.Pairwise (· < ·)
  first_exact : ∀ (i : Nat) symbol, table.symbols[i]? = some symbol →
    ∀ label, label ∈ symbol.first ↔ table.FirstLabel i label
  /-- The start names stand in the order in which they were first registered. -/
  start_names : table.starts.entries.map Prod.fst = ((steps.filterMap Step.started?).map Prod.fst).eraseDups
  /-- Each stands for the nonterminal that it was given last. -/
  start_last : ∀ entry ∈ table.starts.entries, ∃ before id after symbol,
    steps.filterMap Step.started? = before ++ (entry.1, id) :: after ∧ (∀ later ∈ after, later.1 ≠ entry.1) ∧
      table.symbols[id.index]? = some symbol ∧ symbol.name = entry.2

variable {steps : List Step} {draft : Draft} {table : Table}

theorem completed_of_table (h : draft.table = .ok table) : draft.Completed table := by
  have hmeets := draft.table_meets
  rwa [h] at hmeets

section Completed

variable (hc : draft.Completed table)

include hc

theorem Completed.names_eq : table.symbols.toList.map (·.name) = draft.names := hc.rearranged.names_eq

theorem Completed.states_eq {i : Nat} {symbol : SymbolEntry} (h : table.symbols[i]? = some symbol) :
    draft.states i = symbol.states := by
  obtain ⟨original, horiginal, -, hstates⟩ := hc.symbol i symbol h
  rw [states_of_symbol horiginal, hstates]

theorem Completed.stateIn_eq {i j : Nat} {symbol : SymbolEntry} (h : table.symbols[i]? = some symbol)
    {state : StateEntry} (hstate : symbol.states[j]? = some state) : stateIn (draft.states i) j = state := by
  rw [hc.states_eq h, stateIn, hstate]
  rfl

theorem Completed.exists_symbol_of_name {i : Nat} {name : String} (h : draft.names[i]? = some name) :
    ∃ symbol, table.symbols[i]? = some symbol ∧ symbol.name = name := by
  rw [← hc.names_eq, List.getElem?_map, Array.getElem?_toList] at h
  exact Option.map_eq_some_iff.1 h

end Completed

/-- The labels of a table have numbers of their own. -/
theorem labels_labelIn {labels : Array LabelEntry} (hle : labels.size ≤ 65535) {entry : LabelEntry}
    (h : entry ∈ labels.toList) : labels[(labelIn labels.toList entry).index]? = some entry := by
  have hlt := List.idxOf_lt_length_of_mem h
  rw [Array.length_toList] at hlt
  rw [index_labelIn, Nat.min_eq_left (by omega), ← Array.getElem?_toList, List.getElem?_idxOf h]

theorem Kept.names_of_prefix {before after : List Step} {earlier : Draft} (hearlier : Kept before earlier)
    (h : Kept (before ++ after) draft) : earlier.names <+: draft.names := by
  rw [hearlier.names_eq, h.names_eq, List.filterMap_append, List.eraseDups_append]
  exact List.prefix_append _ _

/-- The id that a declaration has given is that of the nonterminal in the end. -/
theorem Kept.declared_id {before after : List Step} {name : String} (h : Kept (before ++ .declare name :: after) draft)
    {earlier : Draft} (hearlier : Kept before earlier) :
    ∃ i, draft.names[i]? = some name ∧ (earlier.declare name).1 = .ofIndex i := by
  -- After the declaration the name has its position, and what has a position keeps it to the end.
  have hnext := hearlier.moves (moves_declare earlier name)
  rw [List.append_cons] at h
  obtain ⟨rest, hrest⟩ := hnext.names_of_prefix h
  rw [names_declare] at hrest
  have hmem := mem_addNew_self earlier.names name
  refine ⟨_, ?_, declare_id earlier name⟩
  rw [← hrest, ← idxOf_addNew_self, List.getElem?_append_left (List.idxOf_lt_length_of_mem hmem),
    List.getElem?_idxOf hmem]

/-- The states that have been mentioned are those that are there. -/
theorem Kept.exists_largest (h : Kept steps draft) {i : Nat} (hpos : 0 < (draft.states i).size) :
    ∃ largest ∈ steps.flatMap (Step.states i), (draft.states i).size = largest.toNat + 1 ∧
      ∀ number ∈ steps.flatMap (Step.states i), number ≤ largest := by
  rw [h.size_eq] at hpos ⊢
  obtain ⟨largest, hlargest, hspan⟩ := exists_of_span_pos hpos
  refine ⟨largest, hlargest, hspan, ?_⟩
  intro number hnumber
  have hlt := lt_span hnumber
  apply UInt32.le_iff_toNat_le.2
  omega

/-- Read through the labels, the arcs of a state are what the steps have added to it. -/
theorem Kept.arcs_decoded (h : Kept steps draft) (hle : draft.labels.size ≤ 65535) (i j : Nat) :
    (stateIn (draft.states i) j).arcs.map (fun arc => (draft.labels[arc.label.index]?, arc.target)) =
      (steps.filterMap (Step.arc? i j)).map fun added => (some added.1, added.2) := by
  rw [h.arcs_eq, List.map_map]
  apply List.map_congr_left
  intro added hadded
  exact Prod.ext (labels_labelIn hle (h.entry_mem hadded)) rfl

/--
The table of a draft holds what the steps have said, and nothing else: the names of kinds of tokens, the nonterminals
with their ids, the states, the arcs in their order, the label entries, what can begin each nonterminal, and the start
names.
-/
theorem table_records (hrun : run steps = .ok draft) (htable : draft.table = .ok table) : Records steps table := by
  have hkept := kept_of_run hrun
  have hc := completed_of_table htable
  have hs := hc.structured.rearranged hc.rearranged
  exact {
    tokenName_eq := fun kind => by
      rw [hc.rearranged.tokenNames_eq]
      exact hkept.tokenName_eq kind
    names_eq := hc.names_eq.trans hkept.names_eq
    declared_id := by
      rintro before name after rfl
      obtain ⟨earlier, hearlier, -⟩ := exists_run_of_prefix hrun
      obtain ⟨i, hi, hid⟩ := hkept.declared_id (kept_of_run hearlier)
      obtain ⟨symbol, hsymbol, hname⟩ := hc.exists_symbol_of_name hi
      refine ⟨earlier, i, symbol, hearlier, hsymbol, hname, ?_⟩
      have hlt := (Array.getElem?_eq_some_iff.1 hsymbol).1
      have hle := hs.symbols_le
      rw [hid, SymbolId.toNat_code_ofIndex i (by omega)]
    labels_eq := by rw [hc.labels_eq, hkept.labels_eq]
    labels_nodup := hs.labels_nodup
    size_eq := by
      intro i symbol hsymbol
      -- A nonterminal of a table has an initial state, so some step has mentioned a state of it.
      obtain ⟨initial, hinitial, -⟩ := hs.initial symbol (Array.mem_of_getElem? hsymbol)
      have hpos := (Array.getElem?_eq_some_iff.1 hinitial).1
      rw [← hc.states_eq hsymbol] at hpos ⊢
      exact hkept.exists_largest hpos
    arcs_eq := by
      intro i symbol hsymbol j state hstate
      rw [hc.labels_eq, ← hc.stateIn_eq hsymbol hstate]
      exact hkept.arcs_decoded hc.structured.labels_le i j
    accepting_iff := by
      intro i symbol hsymbol j state hstate
      rw [← hc.stateIn_eq hsymbol hstate, hkept.accepting_eq, List.any_eq_true]
    first_ascending := hc.first_ascending
    first_exact := hc.first_exact
    start_names := by
      rw [hc.rearranged.starts_eq]
      exact hkept.start_names
    start_last := by
      intro entry hentry
      rw [hc.rearranged.starts_eq] at hentry
      obtain ⟨before, id, after, hbefore, hlast, hname⟩ := hkept.start_last entry hentry
      obtain ⟨symbol, hsymbol, hname⟩ := hc.exists_symbol_of_name hname
      exact ⟨before, id, after, symbol, hbefore, hlast, hsymbol, hname⟩ }

/-- Steps that draft the table `Table.nested`. The nonterminal is declared twice, and its tokens are named twice. -/
def nestedSteps : List Step := [
  .nameToken .name "WORD",
  .declare "S",
  .arc (.ofIndex 0) 0 (.token .name (some "a")) 1,
  .arc (.ofIndex 0) 2 (.token .name (some "b")) 3,
  .arc (.ofIndex 0) 0 (.token .name (some "c")) 3,
  .declare "S",
  .nameToken .name "LETTER",
  .arc (.ofIndex 0) 1 (.symbol (.ofIndex 0)) 2,
  .start "s" (.ofIndex 0),
  .accept (.ofIndex 0) 3]

def nested : Draft where
  tokenNames := Table.nested.tokenNames
  labels := Table.nested.labels
  symbols := #[{
    name := "S"
    states := #[⟨[⟨⟨0⟩, 1⟩, ⟨⟨2⟩, 3⟩], false⟩, ⟨[⟨⟨3⟩, 2⟩], false⟩, ⟨[⟨⟨1⟩, 3⟩], false⟩, ⟨[], true⟩]
    first := [] }]
  starts := StartMap.empty.insert "s" "S"

theorem run_nested : run nestedSteps = .ok nested := by cbv

theorem table_nested : nested.table = .ok .nested := by
  -- The names and labels are those of the table, and its checks of them have succeeded.
  have hcheck : nested.skeleton.checkStructure = .ok () := by
    have hnames : Table.checkNames ∅ (nested.skeleton.symbols.toList.map (·.name)) = .ok () := by
      simp [nested, skeleton, Table.checkNames]
    have hlabels : nested.skeleton.checkLabels ∅ 0 nested.skeleton.labels.toList = .ok () := by
      simp [nested, skeleton, Table.nested, Table.checkLabels]
      cbv
    rw [Table.checkStructure, hnames, hlabels]
    cbv
  rw [Draft.table]
  simp only [hcheck]
  cbv

theorem table_records_nested : Records nestedSteps .nested := table_records run_nested table_nested

end Pushdown.Draft
