import Pushdown.Proofs.Grammar.Compiled
import Pushdown.Proofs.Table.Json
import Pushdown.Proofs.Table.Sorted

/-!
Grammars as texts. A table describes one grammar, and this grammar gives the table back, up to the order of its first
labels. So a grammar that is dumped and loaded stays the same.
-/

namespace Pushdown

attribute [ext] State Automaton Grammar

namespace Table

variable {table : Table}

section Unique

theorem CompiledState.unique {entry : StateEntry} {state state' : State} (h : table.CompiledState entry state)
    (h' : table.CompiledState entry state') : state = state' := by
  have harcs : state.arcs = state'.arcs := h.arcs_eq.trans h'.arcs_eq.symm
  have haccepting : state.accepting = state'.accepting := h.accepting_eq.trans h'.accepting_eq.symm
  have hlookup : state.lookup = state'.lookup := by
    apply eq_of_pairwise_of_mem_iff _ h.ascending h'.ascending
    · rintro ⟨label, arc⟩
      rw [h.mem_lookup_iff, h'.mem_lookup_iff, harcs]
    · exact fun _ _ hlt hgt => Label.lt_irrefl _ (Label.lt_trans hlt hgt)
  exact State.ext harcs haccepting hlookup

theorem CompiledSymbol.unique {i : Nat} {symbol : SymbolEntry} {automaton automaton' : Automaton}
    (h : table.CompiledSymbol i symbol automaton) (h' : table.CompiledSymbol i symbol automaton') :
    automaton = automaton' := by
  have hsymbol : automaton.symbol = automaton'.symbol := h.symbol_eq.trans h'.symbol_eq.symm
  have hname : automaton.name = automaton'.name := h.name_eq.trans h'.name_eq.symm
  have hfirst : automaton.first = automaton'.first := by
    apply LabelSet.eq_of_mem_iff
    intro label
    rw [h.mem_first_iff, h'.mem_first_iff]
  have hstates : automaton.states = automaton'.states := by
    apply Array.ext
    · rw [h.size_eq, h'.size_eq]
    · intro j hj hj'
      have hentry := Array.getElem?_eq_getElem (h.size_eq ▸ hj : j < symbol.states.size)
      have hstate := h.state j _ _ hentry (Array.getElem?_eq_getElem hj)
      have hstate' := h'.state j _ _ hentry (Array.getElem?_eq_getElem hj')
      exact hstate.unique hstate'
  exact Automaton.ext hsymbol hname hstates hfirst

theorem Describes.automata_unique {grammar grammar' : Grammar} (h : table.Describes grammar)
    (h' : table.Describes grammar') : grammar.automata = grammar'.automata := by
  apply Array.ext
  · rw [h.size_eq, h'.size_eq]
  · intro i hi hi'
    obtain ⟨symbol, hsymbol, hcompiled⟩ := h.exists_symbol (Array.getElem?_eq_getElem hi)
    obtain ⟨symbol', hsymbol', hcompiled'⟩ := h'.exists_symbol (Array.getElem?_eq_getElem hi')
    obtain rfl := Option.some.inj (hsymbol.symm.trans hsymbol')
    exact hcompiled.unique hcompiled'

end Unique

section Starts

/-- The start name is kept, and the name of a nonterminal has become its id. -/
def CompiledStart (table : Table) (named : String × String) (compiled : String × SymbolId) : Prop :=
  compiled.1 = named.1 ∧
    ∃ i symbol, table.symbols[i]? = some symbol ∧ symbol.name = named.2 ∧ compiled.2 = .ofIndex i

theorem names_of_compiledStarts {named : List (String × String)} {compiled : List (String × SymbolId)}
    (h : List.Forall₂ table.CompiledStart named compiled) : compiled.map Prod.fst = named.map Prod.fst := by
  induction h with
  | nil => rfl
  | cons hhead _ ih => rw [List.map_cons, List.map_cons, hhead.1, ih]

theorem compileStarts_forall₂ {starts : StartMap SymbolId} (h : table.compileStarts = .ok starts) :
    List.Forall₂ table.CompiledStart table.starts.entries starts.entries := by
  have hmeets : Meets (fun starts : StartMap SymbolId =>
      List.Forall₂ table.CompiledStart table.starts.entries starts.entries) (fun _ => True) table.compileStarts := by
    unfold compileStarts
    refine Meets.ite (fun _ => trivial) fun _ => ?_
    refine Meets.foldlM (fun passed (starts : StartMap SymbolId) =>
      List.Forall₂ table.CompiledStart passed starts.entries) .nil ?_
    rintro passed ⟨name, symbolName⟩ rest starts hentries hpassed
    cases hfind : table.symbols.findIdx? (·.name = symbolName) with
    | none =>
      simp only [hfind]
      trivial
    | some i =>
      obtain ⟨hi, hname, -⟩ := Array.findIdx?_eq_some_iff_getElem.1 hfind
      have hcompiled : table.CompiledStart (name, symbolName) (name, .ofIndex i) :=
        ⟨rfl, i, _, Array.getElem?_eq_getElem hi, of_decide_eq_true hname, rfl⟩
      -- The names of a map differ, so this one goes last.
      have hnew : name ∉ starts.entries.map Prod.fst := by
        have hdistinct := table.starts.distinct
        rw [hentries, List.map_append, List.map_cons] at hdistinct
        rw [names_of_compiledStarts hpassed]
        exact fun hmem => (List.nodup_append.1 hdistinct).2.2 _ hmem _ List.mem_cons_self rfl
      simp only [hfind]
      show List.Forall₂ table.CompiledStart (passed ++ [(name, symbolName)]) (starts.insert name (.ofIndex i)).entries
      rw [StartMap.entries_insert hnew]
      exact List.rel_append hpassed (.cons hcompiled .nil)
  rw [h] at hmeets
  exact hmeets

theorem ofTable_starts {grammar : Grammar} (h : Grammar.ofTable table = .ok grammar) :
    table.compileStarts = .ok grammar.starts ∧ grammar.tokenNames = table.tokenNames := by
  unfold Grammar.ofTable at h
  obtain ⟨-, -, h⟩ := exists_of_bind_eq_ok h
  obtain ⟨first, -, h⟩ := exists_of_bind_eq_ok h
  obtain ⟨-, -, h⟩ := exists_of_bind_eq_ok h
  obtain ⟨automata, -, h⟩ := exists_of_bind_eq_ok h
  obtain ⟨starts, hstarts, h⟩ := exists_of_bind_eq_ok h
  cases h
  exact ⟨hstarts, rfl⟩

end Starts

section Back

theorem CompiledSymbol.symbolEntry_eq {i : Nat} {symbol : SymbolEntry} {automaton : Automaton}
    (hwell : table.WellFormed) (hsymbol : table.symbols[i]? = some symbol)
    (h : table.CompiledSymbol i symbol automaton) : Grammar.symbolEntry automaton = symbol.sorted := by
  have hstates : automaton.states.map Grammar.stateEntry = symbol.states := by
    apply Array.ext
    · rw [Array.size_map, h.size_eq]
    · intro j hj hj'
      rw [Array.getElem_map]
      have hj : j < automaton.states.size := h.size_eq ▸ hj'
      exact (h.state j _ _ (Array.getElem?_eq_getElem hj') (Array.getElem?_eq_getElem hj)).entry_eq
  have hfirst : automaton.first = .ofList symbol.first := by
    apply LabelSet.eq_of_mem_iff
    intro label
    rw [h.mem_first_iff, LabelSet.mem_ofList, hwell.first_exact i symbol hsymbol]
  rw [Grammar.symbolEntry, SymbolEntry.sorted, h.name_eq, hstates, hfirst]

theorem Describes.symbolName?_ofIndex {grammar : Grammar} (hs : table.Structured) (h : table.Describes grammar)
    {i : Nat} {symbol : SymbolEntry} (hsymbol : table.symbols[i]? = some symbol) :
    grammar.symbolName? (.ofIndex i) = some symbol.name := by
  obtain ⟨automaton, hautomaton, hcompiled⟩ := h.automaton i symbol hsymbol
  have hlt := (Array.getElem?_eq_some_iff.1 hsymbol).1
  have hle := hs.symbols_le
  have hcode := SymbolId.toNat_code_ofIndex i (by omega)
  have hfind := (grammar.automaton?_eq_some_iff (.ofIndex i) automaton).2 ⟨i, hcode, hautomaton⟩
  rw [Grammar.symbolName?, hfind, Option.map_some, hcompiled.name_eq]

/-- Every start name stands for a nonterminal of the name that the table gives it. -/
theorem Describes.names_of_starts {grammar : Grammar} (hs : table.Structured) (h : table.Describes grammar)
    (hstarts : table.compileStarts = .ok grammar.starts) :
    grammar.starts.entries.map (fun entry => (entry.1, grammar.symbolName? entry.2)) =
      table.starts.entries.map fun entry => (entry.1, some entry.2) := by
  have hcompiled := compileStarts_forall₂ hstarts
  generalize table.starts.entries = named, grammar.starts.entries = compiled at hcompiled
  induction hcompiled with
  | nil => rfl
  | @cons head _ _ _ hhead _ ih =>
    obtain ⟨hname, i, symbol, hsymbol, hsymbolName, hid⟩ := hhead
    rw [List.map_cons, List.map_cons, ih, hid, h.symbolName?_ofIndex hs hsymbol, hname, hsymbolName]

theorem Describes.startNames_eq {grammar : Grammar} (hs : table.Structured) (h : table.Describes grammar)
    (hstarts : table.compileStarts = .ok grammar.starts) : grammar.startNames = table.starts := by
  have hnamed := congrArg (List.map fun entry => (entry.1, entry.2.getD "")) (h.names_of_starts hs hstarts)
  simp only [List.map_map, Function.comp_def, Option.getD_some, List.map_id'] at hnamed
  calc
    grammar.startNames = (grammar.starts.entries.map fun entry =>
        (entry.1, (grammar.symbolName? entry.2).getD "")).foldl
          (fun starts entry => starts.insert entry.1 entry.2) .empty := by
      rw [List.foldl_map]
      rfl
    _ = table.starts.entries.foldl (fun starts entry => starts.insert entry.1 entry.2) .empty := by rw [hnamed]
    _ = table.starts := StartMap.foldl_insert_entries table.starts

/-- The table of a grammar is the one that it has been made from, with its first labels in order. -/
theorem toTable_of_ofTable {grammar : Grammar} (h : Grammar.ofTable table = .ok grammar) :
    grammar.toTable = table.sorted := by
  obtain ⟨hwell, hdescribes⟩ := wellFormed_and_describes h
  obtain ⟨hstarts, hnames⟩ := ofTable_starts h
  have hversion : Table.currentVersion = table.version := hwell.version.symm
  have hsymbols : grammar.automata.map Grammar.symbolEntry = table.symbols.map SymbolEntry.sorted := by
    apply Array.ext
    · rw [Array.size_map, Array.size_map, hdescribes.size_eq]
    · intro i hi hi'
      rw [Array.getElem_map, Array.getElem_map]
      rw [Array.size_map] at hi
      obtain ⟨symbol, hsymbol, hcompiled⟩ := hdescribes.exists_symbol (Array.getElem?_eq_getElem hi)
      have hentry := (Array.getElem?_eq_some_iff.1 hsymbol).2
      rw [hentry]
      exact hcompiled.symbolEntry_eq hwell hsymbol
  rw [Grammar.toTable, Table.sorted, hversion, hnames, hdescribes.labels_eq, hsymbols,
    hdescribes.startNames_eq hwell.toStructured hstarts]

end Back

theorem ofTable_sorted {grammar : Grammar} (h : Grammar.ofTable table = .ok grammar) :
    Grammar.ofTable table.sorted = .ok grammar := by
  obtain ⟨hwell, hdescribes⟩ := wellFormed_and_describes h
  obtain ⟨hstarts, hnames⟩ := ofTable_starts h
  obtain ⟨grammar', h'⟩ := (ofTable_eq_ok_iff table.sorted).2 hwell.sorted
  have hdescribes' := (wellFormed_and_describes h').2.of_sorted
  obtain ⟨hstarts', hnames'⟩ := ofTable_starts h'
  rw [compileStarts_sorted] at hstarts'
  -- Each part of the new grammar is that of the old one.
  have hlabels : grammar'.labels = grammar.labels := hdescribes'.labels_eq.trans hdescribes.labels_eq.symm
  have hautomata : grammar'.automata = grammar.automata := hdescribes'.automata_unique hdescribes
  have hstartsEq : grammar'.starts = grammar.starts := Except.ok.inj (hstarts'.symm.trans hstarts)
  have hnamesEq : grammar'.tokenNames = grammar.tokenNames := hnames'.trans hnames.symm
  rw [h', Grammar.ext hlabels hautomata hstartsEq hnamesEq]

end Table

namespace Grammar

/--
The table of a grammar is the one that it has been made from, with the first labels of each nonterminal sorted and all
else as it was. Each start name stands for a nonterminal of the name that the table gives it.
-/
theorem toTable_restores {table : Table} {grammar : Grammar} (h : ofTable table = .ok grammar) :
    grammar.toTable = { table with
        symbols := table.symbols.map fun symbol => { symbol with first := symbol.first.mergeSort (· ≤ ·) } } ∧
      grammar.starts.entries.map (fun entry => (entry.1, grammar.symbolName? entry.2)) =
        table.starts.entries.map fun entry => (entry.1, some entry.2) := by
  obtain ⟨hwell, hdescribes⟩ := Table.wellFormed_and_describes h
  refine ⟨?_, hdescribes.names_of_starts hwell.toStructured (Table.ofTable_starts h).1⟩
  have hsymbols : table.symbols.map SymbolEntry.sorted =
      table.symbols.map fun symbol => { symbol with first := symbol.first.mergeSort (· ≤ ·) } := by
    apply Array.map_congr_left
    intro symbol hsymbol
    rw [SymbolEntry.sorted, LabelSet.labels_ofList_eq_mergeSort (hwell.first_nodup symbol hsymbol)]
  rw [Table.toTable_of_ofTable h, Table.sorted, hsymbols]

end Grammar

/-- The table `Table.nested` with its first labels in descending order. -/
def Table.nestedDescending : Table :=
  { nested with symbols := nested.symbols.map fun symbol => { symbol with first := [⟨2⟩, ⟨0⟩] } }

theorem Table.ofTable_nestedDescending : Grammar.ofTable .nestedDescending = .ok .nested := by
  have hnames : checkNames ∅ (nestedDescending.symbols.toList.map (·.name)) = .ok () := by
    simp [nestedDescending, nested, checkNames]
  have hlabels : nestedDescending.checkLabels ∅ 0 nestedDescending.labels.toList = .ok () := by
    simp [nestedDescending, nested, checkLabels]
    cbv
  rw [Grammar.ofTable, checkStructure, hnames, hlabels]
  cbv

namespace Grammar

theorem toTable_restores_descending :
    ofTable .nestedDescending = .ok nested ∧ nested.toTable = .nested ∧
      nested.starts.entries.map (fun entry => (entry.1, nested.symbolName? entry.2)) = [("s", some "S")] := by
  obtain ⟨htable, hstarts⟩ := toTable_restores Table.ofTable_nestedDescending
  refine ⟨Table.ofTable_nestedDescending, htable.trans ?_, hstarts⟩
  cbv

/--
The text of a table is read as the table, in either layout and whatever is wrong with the table. So what is loaded from
it, or the defect that is reported, is what the table itself would give.
-/
theorem load_text (explain : String → String) (table : Table) :
    (Table.ofText? table.toJson.pretty = some table ∧ load explain table.toJson.pretty = ofTable table) ∧
      (Table.ofText? table.toJson.compact = some table ∧ load explain table.toJson.compact = ofTable table) := by
  have hpretty := table.ofText?_pretty
  have hcompact := table.ofText?_compact
  refine ⟨⟨hpretty, ?_⟩, ⟨hcompact, ?_⟩⟩
  · rw [load, hpretty]
  · rw [load, hcompact]

theorem ofText?_dump (grammar : Grammar) : Table.ofText? grammar.dump = some grammar.toTable :=
  grammar.toTable.ofText?_pretty

/-- The table of a grammar makes the grammar again. -/
theorem ofTable_toTable {table : Table} {grammar : Grammar} (h : ofTable table = .ok grammar) :
    ofTable grammar.toTable = .ok grammar := by
  rw [Table.toTable_of_ofTable h]
  exact Table.ofTable_sorted h

/--
A grammar that is dumped is loaded as what it was: with the same labels, automata and token names, and with its start
names in the same order. So it would be dumped to the same text again.
-/
theorem load_dump {grammar : Grammar} (hg : grammar.Compiled) (explain : String → String) :
    load explain grammar.dump = .ok grammar := by
  obtain ⟨table, htable⟩ := hg.exists_table
  rw [load, grammar.ofText?_dump]
  exact ofTable_toTable htable

theorem load_dump_nested : load id nested.dump = .ok nested :=
  load_dump (.ofTable .nested Table.ofTable_nested) id

end Grammar

end Pushdown
