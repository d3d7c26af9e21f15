import Pushdown.Proofs.Table.Lookup

/-! From a table to its grammar: what the grammar has of the table, and which tables make one. -/

namespace Pushdown.Table

variable (table : Table)

/-- No two arcs of the entry consume the same label, and the state knows which one does. -/
structure CompiledState (entry : StateEntry) (state : State) : Prop where
  entry_eq : Grammar.stateEntry state = entry
  deterministic : entry.arcs.Pairwise fun a b => ∀ label, ¬ (table.Consumes a label ∧ table.Consumes b label)
  ascending : Ascending state.lookup
  mem_lookup_iff : ∀ label arc, (label, arc) ∈ state.lookup ↔ arc ∈ state.arcs ∧ table.Consumes arc label

/-- The automaton is that of the nonterminal at position `i`. -/
structure CompiledSymbol (i : Nat) (symbol : SymbolEntry) (automaton : Automaton) : Prop where
  symbol_eq : automaton.symbol = .ofIndex i
  name_eq : automaton.name = symbol.name
  size_eq : automaton.states.size = symbol.states.size
  state : ∀ (j : Nat) entry state, symbol.states[j]? = some entry → automaton.states[j]? = some state →
    table.CompiledState entry state
  mem_first_iff : ∀ label, label ∈ automaton.first ↔ table.FirstLabel i label

/-- The grammar has the labels of the table and an automaton for each nonterminal. -/
structure Describes (grammar : Grammar) : Prop where
  labels_eq : grammar.labels = table.labels
  size_eq : grammar.automata.size = table.symbols.size
  automaton : ∀ i symbol, table.symbols[i]? = some symbol →
    ∃ automaton, grammar.automata[i]? = some automaton ∧ table.CompiledSymbol i symbol automaton

variable {table}

theorem ExactFirst.checkFirst_meets {first : Array LabelSet} (hf : table.ExactFirst first) (i : Nat)
    (symbol : SymbolEntry) (hsymbol : table.symbols[i]? = some symbol) (set : LabelSet)
    (hset : first[i]? = some set) :
    Meets (fun _ => symbol.first.Nodup ∧ ∀ label, label ∈ symbol.first ↔ label ∈ set) (Defect.RealIn table)
      (checkFirst symbol set) := by
  have hiff := LabelSet.ofList_eq_and_length_eq_iff symbol.first set
  refine Meets.ite hiff.1 fun hmismatch => ?_
  refine ⟨i, symbol, hsymbol, rfl, fun hexact => hmismatch (hiff.2 ?_)⟩
  exact ⟨hexact.1, fun label => (hexact.2 label).trans (hf.mem_iff i set hset label).symm⟩

theorem ExactFirst.forM_checkFirst_meets {first : Array LabelSet} (hf : table.ExactFirst first) :
    Meets (fun _ => ∀ (i : Nat) symbol, table.symbols[i]? = some symbol →
        symbol.first.Nodup ∧ ∀ label, label ∈ symbol.first ↔ table.FirstLabel i label) (Defect.RealIn table)
      ((table.symbols.toList.zip first.toList).forM fun entry => checkFirst entry.1 entry.2) := by
  have hchecked : Meets (fun _ => ∀ entry ∈ table.symbols.toList.zip first.toList,
      entry.1.first.Nodup ∧ ∀ label, label ∈ entry.1.first ↔ label ∈ entry.2) (Defect.RealIn table)
      ((table.symbols.toList.zip first.toList).forM fun entry => checkFirst entry.1 entry.2) := by
    refine Meets.forM fun entry hentry => ?_
    obtain ⟨i, hi⟩ := List.mem_iff_getElem?.1 hentry
    obtain ⟨hsymbol, hset⟩ := List.getElem?_zip_eq_some.1 hi
    rw [Array.getElem?_toList] at hsymbol hset
    exact hf.checkFirst_meets i entry.1 hsymbol entry.2 hset
  -- There is a first set for each nonterminal, so the comparisons reach all of them.
  refine hchecked.imp fun _ hall i symbol hsymbol => ?_
  have hi : i < first.size := hf.size_eq ▸ (Array.getElem?_eq_some_iff.1 hsymbol).1
  have hset := Array.getElem?_eq_getElem hi
  have hmem : (symbol, first[i]) ∈ table.symbols.toList.zip first.toList := by
    refine List.mem_iff_getElem?.2 ⟨i, List.getElem?_zip_eq_some.2 ⟨?_, ?_⟩⟩
    · rwa [Array.getElem?_toList]
    · rwa [Array.getElem?_toList]
  obtain ⟨hnodup, hiff⟩ := hall _ hmem
  exact ⟨hnodup, fun label => (hiff label).trans (hf.mem_iff i _ hset label)⟩

theorem Structured.compileState_meets (hs : table.Structured) {first : Array LabelSet}
    (hf : table.ExactFirst first) {symbol : SymbolEntry} (hsymbol : symbol ∈ table.symbols) (i : Nat)
    {state : StateEntry} (hstate : symbol.states[i]? = some state) :
    Meets (table.CompiledState state) (Defect.RealIn table) (table.compileState first symbol state i) := by
  have harcs := hs.label_lt symbol hsymbol state (Array.mem_of_getElem? hstate)
  have hlookup := hs.lookupOf_meets hf harcs
  unfold compileState
  cases hcase : table.lookupOf first state.arcs with
  | error label =>
    rw [hcase] at hlookup
    obtain ⟨before, a, between, b, after, hdup, hconsumes⟩ := hlookup
    exact ⟨symbol, hsymbol, rfl, i, state, hstate, UInt32.toNat_ofNat', before, a, between, b, after, hdup, hconsumes⟩
  | ok lookup =>
    rw [hcase] at hlookup
    obtain ⟨hascending, hmem, hdeterministic⟩ := hlookup
    exact ⟨rfl, hdeterministic, hascending, hmem⟩

theorem Structured.compileSymbol_meets (hs : table.Structured) {first : Array LabelSet}
    (hf : table.ExactFirst first) (i : Nat) (symbol : SymbolEntry) (hsymbol : table.symbols[i]? = some symbol) :
    Meets (table.CompiledSymbol i symbol) (Defect.RealIn table) (table.compileSymbol first symbol i) := by
  have hi := (Array.getElem?_eq_some_iff.1 hsymbol).1
  have hset := Array.getElem?_eq_getElem (hf.size_eq ▸ hi : i < first.size)
  have hstates : Meets (fun states => states.length = symbol.states.toList.length ∧
      ∀ (j : Nat) entry state, symbol.states.toList[j]? = some entry → states[j]? = some state →
        table.CompiledState entry state) (Defect.RealIn table)
      (symbol.states.toList.zipIdx.mapM fun entry => table.compileState first symbol entry.1 entry.2) := by
    refine Meets.mapM_zipIdx fun j state hstate => ?_
    rw [Array.getElem?_toList] at hstate
    exact hs.compileState_meets hf (Array.mem_of_getElem? hsymbol) j hstate
  refine hstates.bind ?_
  rintro states ⟨hlength, hall⟩
  refine ⟨rfl, rfl, hlength, ?_, ?_⟩
  · intro j entry state hentry hstate
    refine hall j entry state (by rwa [Array.getElem?_toList]) ?_
    simpa only [List.getElem?_toArray] using hstate
  · rw [hset, Option.getD_some]
    exact hf.mem_iff i _ hset

theorem compileStarts_meets :
    Meets (fun _ => table.starts.entries ≠ [] ∧
        ∀ entry ∈ table.starts.entries, ∃ symbol ∈ table.symbols, symbol.name = entry.2)
      (Defect.RealIn table) table.compileStarts := by
  unfold compileStarts
  refine Meets.ite (fun hempty => List.isEmpty_iff.1 hempty) fun hempty => ?_
  have hne : table.starts.entries ≠ [] := mt List.isEmpty_iff.2 hempty
  refine Meets.imp (Meets.foldlM (fun passed _ => ∀ entry ∈ passed, ∃ symbol ∈ table.symbols,
    symbol.name = entry.2) (by simp) ?_) fun _ hall => ⟨hne, hall⟩
  -- The invariant is that the start symbols passed so far name nonterminals.
  rintro passed ⟨name, symbolName⟩ rest starts hentries hpassed
  have hmem : (name, symbolName) ∈ table.starts.entries := by simp [hentries]
  cases hfind : table.symbols.findIdx? (·.name = symbolName) with
  | none =>
    simp only [hfind]
    refine ⟨hmem, ?_⟩
    rintro ⟨symbol, hsymbol, hname⟩
    simpa [hname] using Array.findIdx?_eq_none_iff.1 hfind symbol hsymbol
  | some i =>
    simp only [hfind]
    obtain ⟨hi, hname, -⟩ := Array.findIdx?_eq_some_iff_getElem.1 hfind
    intro entry hentry
    rcases List.mem_append.1 hentry with hentry | hentry
    · exact hpassed entry hentry
    obtain rfl := List.mem_singleton.1 hentry
    exact ⟨table.symbols[i], Array.getElem_mem hi, of_decide_eq_true hname⟩

theorem ofTable_meets (table : Table) :
    Meets (fun grammar => table.WellFormed ∧ table.Describes grammar) (Defect.RealIn table)
      (Grammar.ofTable table) := by
  unfold Grammar.ofTable
  refine ((checkStructure_meets table).mono (fun _ => id) fun _ => Defect.StructuralIn.realIn).bind fun _ hs => ?_
  refine ((firstSets_meets table hs).mono (fun _ => id) fun _ h => h.structuralIn.realIn).bind ?_
  rintro first ⟨hf, hsettled⟩
  have hautomata : Meets (fun automata => automata.length = table.symbols.toList.length ∧
      ∀ (i : Nat) symbol automaton, table.symbols.toList[i]? = some symbol → automata[i]? = some automaton →
        table.CompiledSymbol i symbol automaton) (Defect.RealIn table)
      (table.symbols.toList.zipIdx.mapM fun entry => table.compileSymbol first entry.1 entry.2) := by
    refine Meets.mapM_zipIdx fun i symbol hsymbol => ?_
    rw [Array.getElem?_toList] at hsymbol
    exact hs.compileSymbol_meets hf i symbol hsymbol
  refine hf.forM_checkFirst_meets.bind fun _ hexact => hautomata.bind ?_
  rintro automata ⟨hlength, hall⟩
  refine compileStarts_meets.bind ?_
  rintro starts ⟨hne, hstarts⟩
  have hcompiled : ∀ (i : Nat) symbol, table.symbols[i]? = some symbol →
      ∃ automaton, automata.toArray[i]? = some automaton ∧ table.CompiledSymbol i symbol automaton := by
    intro i symbol hsymbol
    have hi : i < automata.length := hlength ▸ (Array.getElem?_eq_some_iff.1 hsymbol).1
    refine ⟨automata[i], by simp [hi], ?_⟩
    exact hall i symbol _ (by rwa [Array.getElem?_toList]) (List.getElem?_eq_getElem hi)
  refine ⟨⟨hs, fun i => (hsettled i).not_cycle, ?_, ?_, ?_, hne, hstarts⟩, rfl, hlength, hcompiled⟩
  · intro symbol hsymbol
    obtain ⟨i, hi⟩ := Array.mem_iff_getElem?.1 hsymbol
    exact (hexact i symbol hi).1
  · exact fun i symbol hsymbol => (hexact i symbol hsymbol).2
  · intro symbol hsymbol state hstate
    obtain ⟨i, hi⟩ := Array.mem_iff_getElem?.1 hsymbol
    obtain ⟨j, hj⟩ := Array.mem_iff_getElem?.1 hstate
    obtain ⟨automaton, -, hautomaton⟩ := hcompiled i symbol hi
    have hj' : j < automaton.states.size := hautomaton.size_eq ▸ (Array.getElem?_eq_some_iff.1 hj).1
    exact (hautomaton.state j state _ hj (Array.getElem?_eq_getElem hj')).deterministic

theorem wellFormed_and_describes {grammar : Grammar} (h : Grammar.ofTable table = .ok grammar) :
    table.WellFormed ∧ table.Describes grammar := by
  have hmeets := ofTable_meets table
  rwa [h] at hmeets

theorem realIn_of_ofTable {defect : Defect} (h : Grammar.ofTable table = .error defect) : defect.RealIn table := by
  have hmeets := ofTable_meets table
  rwa [h] at hmeets

theorem ofTable_eq_ok_iff (table : Table) :
    (∃ grammar, Grammar.ofTable table = .ok grammar) ↔ table.WellFormed := by
  constructor
  · rintro ⟨grammar, hgrammar⟩
    exact (wellFormed_and_describes hgrammar).1
  · intro hwell
    cases hresult : Grammar.ofTable table with
    | ok grammar => exact ⟨grammar, rfl⟩
    | error defect =>
      -- The defect would be real, but a well-formed table has none.
      exact absurd (realIn_of_ofTable hresult) (hwell.not_realIn defect)

/--
A table makes a grammar if and only if it is well-formed, and otherwise it has the defect that is reported. The number
of a state in the defect is its position, as far as 32 bits hold it.
-/
theorem ofTable_accepts_exactly_wellFormed (table : Table) :
    ((∃ grammar, Grammar.ofTable table = .ok grammar) ↔ table.WellFormed) ∧
      ∀ defect, Grammar.ofTable table = .error defect → defect.RealIn table ∧
        ((∀ symbol ∈ table.symbols, symbol.states.size ≤ UInt32.size) → defect.ExactIn table) := by
  refine ⟨ofTable_eq_ok_iff table, fun defect hdefect => ?_⟩
  have hreal := realIn_of_ofTable hdefect
  exact ⟨hreal, hreal.exactIn⟩

/-- One nonterminal, whose only sentence is a name. The arc for the name stands twice. -/
def doubled : Table where
  version := 1
  tokenNames := .empty
  labels := #[.token .name none]
  symbols := #[{
    name := "S"
    states := #[⟨[⟨⟨0⟩, 1⟩, ⟨⟨0⟩, 1⟩], false⟩, ⟨[], true⟩]
    first := [⟨0⟩] }]
  starts := StartMap.empty.insert "s" "S"

theorem checkStructure_doubled : doubled.checkStructure = .ok () := by
  have hnames : checkNames ∅ (doubled.symbols.toList.map (·.name)) = .ok () := by
    simp [doubled, checkNames]
  have hlabels : doubled.checkLabels ∅ 0 doubled.labels.toList = .ok () := by
    simp [doubled, checkLabels]
    rfl
  rw [checkStructure, hnames, hlabels]
  rfl

theorem firstSets_doubled : doubled.firstSets = .ok #[.ofList [⟨0⟩]] := by
  have hmemo : (List.range doubled.symbols.size).foldlM
      (fun memo i => doubled.visitFirst doubled.symbols.size [] i memo)
      (Array.replicate doubled.symbols.size none) = .ok #[some (.ofList [⟨0⟩])] := rfl
  rw [firstSets, hmemo]
  exact congrArg Except.ok Array.map_singleton

theorem ofTable_doubled : Grammar.ofTable doubled = .error (.ambiguous "S" 0 ⟨0⟩) := by
  rw [Grammar.ofTable, checkStructure_doubled, firstSets_doubled]
  rfl

theorem ofTable_accepts_exactly_wellFormed_doubled :
    ¬ doubled.WellFormed ∧ (Defect.ambiguous "S" 0 ⟨0⟩).ExactIn doubled := by
  obtain ⟨hiff, hdefect⟩ := ofTable_accepts_exactly_wellFormed doubled
  have hsize : ∀ symbol ∈ doubled.symbols, symbol.states.size ≤ UInt32.size := by decide
  refine ⟨fun hwell => ?_, (hdefect _ ofTable_doubled).2 hsize⟩
  obtain ⟨grammar, hgrammar⟩ := hiff.2 hwell
  cases hgrammar.symm.trans ofTable_doubled

/-- All checks but the one for ambiguous states succeed. -/
theorem filled_doubled : doubled.Filled := by
  have hs := doubled.checkStructure_meets
  rw [checkStructure_doubled] at hs
  have hsearch := doubled.firstSets_meets hs
  rw [firstSets_doubled] at hsearch
  obtain ⟨hf, hsettled⟩ := hsearch
  have hcompared := hf.forM_checkFirst_meets
  have hequal : ((doubled.symbols.toList.zip [.ofList [⟨0⟩]]).forM fun entry => checkFirst entry.1 entry.2) =
      .ok () := rfl
  rw [hequal] at hcompared
  have hstarts := doubled.compileStarts_meets
  have hfound : doubled.compileStarts = .ok (StartMap.empty.insert "s" (.ofIndex 0)) := by
    simp [compileStarts, doubled, StartMap.insert, StartMap.empty, StartMap.place]
  rw [hfound] at hstarts
  refine ⟨hs, fun i => (hsettled i).not_cycle, ?_, fun i symbol hsymbol => (hcompared i symbol hsymbol).2, hstarts.2⟩
  intro symbol hsymbol
  obtain ⟨i, hi⟩ := Array.mem_iff_getElem?.1 hsymbol
  exact (hcompared i symbol hi).1

/-- A nonterminal of `count` states without arcs, and behind them one whose arc has the label at position 0. -/
def wideSymbol (count : Nat) : SymbolEntry where
  name := "S"
  states := (Array.replicate count ⟨[], false⟩).push ⟨[⟨⟨0⟩, 0⟩], false⟩
  first := []

/-- The nonterminal on its own. There are no labels at all. -/
def wide (count : Nat) : Table where
  version := 1
  tokenNames := .empty
  labels := #[]
  symbols := #[wideSymbol count]
  starts := StartMap.empty.insert "s" "S"

theorem wideSymbol_getElem? (count i : Nat) : (wideSymbol count).states[i]? =
    if i = count then some ⟨[⟨⟨0⟩, 0⟩], false⟩ else if i < count then some ⟨[], false⟩ else none := by
  rw [wideSymbol, Array.getElem?_push, Array.size_replicate, Array.getElem?_replicate]

theorem wideSymbol_state {count i : Nat} {state : StateEntry} (h : (wideSymbol count).states[i]? = some state) :
    state.accepting = false ∧ (state.arcs = [] ∨ i = count ∧ state.arcs = [⟨⟨0⟩, 0⟩]) := by
  rw [wideSymbol_getElem?] at h
  split at h
  · rename_i hlast
    cases h
    exact ⟨rfl, .inr ⟨hlast, rfl⟩⟩
  · split at h
    · cases h
      exact ⟨rfl, .inl rfl⟩
    · cases h

theorem checkSymbol_wide (count : Nat) :
    Meets (fun _ => False) (· = .labelOutOfRange "S" count.toUInt32 ⟨0⟩)
      ((wide count).checkSymbol (wideSymbol count)) := by
  have harcs : Meets (fun _ => ∀ entry ∈ (wideSymbol count).states.toList.zipIdx, entry.1.arcs = [])
      (· = .labelOutOfRange "S" count.toUInt32 ⟨0⟩)
      ((wideSymbol count).states.toList.zipIdx.forM fun entry =>
        entry.1.arcs.forM ((wide count).checkArc (wideSymbol count) entry.2)) := by
    refine Meets.forM ?_
    rintro ⟨⟨arcs, accepting⟩, i⟩ hentry
    rw [List.mk_mem_zipIdx_iff_getElem?, Array.getElem?_toList] at hentry
    obtain ⟨-, rfl | ⟨rfl, rfl⟩⟩ := wideSymbol_state hentry <;> rfl
  have hpositive : 0 < (wideSymbol count).states.size := by simp [wideSymbol]
  have hinitial := Array.getElem?_eq_getElem hpositive
  unfold checkSymbol
  simp only [hinitial, (wideSymbol_state hinitial).1, Bool.false_eq_true, if_false]
  refine harcs.imp fun _ hall => ?_
  -- The last state has an arc, so the checks cannot have passed it.
  have hlast : (wideSymbol count).states.toList[count]? = some ⟨[⟨⟨0⟩, 0⟩], false⟩ := by
    rw [Array.getElem?_toList, wideSymbol_getElem?, if_pos rfl]
  cases hall _ (List.mk_mem_zipIdx_iff_getElem?.2 hlast)

theorem ofTable_wide (count : Nat) :
    Grammar.ofTable (wide count) = .error (.labelOutOfRange "S" count.toUInt32 ⟨0⟩) := by
  have hnames : checkNames ∅ ((wide count).symbols.toList.map (·.name)) = .ok () := by
    simp [wide, checkNames]
  have hmeets : Meets (fun _ => False) (· = .labelOutOfRange "S" count.toUInt32 ⟨0⟩)
      (Grammar.ofTable (wide count)) := by
    rw [Grammar.ofTable, checkStructure, hnames]
    exact ((checkSymbol_wide count).bind fun _ => False.elim).bind fun _ => False.elim
  cases hresult : Grammar.ofTable (wide count) with
  | ok grammar =>
    rw [hresult] at hmeets
    exact hmeets.elim
  | error defect =>
    rw [hresult] at hmeets
    exact congrArg Except.error hmeets

theorem not_exactIn_wide {count : Nat} (h : 0 < count) :
    ¬ (Defect.labelOutOfRange "S" 0 ⟨0⟩).ExactIn (wide count) := by
  rintro ⟨symbol, hsymbol, -, i, state, hstate, hnumber, ⟨arc, harc, -⟩, -⟩
  obtain rfl : symbol = wideSymbol count := by simpa [wide] using hsymbol
  obtain rfl : 0 = i := hnumber
  rw [wideSymbol_getElem?, if_neg (Nat.ne_of_lt h), if_pos h] at hstate
  cases hstate
  cases harc

/--
A state with `UInt32.size` others before it is reported by the number 0, which is that of a state without arcs. And a
table may be refused for an ambiguous state although none of its states has two arcs that differ.
-/
theorem ofTable_wide_and_doubled :
    (Grammar.ofTable (wide UInt32.size) = .error (.labelOutOfRange "S" 0 ⟨0⟩) ∧
        ¬ (Defect.labelOutOfRange "S" 0 ⟨0⟩).ExactIn (wide UInt32.size)) ∧
      Grammar.ofTable doubled = .error (.ambiguous "S" 0 ⟨0⟩) ∧ doubled.Filled ∧ doubled.starts.entries ≠ [] ∧
        ∀ symbol ∈ doubled.symbols, ∀ state ∈ symbol.states, ∀ a ∈ state.arcs, ∀ b ∈ state.arcs, a ≠ b →
          ∀ label, ¬ (doubled.Consumes a label ∧ doubled.Consumes b label) := by
  have hzero : UInt32.size.toUInt32 = 0 := by decide
  have hwide := ofTable_wide UInt32.size
  rw [hzero] at hwide
  have hequal : ∀ symbol ∈ doubled.symbols, ∀ state ∈ symbol.states, ∀ a ∈ state.arcs, ∀ b ∈ state.arcs, a = b := by
    decide
  refine ⟨⟨hwide, not_exactIn_wide (by decide)⟩, ofTable_doubled, filled_doubled, by decide, ?_⟩
  intro symbol hsymbol state hstate a ha b hb hne
  exact absurd (hequal symbol hsymbol state hstate a ha b hb) hne

end Pushdown.Table
