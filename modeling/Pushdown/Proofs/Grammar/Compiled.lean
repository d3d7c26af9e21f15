import Mathlib
import Pushdown.Grammar.Draft
import Pushdown.Proofs.Grammar.Sound
import Pushdown.Proofs.Table.Compile

/-! Every grammar that has been made from a table provides what a parser relies on. -/

namespace Pushdown

namespace Grammar

/-- The grammar has been made from a table, read from a text, or drafted. -/
inductive Compiled (grammar : Grammar) : Prop where
  | ofTable (table : Table) (h : ofTable table = .ok grammar)
  | load (explain : String → String) (text : String) (h : load explain text = .ok grammar)
  | draft (draft : Draft) (h : draft.grammar = .ok grammar)

theorem Compiled.exists_table {grammar : Grammar} (h : grammar.Compiled) :
    ∃ table, Grammar.ofTable table = .ok grammar := by
  cases h with
  | ofTable table h => exact ⟨table, h⟩
  | load explain text h =>
    unfold Grammar.load at h
    split at h
    · cases h
    · rename_i table _
      exact ⟨table, h⟩
  | draft draft h =>
    unfold Draft.grammar at h
    cases htable : draft.table with
    | error defect =>
      rw [htable] at h
      cases h
    | ok table =>
      rw [htable] at h
      exact ⟨table, h⟩

end Grammar

namespace Table

variable {table : Table} {grammar : Grammar}

theorem Describes.exists_symbol (h : table.Describes grammar) {i : Nat} {automaton : Automaton}
    (hautomaton : grammar.automata[i]? = some automaton) :
    ∃ symbol, table.symbols[i]? = some symbol ∧ table.CompiledSymbol i symbol automaton := by
  have hi : i < table.symbols.size := h.size_eq ▸ (Array.getElem?_eq_some_iff.1 hautomaton).1
  have hsymbol := Array.getElem?_eq_getElem hi
  obtain ⟨automaton', hautomaton', hcompiled⟩ := h.automaton i _ hsymbol
  obtain rfl := Option.some.inj (hautomaton.symm.trans hautomaton')
  exact ⟨_, hsymbol, hcompiled⟩

theorem Describes.exists_symbol_of_mem (h : table.Describes grammar) {automaton : Automaton}
    (hautomaton : automaton ∈ grammar.automata) :
    ∃ i symbol, table.symbols[i]? = some symbol ∧ table.CompiledSymbol i symbol automaton := by
  obtain ⟨i, hi⟩ := Array.mem_iff_getElem?.1 hautomaton
  exact ⟨i, h.exists_symbol hi⟩

theorem Describes.opened?_eq_some_iff (h : table.Describes grammar) (arc : Arc) (automaton : Automaton) :
    Parser.opened? grammar arc = some automaton ↔
      ∃ i, table.StandsFor arc.label i ∧ grammar.automata[i]? = some automaton := by
  rw [grammar.opened?_eq_some_iff, Grammar.entry?, h.labels_eq]
  simp only [grammar.automaton?_eq_some_iff, StandsFor]
  constructor
  · rintro ⟨id, hentry, i, hcode, hi⟩
    exact ⟨i, ⟨id, hentry, hcode⟩, hi⟩
  · rintro ⟨i, ⟨id, hentry, hcode⟩, hi⟩
    exact ⟨id, hentry, i, hcode, hi⟩

/-- An arc consumes the same labels in a grammar as in its table. -/
theorem Describes.consumes_iff (hs : table.Structured) (h : table.Describes grammar) {arc : Arc}
    (harc : arc.label.index < table.labels.size) (label : Label) :
    grammar.Consumes arc label ↔ table.Consumes arc label := by
  have hentry := Array.getElem?_eq_getElem harc
  unfold Grammar.Consumes
  cases hcase : table.labels[arc.label.index] with
  | token kind text =>
    rw [hcase] at hentry
    have hnone : Parser.opened? grammar arc = none := by
      rw [Parser.opened?, Grammar.entry?, h.labels_eq, hentry]
    simp only [hnone]
    constructor
    · rintro rfl
      exact .inl ⟨⟨kind, text, hentry⟩, rfl⟩
    · rintro (⟨-, hlabel⟩ | ⟨i, ⟨id, hid, -⟩, -⟩)
      · exact hlabel
      · exact absurd (hentry.symm.trans hid) (by simp)
  | symbol id =>
    rw [hcase] at hentry
    obtain ⟨hindex, hstands⟩ := hs.symbol_code hentry
    obtain ⟨automaton, hautomaton, hcompiled⟩ := h.automaton _ _ (Array.getElem?_eq_getElem hindex)
    have hsome := (h.opened?_eq_some_iff arc automaton).2 ⟨_, hstands, hautomaton⟩
    simp only [hsome, hcompiled.mem_first_iff]
    constructor
    · exact fun hfirst => .inr ⟨_, hstands, hfirst⟩
    · rintro (⟨⟨kind, text, htoken⟩, rfl⟩ | ⟨i, hstands', hfirst⟩)
      · exact absurd (hentry.symm.trans htoken) (by simp)
      · exact hstands'.eq_index hentry ▸ hfirst

theorem CompiledState.arcs_eq {entry : StateEntry} {state : State} (h : table.CompiledState entry state) :
    state.arcs = entry.arcs := congrArg StateEntry.arcs h.entry_eq

theorem CompiledState.accepting_eq {entry : StateEntry} {state : State} (h : table.CompiledState entry state) :
    state.accepting = entry.accepting := congrArg StateEntry.accepting h.entry_eq

theorem CompiledState.arcFor?_eq_some_iff {entry : StateEntry} {state : State}
    (h : table.CompiledState entry state) (label : Label) (arc : Arc) :
    state.arcFor? label = some arc ↔ arc ∈ state.arcs ∧ table.Consumes arc label := by
  rw [State.arcFor?, h.ascending.lookup_eq_some_iff, h.mem_lookup_iff]

section Symbol

variable {i : Nat} {symbol : SymbolEntry} {automaton : Automaton}

theorem CompiledSymbol.state_cases (h : table.CompiledSymbol i symbol automaton) (number : UInt32) :
    (∃ entry, symbol.states[number.toNat]? = some entry ∧
      table.CompiledState entry (automaton.state number)) ∨
    symbol.states[number.toNat]? = none ∧ automaton.state number = .dead := by
  unfold Automaton.state
  cases hstate : automaton.states[number.toNat]? with
  | none =>
    have hle := Array.getElem?_eq_none_iff.1 hstate
    exact .inr ⟨Array.getElem?_eq_none_iff.2 (h.size_eq ▸ hle), rfl⟩
  | some state =>
    have hlt : number.toNat < symbol.states.size := h.size_eq ▸ (Array.getElem?_eq_some_iff.1 hstate).1
    have hentry := Array.getElem?_eq_getElem hlt
    exact .inl ⟨_, hentry, h.state _ _ _ hentry hstate⟩

theorem CompiledSymbol.mem_arcs_iff (h : table.CompiledSymbol i symbol automaton) (number : UInt32) (arc : Arc) :
    arc ∈ (automaton.state number).arcs ↔
      ∃ entry, symbol.states[number.toNat]? = some entry ∧ arc ∈ entry.arcs := by
  rcases h.state_cases number with ⟨entry, hentry, hstate⟩ | ⟨hnone, hdead⟩
  · rw [hstate.arcs_eq, hentry]
    simp
  · rw [hdead, hnone]
    simp [State.dead]

theorem CompiledSymbol.initialArc_iff (h : table.CompiledSymbol i symbol automaton)
    (hsymbol : table.symbols[i]? = some symbol) (arc : Arc) :
    table.InitialArc i arc ↔ arc ∈ (automaton.state 0).arcs := by
  rw [h.mem_arcs_iff]
  unfold InitialArc
  simp [hsymbol]

theorem CompiledSymbol.label_lt (h : table.CompiledSymbol i symbol automaton) (hs : table.Structured)
    (hsymbol : table.symbols[i]? = some symbol) (number : UInt32) (arc : Arc)
    (harc : arc ∈ (automaton.state number).arcs) : arc.label.index < table.labels.size := by
  obtain ⟨entry, hentry, harc⟩ := (h.mem_arcs_iff number arc).1 harc
  exact hs.label_lt symbol (Array.mem_of_getElem? hsymbol) entry (Array.mem_of_getElem? hentry) arc harc

theorem CompiledSymbol.target_lt (h : table.CompiledSymbol i symbol automaton) (hs : table.Structured)
    (hsymbol : table.symbols[i]? = some symbol) (number : UInt32) (arc : Arc)
    (harc : arc ∈ (automaton.state number).arcs) : arc.target.toNat < automaton.states.size := by
  obtain ⟨entry, hentry, harc⟩ := (h.mem_arcs_iff number arc).1 harc
  rw [h.size_eq]
  exact hs.target_lt symbol (Array.mem_of_getElem? hsymbol) entry (Array.mem_of_getElem? hentry) arc harc

theorem CompiledSymbol.initial (h : table.CompiledSymbol i symbol automaton) (hs : table.Structured)
    (hsymbol : table.symbols[i]? = some symbol) :
    0 < automaton.states.size ∧ (automaton.state 0).accepting = false := by
  obtain ⟨entry, hentry, hrejecting⟩ := hs.initial symbol (Array.mem_of_getElem? hsymbol)
  have hpos := (Array.getElem?_eq_some_iff.1 hentry).1
  refine ⟨h.size_eq ▸ hpos, ?_⟩
  rcases h.state_cases 0 with ⟨entry', hentry', hstate⟩ | ⟨-, hdead⟩
  · obtain rfl := Option.some.inj (hentry.symm.trans hentry')
    rw [hstate.accepting_eq, hrejecting]
  · rw [hdead]
    rfl

theorem CompiledSymbol.arcFor?_eq_some_iff (h : table.CompiledSymbol i symbol automaton) (number : UInt32)
    (label : Label) (arc : Arc) :
    (automaton.state number).arcFor? label = some arc ↔
      arc ∈ (automaton.state number).arcs ∧ table.Consumes arc label := by
  rcases h.state_cases number with ⟨entry, -, hstate⟩ | ⟨-, hdead⟩
  · exact hstate.arcFor?_eq_some_iff label arc
  · rw [hdead]
    simp [State.arcFor?, State.dead]

end Symbol

theorem Describes.transGen_beginsWith (h : table.Describes grammar) {a b : Automaton} {i : Nat}
    (ha : grammar.automata[i]? = some a) (hpath : Relation.TransGen grammar.Begins a b) :
    ∃ j, grammar.automata[j]? = some b ∧ Relation.TransGen table.BeginsWith i j := by
  have hstep : ∀ {a b : Automaton} {i : Nat}, grammar.automata[i]? = some a → grammar.Begins a b →
      ∃ j, grammar.automata[j]? = some b ∧ table.BeginsWith i j := by
    rintro a b i ha ⟨arc, harc, hopened⟩
    obtain ⟨symbol, hsymbol, hcompiled⟩ := h.exists_symbol ha
    obtain ⟨j, hstands, hj⟩ := (h.opened?_eq_some_iff arc b).1 hopened
    exact ⟨j, hj, arc, (hcompiled.initialArc_iff hsymbol arc).2 harc, hstands⟩
  induction hpath with
  | single hbegins =>
    obtain ⟨j, hj, hbeginsWith⟩ := hstep ha hbegins
    exact ⟨j, hj, .single hbeginsWith⟩
  | tail _ hbegins ih =>
    obtain ⟨j, hj, hpath⟩ := ih
    obtain ⟨k, hk, hbeginsWith⟩ := hstep hj hbegins
    exact ⟨k, hk, hpath.tail hbeginsWith⟩

theorem Describes.index_injective (hs : table.Structured) (h : table.Describes grammar) {automaton : Automaton}
    {i j : Nat} (hi : grammar.automata[i]? = some automaton) (hj : grammar.automata[j]? = some automaton) :
    i = j := by
  obtain ⟨symbol, -, hcompiled⟩ := h.exists_symbol hi
  obtain ⟨symbol', -, hcompiled'⟩ := h.exists_symbol hj
  -- The id of a nonterminal says where it stands.
  have heq : SymbolId.ofIndex i = SymbolId.ofIndex j := hcompiled.symbol_eq.symm.trans hcompiled'.symbol_eq
  have hsize := h.size_eq
  have hle := hs.symbols_le
  have hilt := (Array.getElem?_eq_some_iff.1 hi).1
  have hjlt := (Array.getElem?_eq_some_iff.1 hj).1
  have hicode := SymbolId.toNat_code_ofIndex i (by omega)
  have hjcode := SymbolId.toNat_code_ofIndex j (by omega)
  rw [heq] at hicode
  omega

theorem Describes.sound (hwell : table.WellFormed) (h : table.Describes grammar) : grammar.Sound where
  symbol_eq := by
    intro id automaton hautomaton
    obtain ⟨i, hcode, hi⟩ := (grammar.automaton?_eq_some_iff id automaton).1 hautomaton
    obtain ⟨symbol, -, hcompiled⟩ := h.exists_symbol hi
    rw [hcompiled.symbol_eq]
    exact (id.eq_ofIndex_of_code i hcode).symm
  labels_nodup := h.labels_eq ▸ hwell.labels_nodup
  labels_le := h.labels_eq ▸ hwell.labels_le
  states_pos := by
    intro automaton hautomaton
    obtain ⟨i, symbol, hsymbol, hcompiled⟩ := h.exists_symbol_of_mem hautomaton
    exact (hcompiled.initial hwell.toStructured hsymbol).1
  initial := by
    intro automaton hautomaton
    obtain ⟨i, symbol, hsymbol, hcompiled⟩ := h.exists_symbol_of_mem hautomaton
    exact (hcompiled.initial hwell.toStructured hsymbol).2
  target_lt := by
    intro automaton hautomaton number arc harc
    obtain ⟨i, symbol, hsymbol, hcompiled⟩ := h.exists_symbol_of_mem hautomaton
    exact hcompiled.target_lt hwell.toStructured hsymbol number arc harc
  arcFor?_iff := by
    intro automaton hautomaton number label arc
    obtain ⟨i, symbol, hsymbol, hcompiled⟩ := h.exists_symbol_of_mem hautomaton
    rw [hcompiled.arcFor?_eq_some_iff]
    refine and_congr_right fun harc => ?_
    have hlabel := hcompiled.label_lt hwell.toStructured hsymbol number arc harc
    exact (h.consumes_iff hwell.toStructured hlabel label).symm
  first_iff := by
    intro automaton hautomaton label
    obtain ⟨i, symbol, hsymbol, hcompiled⟩ := h.exists_symbol_of_mem hautomaton
    rw [hcompiled.mem_first_iff, table.firstLabel_iff]
    refine exists_congr fun arc => ?_
    rw [hcompiled.initialArc_iff hsymbol]
    refine and_congr_right fun harc => ?_
    have hlabel := hcompiled.label_lt hwell.toStructured hsymbol 0 arc harc
    exact (h.consumes_iff hwell.toStructured hlabel label).symm
  acyclic := by
    intro automaton hcycle
    -- A cycle in the grammar is one in the table, between positions that have to be equal.
    obtain ⟨last, -, arc, -, hopened⟩ := Relation.TransGen.tail'_iff.1 hcycle
    obtain ⟨i, hi⟩ := Array.mem_iff_getElem?.1 (Grammar.mem_of_opened? hopened)
    obtain ⟨j, hj, hpath⟩ := h.transGen_beginsWith hi hcycle
    have heq := h.index_injective hwell.toStructured hi hj
    exact hwell.acyclic i (heq ▸ hpath)

end Table

theorem Grammar.Compiled.sound {grammar : Grammar} (h : grammar.Compiled) : grammar.Sound := by
  obtain ⟨table, htable⟩ := h.exists_table
  obtain ⟨hwell, hdescribes⟩ := Table.wellFormed_and_describes htable
  exact hdescribes.sound hwell

/-- One nonterminal, whose sentences are `c` between as many `a` as `b`. -/
def Table.nested : Table where
  version := 1
  tokenNames := TokenNames.empty.insert .name "LETTER"
  labels := #[.token .name (some "a"), .token .name (some "b"), .token .name (some "c"), .symbol (.ofIndex 0)]
  symbols := #[{
    name := "S"
    states := #[⟨[⟨⟨0⟩, 1⟩, ⟨⟨2⟩, 3⟩], false⟩, ⟨[⟨⟨3⟩, 2⟩], false⟩, ⟨[⟨⟨1⟩, 3⟩], false⟩, ⟨[], true⟩]
    first := [⟨0⟩, ⟨2⟩] }]
  starts := StartMap.empty.insert "s" "S"

def Automaton.nested : Automaton where
  symbol := .ofIndex 0
  name := "S"
  states := #[
    ⟨[⟨⟨0⟩, 1⟩, ⟨⟨2⟩, 3⟩], false, [(⟨0⟩, ⟨⟨0⟩, 1⟩), (⟨2⟩, ⟨⟨2⟩, 3⟩)]⟩,
    ⟨[⟨⟨3⟩, 2⟩], false, [(⟨0⟩, ⟨⟨3⟩, 2⟩), (⟨2⟩, ⟨⟨3⟩, 2⟩)]⟩,
    ⟨[⟨⟨1⟩, 3⟩], false, [(⟨1⟩, ⟨⟨1⟩, 3⟩)]⟩,
    ⟨[], true, []⟩]
  first := .ofList [⟨0⟩, ⟨2⟩]

def Grammar.nested : Grammar where
  labels := Table.nested.labels
  automata := #[.nested]
  starts := StartMap.empty.insert "s" (.ofIndex 0)
  tokenNames := Table.nested.tokenNames

theorem Table.checkStructure_nested : Table.nested.checkStructure = .ok () := by
  -- Hashes of texts cannot be evaluated, so the lemmas on maps have to find what is in them.
  have hnames : checkNames ∅ (nested.symbols.toList.map (·.name)) = .ok () := by
    simp [nested, checkNames]
  have hlabels : nested.checkLabels ∅ 0 nested.labels.toList = .ok () := by
    simp [nested, checkLabels]
    cbv
  rw [checkStructure, hnames, hlabels]
  cbv

theorem Table.ofTable_nested : Grammar.ofTable .nested = .ok .nested := by
  rw [Grammar.ofTable, checkStructure_nested]
  cbv

end Pushdown
