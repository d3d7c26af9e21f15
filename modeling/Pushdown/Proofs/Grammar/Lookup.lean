import Pushdown.Proofs.Grammar.Terminals
import Pushdown.Proofs.Parser.Search

/-!
The lookups of a grammar. What a state consumes, the arc that consumes it and the first sets of the nonterminals
are kept in different places, and they say the same.
-/

namespace Pushdown

namespace Grammar

/-- The arc is labelled by the label itself, or by a nonterminal that has the label in its first set. -/
def Carries (grammar : Grammar) (arc : Arc) (label : Label) : Prop :=
  arc.label = label ∨
    ∃ id first, grammar.entry? arc.label = some (.symbol id) ∧ grammar.first? id = some first ∧ label ∈ first

/-- State `number` of the nonterminal knows what it can consume, and by which arc. -/
structure ExactLookup (grammar : Grammar) (id : SymbolId) (number : Nat) (state : State) : Prop where
  arcFor?_iff : ∀ label arc,
    state.arcFor? label = some arc ↔ grammar.Terminal label ∧ arc ∈ state.arcs ∧ grammar.Carries arc label
  /-- Arcs at other places carry other labels, so the arc is found at one place only. -/
  only : ∀ label arc, state.arcFor? label = some arc →
    ∃ before after, state.arcs = before ++ arc :: after ∧
      ∀ other ∈ before ++ after, ¬ grammar.Carries other label
  expected_ascending : state.expected.Pairwise (· < ·)
  mem_expected_iff : ∀ label, label ∈ state.expected ↔ (state.arcFor? label).isSome
  initial : number = 0 → ∃ first, grammar.first? id = some first ∧ state.expected = first.labels
  /-- The nonterminal that an arc leads through can begin with each label that the arc is found for. -/
  opens : ∀ label arc inner, state.arcFor? label = some arc → grammar.entry? arc.label = some (.symbol inner) →
    ∃ automaton initial, grammar.automaton? inner = some automaton ∧ automaton.states[0]? = some initial ∧
      (initial.arcFor? label).isSome

end Grammar

namespace Table

variable {table : Table} {grammar : Grammar}

/-- At most one place in a state has an arc that consumes the label. -/
theorem CompiledState.exists_only {entry : StateEntry} {state : State} (h : table.CompiledState entry state)
    {label : Label} {arc : Arc} (hfind : state.arcFor? label = some arc) :
    ∃ before after, state.arcs = before ++ arc :: after ∧ ∀ other ∈ before ++ after, ¬ table.Consumes other label := by
  obtain ⟨harc, hconsumes⟩ := (h.arcFor?_eq_some_iff label arc).1 hfind
  obtain ⟨before, after, harcs⟩ := List.append_of_mem harc
  have hpairwise := h.deterministic
  rw [← h.arcs_eq, harcs, List.pairwise_append, List.pairwise_cons] at hpairwise
  obtain ⟨-, ⟨hafter, -⟩, hbefore⟩ := hpairwise
  refine ⟨before, after, harcs, ?_⟩
  intro other hother hcarries
  rcases List.mem_append.1 hother with hother | hother
  · exact hbefore other hother arc List.mem_cons_self label ⟨hcarries, hconsumes⟩
  · exact hafter other hother label ⟨hconsumes, hcarries⟩

theorem CompiledState.expected_ascending {entry : StateEntry} {state : State} (h : table.CompiledState entry state) :
    state.expected.Pairwise (· < ·) :=
  List.pairwise_map.2 h.ascending

/-- The initial state of a nonterminal consumes what begins the nonterminal. -/
theorem CompiledSymbol.initial_arcFor?_iff {i : Nat} {symbol : SymbolEntry} {automaton : Automaton}
    (h : table.CompiledSymbol i symbol automaton) (hsymbol : table.symbols[i]? = some symbol) {state : State}
    (hstate : automaton.states[0]? = some state) (label : Label) :
    (state.arcFor? label).isSome ↔ table.FirstLabel i label := by
  have hinitial : automaton.state 0 = state := by
    rw [Automaton.state]
    exact congrArg (·.getD State.dead) hstate
  rw [Option.isSome_iff_exists, table.firstLabel_iff]
  apply exists_congr
  intro arc
  rw [h.initialArc_iff hsymbol, ← hinitial, h.arcFor?_eq_some_iff]

theorem Describes.terminal_iff (h : table.Describes grammar) (label : Label) :
    grammar.Terminal label ↔ table.Terminal label := by
  unfold Grammar.Terminal Terminal Grammar.entry?
  rw [h.labels_eq]

/-- Every nonterminal that a label stands for has its automaton. -/
theorem Describes.exists_automaton (hs : table.Structured) (h : table.Describes grammar) {label : Label}
    {id : SymbolId} (hentry : grammar.entry? label = some (.symbol id)) :
    ∃ symbol automaton, table.StandsFor label id.index ∧ table.symbols[id.index]? = some symbol ∧
      grammar.automaton? id = some automaton ∧ table.CompiledSymbol id.index symbol automaton := by
  rw [Grammar.entry?, h.labels_eq] at hentry
  obtain ⟨hindex, hstands⟩ := hs.symbol_code hentry
  have hsymbol := Array.getElem?_eq_getElem hindex
  obtain ⟨automaton, hi, hcompiled⟩ := h.automaton _ _ hsymbol
  refine ⟨_, automaton, hstands, hsymbol, ?_, hcompiled⟩
  obtain ⟨id', hentry', hcode⟩ := hstands
  cases hentry.symm.trans hentry'
  exact (grammar.automaton?_eq_some_iff id automaton).2 ⟨id.index, hcode, hi⟩

/-- For terminal labels, an arc carries the labels that it consumes. -/
theorem Describes.carries_iff (hs : table.Structured) (h : table.Describes grammar) (arc : Arc) {label : Label}
    (hterminal : table.Terminal label) : grammar.Carries arc label ↔ table.Consumes arc label := by
  constructor
  · rintro (hlabel | ⟨id, first, hentry, hfirst, hmem⟩)
    · exact .inl ⟨hterminal, hlabel⟩
    · obtain ⟨symbol, automaton, hstands, -, hautomaton, hcompiled⟩ := h.exists_automaton hs hentry
      rw [Grammar.first?, hautomaton, Option.map_some] at hfirst
      obtain rfl := Option.some.inj hfirst
      exact .inr ⟨id.index, hstands, (hcompiled.mem_first_iff label).1 hmem⟩
  · rintro (⟨-, hlabel⟩ | ⟨i, hstands, hfirst⟩)
    · exact .inl hlabel
    · obtain ⟨id, hentry, -⟩ := id hstands
      obtain rfl := hstands.eq_index hentry
      rw [← h.labels_eq] at hentry
      obtain ⟨symbol, automaton, -, -, hautomaton, hcompiled⟩ := h.exists_automaton hs hentry
      have hmem := (hcompiled.mem_first_iff label).2 hfirst
      exact .inr ⟨id, automaton.first, hentry, congrArg (Option.map Automaton.first) hautomaton, hmem⟩

theorem Describes.initial_expected (h : table.Describes grammar) {id : SymbolId} {automaton : Automaton}
    (hautomaton : grammar.automaton? id = some automaton) {state : State}
    (hstate : automaton.states[0]? = some state) : state.expected = automaton.first.labels := by
  obtain ⟨i, -, hi⟩ := (grammar.automaton?_eq_some_iff id automaton).1 hautomaton
  obtain ⟨symbol, hsymbol, hcompiled⟩ := h.exists_symbol hi
  have hpos : 0 < symbol.states.size := hcompiled.size_eq ▸ (Array.getElem?_eq_some_iff.1 hstate).1
  have hcompiledState := hcompiled.state 0 _ state (Array.getElem?_eq_getElem hpos) hstate
  -- Both lists ascend, so they are equal when they have the same members.
  apply eq_of_pairwise_of_mem_iff _ hcompiledState.expected_ascending automaton.first.ascending
  · intro label
    calc label ∈ state.expected
        ↔ (state.arcFor? label).isSome := Parser.mem_state_expected_iff state label
      _ ↔ table.FirstLabel i label := hcompiled.initial_arcFor?_iff hsymbol hstate label
      _ ↔ label ∈ automaton.first.labels := (hcompiled.mem_first_iff label).symm
  · exact fun _ _ hlt hgt => Label.lt_irrefl _ (Label.lt_trans hlt hgt)

/-- A label that an arc consumes through a nonterminal is consumed in the initial state of the nonterminal. -/
theorem Describes.exists_initial (hs : table.Structured) (h : table.Describes grammar) {arc : Arc} {label : Label}
    {id : SymbolId} (hentry : grammar.entry? arc.label = some (.symbol id)) (hconsumes : table.Consumes arc label) :
    ∃ automaton initial, grammar.automaton? id = some automaton ∧ automaton.states[0]? = some initial ∧
      (initial.arcFor? label).isSome := by
  obtain ⟨symbol, automaton, hstands, hsymbol, hautomaton, hcompiled⟩ := h.exists_automaton hs hentry
  have hpos := (hcompiled.initial hs hsymbol).1
  have hinitial := Array.getElem?_eq_getElem hpos
  refine ⟨automaton, _, hautomaton, hinitial, (hcompiled.initial_arcFor?_iff hsymbol hinitial label).2 ?_⟩
  rw [Grammar.entry?, h.labels_eq] at hentry
  rcases hconsumes with ⟨⟨kind, text, htoken⟩, rfl⟩ | ⟨i, hi, hfirst⟩
  · -- The label of the arc stands for a nonterminal, not for tokens.
    cases hentry.symm.trans htoken
  · exact hi.eq_index hentry ▸ hfirst

end Table

/-- The lookup of each state of a grammar is exact. -/
theorem Grammar.lookup_exact {grammar : Grammar} (hg : grammar.Compiled) {id : SymbolId} {automaton : Automaton}
    (hautomaton : grammar.automaton? id = some automaton) {number : Nat} {state : State}
    (hstate : automaton.states[number]? = some state) : grammar.ExactLookup id number state := by
  obtain ⟨table, htable⟩ := hg.exists_table
  obtain ⟨hwell, hdescribes⟩ := Table.wellFormed_and_describes htable
  have hs := hwell.toStructured
  obtain ⟨i, -, hi⟩ := (grammar.automaton?_eq_some_iff id automaton).1 hautomaton
  obtain ⟨symbol, hsymbol, hcompiled⟩ := hdescribes.exists_symbol hi
  have hnumber : number < symbol.states.size := hcompiled.size_eq ▸ (Array.getElem?_eq_some_iff.1 hstate).1
  have hentry := hcompiled.state number _ state (Array.getElem?_eq_getElem hnumber) hstate
  have hfind : ∀ {label arc}, state.arcFor? label = some arc → table.Consumes arc label :=
    fun h => ((hentry.arcFor?_eq_some_iff _ _).1 h).2
  refine ⟨?_, ?_, hentry.expected_ascending, Parser.mem_state_expected_iff state, ?_, ?_⟩
  · intro label arc
    rw [hentry.arcFor?_eq_some_iff, hdescribes.terminal_iff]
    constructor
    · rintro ⟨harc, hconsumes⟩
      have hterminal := hconsumes.terminal
      exact ⟨hterminal, harc, (hdescribes.carries_iff hs arc hterminal).2 hconsumes⟩
    · rintro ⟨hterminal, harc, hcarries⟩
      exact ⟨harc, (hdescribes.carries_iff hs arc hterminal).1 hcarries⟩
  · intro label arc harc
    obtain ⟨before, after, harcs, honly⟩ := hentry.exists_only harc
    refine ⟨before, after, harcs, ?_⟩
    intro other hother hcarries
    apply honly other hother
    exact (hdescribes.carries_iff hs other (hfind harc).terminal).1 hcarries
  · rintro rfl
    exact ⟨automaton.first, congrArg (Option.map Automaton.first) hautomaton,
      hdescribes.initial_expected hautomaton hstate⟩
  · intro label arc inner harc hinner
    exact hdescribes.exists_initial hs hinner (hfind harc)

/-- State 1 of `nested` consumes what begins `S`, by its arc through `S`. -/
theorem Grammar.lookup_exact_nested :
    nested.automaton? (.ofIndex 0) = some .nested ∧
      ∃ state, Automaton.nested.states[1]? = some state ∧ nested.ExactLookup (.ofIndex 0) 1 state ∧
        state.expected = [⟨0⟩, ⟨2⟩] ∧ state.arcFor? ⟨2⟩ = some ⟨⟨3⟩, 2⟩ := by
  have hautomaton : nested.automaton? (.ofIndex 0) = some .nested := by decide
  refine ⟨hautomaton, _, rfl, lookup_exact (.ofTable .nested Table.ofTable_nested) hautomaton rfl, ?_, ?_⟩
  · rfl
  · rfl

end Pushdown
