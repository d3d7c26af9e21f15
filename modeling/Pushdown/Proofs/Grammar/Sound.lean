import Mathlib.Logic.Relation
import Pushdown.Parser.Basic
import Pushdown.Proofs.Codes

/-! What a parser relies on in a grammar. -/

namespace Pushdown.Grammar

/-- The arc can consume the label: through the nonterminal that it leads through, or else itself. -/
def Consumes (grammar : Grammar) (arc : Arc) (label : Label) : Prop :=
  match Parser.opened? grammar arc with
  | some automaton => label ∈ automaton.first
  | none => arc.label = label

/-- An arc of the initial state of `a` leads through the nonterminal of `b`. -/
def Begins (grammar : Grammar) (a b : Automaton) : Prop :=
  ∃ arc ∈ (a.state 0).arcs, Parser.opened? grammar arc = some b

structure Sound (grammar : Grammar) : Prop where
  symbol_eq : ∀ id automaton, grammar.automaton? id = some automaton → automaton.symbol = id
  labels_nodup : grammar.labels.toList.Nodup
  labels_le : grammar.labels.size ≤ 65535
  states_pos : ∀ automaton ∈ grammar.automata, 0 < automaton.states.size
  initial : ∀ automaton ∈ grammar.automata, (automaton.state 0).accepting = false
  target_lt : ∀ automaton ∈ grammar.automata, ∀ number, ∀ arc ∈ (automaton.state number).arcs,
    arc.target.toNat < automaton.states.size
  arcFor?_iff : ∀ automaton ∈ grammar.automata, ∀ number label arc,
    (automaton.state number).arcFor? label = some arc ↔
      arc ∈ (automaton.state number).arcs ∧ grammar.Consumes arc label
  first_iff : ∀ automaton ∈ grammar.automata, ∀ label,
    label ∈ automaton.first ↔ ∃ arc ∈ (automaton.state 0).arcs, grammar.Consumes arc label
  acyclic : ∀ automaton, ¬ Relation.TransGen grammar.Begins automaton automaton

theorem automaton?_eq_some_iff (grammar : Grammar) (id : SymbolId) (automaton : Automaton) :
    grammar.automaton? id = some automaton ↔
      ∃ i, id.code.toNat = 256 + i ∧ grammar.automata[i]? = some automaton := by
  unfold automaton?
  constructor
  · intro h
    split at h
    · cases h
    rename_i hcode
    rw [SymbolId.code_lt_firstCode_iff] at hcode
    have hindex : id.code.toNat = 256 + (id.code.toNat - 256) := by omega
    rw [SymbolId.index_of_code id _ hindex] at h
    exact ⟨_, hindex, h⟩
  · rintro ⟨i, hcode, hautomaton⟩
    have hlt : ¬ id.code < SymbolId.firstCode := by
      rw [SymbolId.code_lt_firstCode_iff]
      omega
    rwa [if_neg hlt, SymbolId.index_of_code id i hcode]

theorem mem_of_automaton? {grammar : Grammar} {id : SymbolId} {automaton : Automaton}
    (h : grammar.automaton? id = some automaton) : automaton ∈ grammar.automata := by
  obtain ⟨i, -, hi⟩ := (grammar.automaton?_eq_some_iff id automaton).1 h
  exact Array.mem_of_getElem? hi

theorem opened?_eq_some_iff (grammar : Grammar) (arc : Arc) (automaton : Automaton) :
    Parser.opened? grammar arc = some automaton ↔
      ∃ id, grammar.entry? arc.label = some (.symbol id) ∧ grammar.automaton? id = some automaton := by
  unfold Parser.opened?
  split
  · rename_i id hentry
    simp [hentry]
  · rename_i hentry
    constructor
    · exact by simp
    · rintro ⟨id, hid, -⟩
      exact absurd hid (hentry id)

theorem mem_of_opened? {grammar : Grammar} {arc : Arc} {automaton : Automaton}
    (h : Parser.opened? grammar arc = some automaton) : automaton ∈ grammar.automata := by
  obtain ⟨id, -, hid⟩ := (grammar.opened?_eq_some_iff arc automaton).1 h
  exact mem_of_automaton? hid

section Labels

variable {grammar : Grammar}

theorem Sound.entry_of_labelOf (hs : grammar.Sound) {entry : LabelEntry} {label : Label}
    (h : grammar.labelOf? entry = some label) : grammar.entry? label = some entry := by
  obtain ⟨i, hfind, rfl⟩ := Option.map_eq_some_iff.1 h
  obtain ⟨hi, hentry, -⟩ := Array.findIdx?_eq_some_iff_getElem.1 hfind
  have hle := hs.labels_le
  rw [Grammar.entry?, Label.index_labelAt i (by omega), Array.getElem?_eq_getElem hi, of_decide_eq_true hentry]

theorem Sound.labelOf_of_entry (hs : grammar.Sound) {entry : LabelEntry} {label : Label}
    (h : grammar.entry? label = some entry) : grammar.labelOf? entry = some label := by
  cases hlabel : grammar.labelOf? entry with
  | none =>
    have hall := Array.findIdx?_eq_none_iff.1 (Option.map_eq_none_iff.1 hlabel)
    have hfalse := hall entry (Array.mem_of_getElem? h)
    simp at hfalse
  | some label' =>
    have h' := hs.entry_of_labelOf hlabel
    rw [Grammar.entry?, ← Array.getElem?_toList] at h h'
    have hbound := (List.getElem?_eq_some_iff.1 h).1
    have hindex := (List.getElem?_inj hbound hs.labels_nodup).1 (h.trans h'.symm)
    rw [Label.index_injective label label' hindex]

/-- The label of a token stands for tokens of its kind, or it is the implicit one of an end marker. -/
theorem Sound.entry_of_resolve (hs : grammar.Sound) {kind : TokenKind} {text : String} {label : Label}
    (h : grammar.resolve? kind text = some label) :
    (∃ text, grammar.entry? label = some (.token kind text)) ∨
      kind = .endMarker ∧ grammar.entry? label = none := by
  unfold resolve? at h
  rcases Option.or_eq_some_iff.1 h with hexact | ⟨-, h⟩
  · exact .inl ⟨_, hs.entry_of_labelOf hexact⟩
  rcases Option.or_eq_some_iff.1 h with hkind | ⟨-, h⟩
  · exact .inl ⟨_, hs.entry_of_labelOf hkind⟩
  -- What is left is the implicit end, which lies behind every label table.
  split at h
  · rename_i hend
    cases h
    exact .inr ⟨of_decide_eq_true hend, Array.getElem?_eq_none hs.labels_le⟩
  · cases h

theorem Sound.opened?_of_resolve? (hs : grammar.Sound) {kind : TokenKind} {text : String} {arc : Arc}
    (h : grammar.resolve? kind text = some arc.label) : Parser.opened? grammar arc = none := by
  cases hopened : Parser.opened? grammar arc with
  | none => rfl
  | some automaton =>
    obtain ⟨id, hid, -⟩ := (grammar.opened?_eq_some_iff arc automaton).1 hopened
    rcases hs.entry_of_resolve h with ⟨_, hentry⟩ | ⟨-, hentry⟩
    · cases hid.symm.trans hentry
    · cases hid.symm.trans hentry

/-- An arc that leads through a nonterminal carries the one label that stands for it. -/
theorem Sound.labelOf?_of_opened? (hs : grammar.Sound) {arc : Arc} {automaton : Automaton}
    (h : Parser.opened? grammar arc = some automaton) :
    grammar.automaton? automaton.symbol = some automaton ∧
      grammar.labelOf? (.symbol automaton.symbol) = some arc.label := by
  obtain ⟨id, hentry, hautomaton⟩ := (grammar.opened?_eq_some_iff arc automaton).1 h
  rw [hs.symbol_eq id automaton hautomaton]
  exact ⟨hautomaton, hs.labelOf_of_entry hentry⟩

theorem Sound.opened?_of_labelOf? (hs : grammar.Sound) {arc : Arc} {symbol : SymbolId}
    (h : grammar.labelOf? (.symbol symbol) = some arc.label) :
    Parser.opened? grammar arc = grammar.automaton? symbol := by
  rw [Parser.opened?, hs.entry_of_labelOf h]

end Labels

end Pushdown.Grammar
