import Mathlib.Data.List.Nodup
import Mathlib.Logic.Relation
import Pushdown.Table.Defect

/-! What a table has to be like to make a grammar, and what each defect says about the table. -/

namespace Pushdown

namespace Table

/-- The label stands for tokens. -/
def Terminal (table : Table) (label : Label) : Prop :=
  ∃ kind text, table.labels[label.index]? = some (.token kind text)

/-- The label stands for the nonterminal at position `i`, whose code is `256 + i`. -/
def StandsFor (table : Table) (label : Label) (i : Nat) : Prop :=
  ∃ id, table.labels[label.index]? = some (.symbol id) ∧ id.code.toNat = 256 + i

/-- The arc leaves state 0 of the nonterminal at position `i`. -/
def InitialArc (table : Table) (i : Nat) (arc : Arc) : Prop :=
  ∃ symbol state, table.symbols[i]? = some symbol ∧ symbol.states[0]? = some state ∧ arc ∈ state.arcs

/-- State 0 of the nonterminal at position `i` has an arc labelled by the one at position `j`. -/
def BeginsWith (table : Table) (i j : Nat) : Prop :=
  ∃ arc, table.InitialArc i arc ∧ table.StandsFor arc.label j

/-- A terminal label that can be reached from the nonterminal at position `i` along `BeginsWith`. -/
def FirstLabel (table : Table) (i : Nat) (label : Label) : Prop :=
  table.Terminal label ∧
    ∃ j arc, Relation.ReflTransGen table.BeginsWith i j ∧ table.InitialArc j arc ∧ arc.label = label

/-- The arc can consume the terminal label, directly or through the nonterminal that it is labelled by. -/
def Consumes (table : Table) (arc : Arc) (label : Label) : Prop :=
  (table.Terminal label ∧ arc.label = label) ∨ ∃ i, table.StandsFor arc.label i ∧ table.FirstLabel i label

/-- What holds of the parts of a table taken one at a time. -/
structure Structured (table : Table) : Prop where
  version : table.version = 1
  symbols_pos : 1 ≤ table.symbols.size
  symbols_le : table.symbols.size ≤ 65280
  labels_le : table.labels.size ≤ 65535
  names_nodup : (table.symbols.toList.map (·.name)).Nodup
  kind_lt : ∀ kind text, .token kind text ∈ table.labels → kind.code.toNat < 256
  symbol_exists : ∀ id, .symbol id ∈ table.labels → ∃ i < table.symbols.size, id.code.toNat = 256 + i
  labels_nodup : table.labels.toList.Nodup
  initial : ∀ symbol ∈ table.symbols, ∃ state, symbol.states[0]? = some state ∧ state.accepting = false
  label_lt : ∀ symbol ∈ table.symbols, ∀ state ∈ symbol.states, ∀ arc ∈ state.arcs,
    arc.label.index < table.labels.size
  target_lt : ∀ symbol ∈ table.symbols, ∀ state ∈ symbol.states, ∀ arc ∈ state.arcs,
    arc.target.toNat < symbol.states.size

/-- All that a table is checked for. -/
structure WellFormed (table : Table) : Prop extends table.Structured where
  acyclic : ∀ i, ¬ Relation.TransGen table.BeginsWith i i
  first_nodup : ∀ symbol ∈ table.symbols, symbol.first.Nodup
  first_exact : ∀ i symbol, table.symbols[i]? = some symbol →
    ∀ label, label ∈ symbol.first ↔ table.FirstLabel i label
  /-- Arcs that stand at different places are different, even if they are equal. -/
  deterministic : ∀ symbol ∈ table.symbols, ∀ state ∈ symbol.states,
    state.arcs.Pairwise fun a b => ∀ label, ¬ (table.Consumes a label ∧ table.Consumes b label)
  starts_ne_nil : table.starts.entries ≠ []
  start_exists : ∀ entry ∈ table.starts.entries, ∃ symbol ∈ table.symbols, symbol.name = entry.2

/-- Nothing in the table contradicts anything else in it. First labels are left aside. -/
structure Consistent (table : Table) : Prop where
  version : table.version = 1
  symbols_le : table.symbols.size ≤ 65280
  names_nodup : (table.symbols.toList.map (·.name)).Nodup
  labels_nodup : table.labels.toList.Nodup
  label_lt : ∀ symbol ∈ table.symbols, ∀ state ∈ symbol.states, ∀ arc ∈ state.arcs,
    arc.label.index < table.labels.size
  target_lt : ∀ symbol ∈ table.symbols, ∀ state ∈ symbol.states, ∀ arc ∈ state.arcs,
    arc.target.toNat < symbol.states.size
  start_exists : ∀ entry ∈ table.starts.entries, ∃ symbol ∈ table.symbols, symbol.name = entry.2

/-- All that a table is checked for, but that its states are deterministic and that it has a start name. -/
structure Filled (table : Table) : Prop extends table.Structured where
  acyclic : ∀ i, ¬ Relation.TransGen table.BeginsWith i i
  first_nodup : ∀ symbol ∈ table.symbols, symbol.first.Nodup
  first_exact : ∀ i symbol, table.symbols[i]? = some symbol →
    ∀ label, label ∈ symbol.first ↔ table.FirstLabel i label
  start_exists : ∀ entry ∈ table.starts.entries, ∃ symbol ∈ table.symbols, symbol.name = entry.2

theorem Filled.consistent {table : Table} (h : table.Filled) : table.Consistent :=
  ⟨h.version, h.symbols_le, h.names_nodup, h.labels_nodup, h.label_lt, h.target_lt, h.start_exists⟩

theorem WellFormed.filled {table : Table} (h : table.WellFormed) : table.Filled :=
  ⟨h.toStructured, h.acyclic, h.first_nodup, h.first_exact, h.start_exists⟩

end Table

/--
The table has the defect, with the names and numbers that the defect gives. `Numbers number i` says that the number is
that of the state at position `i`.
-/
def Defect.HoldsIn (Numbers : UInt32 → Nat → Prop) (table : Table) : Defect → Prop
  | notATable _ => False
  | unsupportedVersion version => table.version = version ∧ version ≠ 1
  | noSymbols => table.symbols.size = 0
  | tooManySymbols count => table.symbols.size = count ∧ 65280 < count
  | tooManyLabels count => table.labels.size = count ∧ 65535 < count
  | duplicateSymbol name => [name, name].Sublist (table.symbols.toList.map (·.name))
  | noStates name => ∃ symbol ∈ table.symbols, symbol.name = name ∧ symbol.states.size = 0
  -- The position is below the target here, so the number is always the position itself.
  | targetOutOfRange name number target =>
    ∃ symbol ∈ table.symbols, symbol.name = name ∧ ∃ state, symbol.states[number.toNat]? = some state ∧
      (∃ arc ∈ state.arcs, arc.target = target) ∧ symbol.states.size ≤ target.toNat
  | labelOutOfRange name number label =>
    ∃ symbol ∈ table.symbols, symbol.name = name ∧ ∃ i state, symbol.states[i]? = some state ∧ Numbers number i ∧
      (∃ arc ∈ state.arcs, arc.label = label) ∧ table.labels.size ≤ label.index
  | unknownSymbol label id =>
    table.labels[label.index]? = some (.symbol id) ∧ ¬ ∃ i < table.symbols.size, id.code.toNat = 256 + i
  | notATerminal label kind =>
    (∃ text, table.labels[label.index]? = some (.token kind text)) ∧ 256 ≤ kind.code.toNat
  | duplicateLabel label previous =>
    previous.index < label.index ∧
      ∃ entry, table.labels[previous.index]? = some entry ∧ table.labels[label.index]? = some entry
  | nullable name =>
    ∃ symbol ∈ table.symbols, symbol.name = name ∧
      ∃ state, symbol.states[0]? = some state ∧ state.accepting = true
  | leftRecursion name =>
    ∃ i symbol, table.symbols[i]? = some symbol ∧ symbol.name = name ∧
      Relation.TransGen table.BeginsWith i i
  | firstMismatch name =>
    ∃ i symbol, table.symbols[i]? = some symbol ∧ symbol.name = name ∧
      ¬ (symbol.first.Nodup ∧ ∀ label, label ∈ symbol.first ↔ table.FirstLabel i label)
  | ambiguous name number label =>
    ∃ symbol ∈ table.symbols, symbol.name = name ∧ ∃ i state, symbol.states[i]? = some state ∧ Numbers number i ∧
      ∃ before a between b after, state.arcs = before ++ a :: between ++ b :: after ∧
        table.Consumes a label ∧ table.Consumes b label
  | unknownStart name symbolName =>
    (name, symbolName) ∈ table.starts.entries ∧ ¬ ∃ symbol ∈ table.symbols, symbol.name = symbolName
  | noStarts => table.starts.entries = []

/-- The table has the defect. The number of a state is what 32 bits hold of its position. -/
def Defect.RealIn (table : Table) (defect : Defect) : Prop :=
  defect.HoldsIn (fun number i => number.toNat = i % UInt32.size) table

/-- The table has the defect, and the number of a state is its position. -/
def Defect.ExactIn (table : Table) (defect : Defect) : Prop :=
  defect.HoldsIn (fun number i => number.toNat = i) table

/-- Positions are not cut short unless a nonterminal has more states than 32 bits can number. -/
theorem Defect.RealIn.exactIn {table : Table} {defect : Defect} (h : defect.RealIn table)
    (hsize : ∀ symbol ∈ table.symbols, symbol.states.size ≤ UInt32.size) : defect.ExactIn table := by
  have hexact : ∀ symbol ∈ table.symbols, ∀ i state (number : UInt32), symbol.states[i]? = some state →
      number.toNat = i % UInt32.size → number.toNat = i := by
    intro symbol hsymbol i state number hstate hnumber
    have hlt := (Array.getElem?_eq_some_iff.1 hstate).1
    have hle := hsize symbol hsymbol
    rw [hnumber, Nat.mod_eq_of_lt (Nat.lt_of_lt_of_le hlt hle)]
  cases defect with
  | labelOutOfRange name number label =>
    obtain ⟨symbol, hsymbol, hname, i, state, hstate, hnumber, hrest⟩ := h
    exact ⟨symbol, hsymbol, hname, i, state, hstate, hexact symbol hsymbol i state number hstate hnumber, hrest⟩
  | ambiguous name number label =>
    obtain ⟨symbol, hsymbol, hname, i, state, hstate, hnumber, hrest⟩ := h
    exact ⟨symbol, hsymbol, hname, i, state, hstate, hexact symbol hsymbol i state number hstate hnumber, hrest⟩
  | _ => exact h

/-- What the search for first sets reports: a nonterminal that lies on a cycle. -/
def Defect.CycleIn (table : Table) (defect : Defect) : Prop :=
  ∃ i symbol, table.symbols[i]? = some symbol ∧ defect = .leftRecursion symbol.name ∧
    Relation.TransGen table.BeginsWith i i

/-- The defects that are seen before anything is compared with first sets. -/
def Defect.StructuralIn (table : Table) : Defect → Prop
  | firstMismatch _ | ambiguous _ _ _ | unknownStart _ _ | noStarts => False
  | defect => defect.RealIn table

theorem Defect.StructuralIn.realIn {table : Table} {defect : Defect} (h : defect.StructuralIn table) :
    defect.RealIn table := by
  cases defect with
  | firstMismatch name => exact h.elim
  | ambiguous name number label => exact h.elim
  | unknownStart name symbolName => exact h.elim
  | noStarts => exact h.elim
  | _ => exact h

theorem Defect.CycleIn.structuralIn {table : Table} {defect : Defect} (h : defect.CycleIn table) :
    defect.StructuralIn table := by
  obtain ⟨i, symbol, hsymbol, rfl, hcycle⟩ := h
  exact ⟨i, symbol, hsymbol, rfl, hcycle⟩

/-- The defects by which a table contradicts itself, its version, or the number of codes. -/
def Defect.isContradiction : Defect → Bool
  | unsupportedVersion _ | tooManySymbols _ | duplicateSymbol _ | duplicateLabel _ _ | labelOutOfRange _ _ _
  | targetOutOfRange _ _ _ | firstMismatch _ | unknownStart _ _ => true
  | _ => false

theorem Table.Consistent.not_realIn {table : Table} (h : table.Consistent) {defect : Defect}
    (hkind : defect.isContradiction = true) (hfirst : ∀ name, defect ≠ .firstMismatch name) :
    ¬ defect.RealIn table := by
  intro hd
  cases defect with
  | unsupportedVersion version => exact hd.2 (hd.1.symm.trans h.version)
  | tooManySymbols count =>
    have := h.symbols_le
    have := hd.1
    have := hd.2
    omega
  | duplicateSymbol name => exact List.nodup_iff_sublist.1 h.names_nodup name hd
  | targetOutOfRange name number target =>
    obtain ⟨symbol, hsymbol, -, state, hstate, ⟨arc, harc, rfl⟩, hle⟩ := hd
    have := h.target_lt symbol hsymbol state (Array.mem_of_getElem? hstate) arc harc
    omega
  | labelOutOfRange name number label =>
    obtain ⟨symbol, hsymbol, -, i, state, hstate, -, ⟨arc, harc, rfl⟩, hle⟩ := hd
    have := h.label_lt symbol hsymbol state (Array.mem_of_getElem? hstate) arc harc
    omega
  | duplicateLabel label previous =>
    -- Equal entries would stand at equal positions.
    obtain ⟨hlt, entry, hprevious, hlabel⟩ := hd
    rw [← Array.getElem?_toList] at hprevious hlabel
    have hbound := (List.getElem?_eq_some_iff.1 hprevious).1
    have heq := (List.getElem?_inj hbound h.labels_nodup).1 (hprevious.trans hlabel.symm)
    omega
  | firstMismatch name => exact hfirst name rfl
  | unknownStart name symbolName => exact hd.2 (h.start_exists _ hd.1)
  | _ => cases hkind

theorem Table.Filled.realIn_cases {table : Table} (h : table.Filled) {defect : Defect} (hd : defect.RealIn table) :
    (∃ name number label, defect = .ambiguous name number label) ∨ defect = .noStarts := by
  cases defect with
  | notATable reason => exact hd.elim
  | noSymbols =>
    have := h.symbols_pos
    have hsize : table.symbols.size = 0 := hd
    omega
  | tooManyLabels count =>
    have := h.labels_le
    have := hd.1
    have := hd.2
    omega
  | noStates name =>
    obtain ⟨symbol, hsymbol, -, hsize⟩ := hd
    obtain ⟨state, hstate, -⟩ := h.initial symbol hsymbol
    have := (Array.getElem?_eq_some_iff.1 hstate).1
    omega
  | unknownSymbol label id => exact absurd (h.symbol_exists id (Array.mem_of_getElem? hd.1)) hd.2
  | notATerminal label kind =>
    obtain ⟨⟨text, hentry⟩, hle⟩ := hd
    have := h.kind_lt kind text (Array.mem_of_getElem? hentry)
    omega
  | nullable name =>
    obtain ⟨symbol, hsymbol, -, state, hstate, haccepting⟩ := hd
    obtain ⟨state', hstate', hrejecting⟩ := h.initial symbol hsymbol
    obtain rfl := Option.some.inj (hstate.symm.trans hstate')
    exact absurd (hrejecting.symm.trans haccepting) Bool.false_ne_true
  | leftRecursion name =>
    obtain ⟨i, -, -, -, hcycle⟩ := hd
    exact absurd hcycle (h.acyclic i)
  | firstMismatch name =>
    obtain ⟨i, symbol, hsymbol, -, hmismatch⟩ := hd
    exact absurd ⟨h.first_nodup symbol (Array.mem_of_getElem? hsymbol), h.first_exact i symbol hsymbol⟩ hmismatch
  | ambiguous name number label => exact .inl ⟨name, number, label, rfl⟩
  | noStarts => exact .inr rfl
  | _ => exact absurd hd (h.consistent.not_realIn rfl (by simp))

/-- No table both has a defect and makes a grammar. -/
theorem Table.WellFormed.not_realIn {table : Table} (h : table.WellFormed) (defect : Defect) :
    ¬ defect.RealIn table := by
  intro hd
  rcases h.filled.realIn_cases hd with ⟨name, number, label, rfl⟩ | rfl
  · obtain ⟨symbol, hsymbol, -, i, state, hstate, -, before, a, between, b, after, harcs, hconsume⟩ := hd
    have hpairwise := h.deterministic symbol hsymbol state (Array.mem_of_getElem? hstate)
    rw [harcs] at hpairwise
    -- One of the arcs stands before the other.
    refine (List.pairwise_append.1 hpairwise).2.2 a ?_ b List.mem_cons_self label hconsume
    simp
  · exact h.starts_ne_nil hd

end Pushdown
