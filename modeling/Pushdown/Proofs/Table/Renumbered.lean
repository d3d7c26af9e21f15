import Mathlib.Logic.Equiv.Defs
import Pushdown.Proofs.Table.Compile

/-!
Tables over the same labels in another order. The number of a label is only a name for its entry, and the order of
arcs and of first labels means nothing, so such tables are well-formed together. Tables that differ only in what they
say about first labels are among them.
-/

namespace Pushdown

/-- The permutation takes the position of the one label to that of the other. -/
def Label.Renamed (p : Equiv.Perm Nat) (label label' : Label) : Prop := label'.index = p label.index

structure Arc.Renamed (p : Equiv.Perm Nat) (arc arc' : Arc) : Prop where
  label : arc.label.Renamed p arc'.label
  target_eq : arc'.target = arc.target

/-- The arcs are renamed, and they stand in any order. -/
structure StateEntry.Rearranged (p : Equiv.Perm Nat) (state state' : StateEntry) : Prop where
  accepting_eq : state'.accepting = state.accepting
  arcs : (state.arcs.map fun arc => (p arc.label.index, arc.target)).Perm
    (state'.arcs.map fun arc => (arc.label.index, arc.target))

structure SymbolEntry.Rearranged (p : Equiv.Perm Nat) (symbol symbol' : SymbolEntry) : Prop where
  name_eq : symbol'.name = symbol.name
  size_eq : symbol'.states.size = symbol.states.size
  state : ∀ (i : Nat) state state', symbol.states[i]? = some state → symbol'.states[i]? = some state' →
    state.Rearranged p state'

namespace Table

/-- The entries of the label table are permuted, and the arcs carry the new labels and stand in any order. -/
structure Rearranged (p : Equiv.Perm Nat) (table table' : Table) : Prop where
  version_eq : table'.version = table.version
  tokenNames_eq : table'.tokenNames = table.tokenNames
  starts_eq : table'.starts = table.starts
  labels_size : table'.labels.size = table.labels.size
  /-- Only positions of the label table are moved. -/
  fixed : ∀ i, table.labels.size ≤ i → p i = i
  label : ∀ i : Nat, table'.labels[p i]? = table.labels[i]?
  symbols_size : table'.symbols.size = table.symbols.size
  symbol : ∀ (i : Nat) symbol symbol', table.symbols[i]? = some symbol → table'.symbols[i]? = some symbol' →
    symbol.Rearranged p symbol'

/-- The first labels as well are the new ones, in any order. -/
structure Renumbered (p : Equiv.Perm Nat) (table table' : Table) : Prop extends table.Rearranged p table' where
  first : ∀ (i : Nat) symbol symbol', table.symbols[i]? = some symbol → table'.symbols[i]? = some symbol' →
    (symbol.first.map fun label => p label.index).Perm (symbol'.first.map Label.index)

end Table

theorem exists_getElem?_of_size_eq {α β : Type} {as : Array α} {bs : Array β} (hsize : bs.size = as.size) {i : Nat}
    {a : α} (h : as[i]? = some a) : ∃ b, bs[i]? = some b :=
  ⟨_, Array.getElem?_eq_getElem (hsize ▸ (Array.getElem?_eq_some_iff.1 h).1)⟩

variable {p : Equiv.Perm Nat}

section Symm

theorem Label.Renamed.symm {label label' : Label} (h : label.Renamed p label') : label'.Renamed p.symm label :=
  (p.symm_apply_eq.2 h).symm

theorem Label.Renamed.unique {label a b : Label} (ha : label.Renamed p a) (hb : label.Renamed p b) : a = b :=
  Label.index_injective a b (Eq.trans ha (Eq.symm hb))

theorem Arc.Renamed.symm {arc arc' : Arc} (h : arc.Renamed p arc') : arc'.Renamed p.symm arc :=
  ⟨h.label.symm, h.target_eq.symm⟩

/-- What is renamed and permuted can be named back, and is a permutation of what it was. -/
theorem perm_map_back {α β : Type} (view : α → β) (rename back : β → β) (hback : ∀ b, back (rename b) = b)
    {as bs : List α} (h : (as.map fun a => rename (view a)).Perm (bs.map view)) :
    (bs.map fun b => back (view b)).Perm (as.map view) := by
  have hmap := (h.map back).symm
  simpa only [List.map_map, Function.comp_def, hback] using hmap

theorem StateEntry.Rearranged.symm {state state' : StateEntry} (h : state.Rearranged p state') :
    state'.Rearranged p.symm state where
  accepting_eq := h.accepting_eq.symm
  arcs := perm_map_back (fun arc : Arc => (arc.label.index, arc.target)) (fun pair => (p pair.1, pair.2))
    (fun pair => (p.symm pair.1, pair.2)) (fun pair => Prod.ext (p.symm_apply_apply pair.1) rfl) h.arcs

theorem SymbolEntry.Rearranged.symm {symbol symbol' : SymbolEntry} (h : symbol.Rearranged p symbol') :
    symbol'.Rearranged p.symm symbol where
  name_eq := h.name_eq.symm
  size_eq := h.size_eq.symm
  state i state' state hstate' hstate := (h.state i state state' hstate hstate').symm

theorem Table.Rearranged.symm {table table' : Table} (h : table.Rearranged p table') :
    table'.Rearranged p.symm table where
  version_eq := h.version_eq.symm
  tokenNames_eq := h.tokenNames_eq.symm
  starts_eq := h.starts_eq.symm
  labels_size := h.labels_size.symm
  fixed i hi := p.symm_apply_eq.2 (h.fixed i (h.labels_size ▸ hi)).symm
  label i := by rw [← h.label, p.apply_symm_apply]
  symbols_size := h.symbols_size.symm
  symbol i symbol' symbol hsymbol' hsymbol := (h.symbol i symbol symbol' hsymbol hsymbol').symm

theorem Table.Renumbered.symm {table table' : Table} (h : table.Renumbered p table') :
    table'.Renumbered p.symm table where
  toRearranged := h.toRearranged.symm
  first i symbol' symbol hsymbol' hsymbol :=
    perm_map_back Label.index p p.symm p.symm_apply_apply (h.first i symbol symbol' hsymbol hsymbol')

end Symm

theorem StateEntry.Rearranged.exists_arc {state state' : StateEntry} (h : state.Rearranged p state') {arc : Arc}
    (harc : arc ∈ state.arcs) : ∃ arc' ∈ state'.arcs, arc.Renamed p arc' := by
  have hmem := h.arcs.mem_iff.1 (List.mem_map_of_mem harc)
  obtain ⟨arc', harc', heq⟩ := List.mem_map.1 hmem
  exact ⟨arc', harc', congrArg Prod.fst heq, congrArg Prod.snd heq⟩

theorem StateEntry.Rearranged.exists_arc_of_mem {state state' : StateEntry} (h : state.Rearranged p state') {arc' : Arc}
    (harc' : arc' ∈ state'.arcs) : ∃ arc ∈ state.arcs, arc.Renamed p arc' := by
  have hmem := h.arcs.mem_iff.2 (List.mem_map_of_mem harc')
  obtain ⟨arc, harc, heq⟩ := List.mem_map.1 hmem
  exact ⟨arc, harc, (congrArg Prod.fst heq).symm, (congrArg Prod.snd heq).symm⟩

theorem SymbolEntry.Rearranged.exists_state_of_mem {symbol symbol' : SymbolEntry} (h : symbol.Rearranged p symbol')
    {state' : StateEntry} (hstate' : state' ∈ symbol'.states) :
    ∃ state ∈ symbol.states, state.Rearranged p state' := by
  obtain ⟨i, hi⟩ := Array.mem_iff_getElem?.1 hstate'
  obtain ⟨state, hstate⟩ := exists_getElem?_of_size_eq h.size_eq.symm hi
  exact ⟨state, Array.mem_of_getElem? hstate, h.state i state state' hstate hi⟩

namespace Table

variable {table table' : Table} {label label' : Label} {arc arc' : Arc}

section Relations

variable (h : table.Rearranged p table')

include h

theorem Rearranged.entry_eq (hlabel : label.Renamed p label') :
    table'.labels[label'.index]? = table.labels[label.index]? := by
  rw [hlabel, h.label]

theorem Rearranged.terminal_iff (hlabel : label.Renamed p label') : table.Terminal label ↔ table'.Terminal label' := by
  rw [Terminal, Terminal, h.entry_eq hlabel]

theorem Rearranged.standsFor_iff (hlabel : label.Renamed p label') (i : Nat) :
    table.StandsFor label i ↔ table'.StandsFor label' i := by
  rw [StandsFor, StandsFor, h.entry_eq hlabel]

theorem Rearranged.exists_symbol {i : Nat} {symbol : SymbolEntry} (hsymbol : table.symbols[i]? = some symbol) :
    ∃ symbol', table'.symbols[i]? = some symbol' ∧ symbol.Rearranged p symbol' := by
  obtain ⟨symbol', hsymbol'⟩ := exists_getElem?_of_size_eq h.symbols_size hsymbol
  exact ⟨symbol', hsymbol', h.symbol i symbol symbol' hsymbol hsymbol'⟩

theorem Rearranged.exists_initialArc {i : Nat} (harc : table.InitialArc i arc) :
    ∃ arc', arc.Renamed p arc' ∧ table'.InitialArc i arc' := by
  obtain ⟨symbol, state, hsymbol, hstate, harc⟩ := harc
  obtain ⟨symbol', hsymbol', hrearranged⟩ := h.exists_symbol hsymbol
  obtain ⟨state', hstate'⟩ := exists_getElem?_of_size_eq hrearranged.size_eq hstate
  obtain ⟨arc', harc', hrenamed⟩ := (hrearranged.state 0 state state' hstate hstate').exists_arc harc
  exact ⟨arc', hrenamed, symbol', state', hsymbol', hstate', harc'⟩

theorem Rearranged.beginsWith {i j : Nat} (hbegins : table.BeginsWith i j) : table'.BeginsWith i j := by
  obtain ⟨arc, harc, hstands⟩ := hbegins
  obtain ⟨arc', hrenamed, harc'⟩ := h.exists_initialArc harc
  exact ⟨arc', harc', (h.standsFor_iff hrenamed.label j).1 hstands⟩

theorem Rearranged.beginsWith_eq : table'.BeginsWith = table.BeginsWith := by
  funext i j
  exact propext ⟨h.symm.beginsWith, h.beginsWith⟩

theorem Rearranged.firstLabel (hlabel : label.Renamed p label') {i : Nat} (hfirst : table.FirstLabel i label) :
    table'.FirstLabel i label' := by
  obtain ⟨hterminal, j, arc, hpath, harc, rfl⟩ := hfirst
  obtain ⟨arc', hrenamed, harc'⟩ := h.exists_initialArc harc
  refine ⟨(h.terminal_iff hlabel).1 hterminal, j, arc', ?_, harc', ?_⟩
  · rwa [h.beginsWith_eq]
  · exact hrenamed.label.unique hlabel

theorem Rearranged.consumes (harc : arc.Renamed p arc') (hlabel : label.Renamed p label')
    (hconsumes : table.Consumes arc label) : table'.Consumes arc' label' := by
  rcases hconsumes with ⟨hterminal, rfl⟩ | ⟨i, hstands, hfirst⟩
  · exact .inl ⟨(h.terminal_iff hlabel).1 hterminal, harc.label.unique hlabel⟩
  · exact .inr ⟨i, (h.standsFor_iff harc.label i).1 hstands, h.firstLabel hlabel hfirst⟩

theorem Rearranged.lt_iff (i : Nat) : p i < table.labels.size ↔ i < table.labels.size := by
  have hnone : table'.labels[p i]? = none ↔ table.labels[i]? = none := by rw [h.label]
  rw [Array.getElem?_eq_none_iff, Array.getElem?_eq_none_iff, h.labels_size] at hnone
  omega

/-- Every label has a new one. A label behind the label table is its own. -/
theorem Rearranged.exists_renamed (hle : table.labels.size ≤ 65535) (label : Label) :
    ∃ label', label.Renamed p label' := by
  have hlt : p label.index < 65536 := by
    -- Inside the label table the permutation does not lead out of it, and outside it moves nothing.
    by_cases hlabel : label.index < table.labels.size
    · have := (h.lt_iff label.index).2 hlabel
      omega
    · rw [h.fixed label.index (Nat.not_lt.1 hlabel)]
      exact label.code.toNat_lt
  exact ⟨Grammar.labelAt (p label.index), Label.index_labelAt _ hlt⟩

end Relations

section WellFormed

theorem Rearranged.mem_labels (h : table.Rearranged p table') {entry : LabelEntry} (hentry : entry ∈ table'.labels) :
    entry ∈ table.labels := by
  obtain ⟨i, hi⟩ := Array.mem_iff_getElem?.1 hentry
  rw [← h.symm.label] at hi
  exact Array.mem_of_getElem? hi

theorem Rearranged.names_eq (h : table.Rearranged p table') :
    table'.symbols.toList.map (·.name) = table.symbols.toList.map (·.name) := by
  apply List.ext_getElem
  · rw [List.length_map, List.length_map, Array.length_toList, Array.length_toList, h.symbols_size]
  · intro i hi' hi
    rw [List.length_map, Array.length_toList] at hi hi'
    rw [List.getElem_map, List.getElem_map, Array.getElem_toList, Array.getElem_toList]
    exact (h.symbol i _ _ (Array.getElem?_eq_getElem hi) (Array.getElem?_eq_getElem hi')).name_eq

theorem Rearranged.labels_nodup (h : table.Rearranged p table') (hnodup : table.labels.toList.Nodup) :
    table'.labels.toList.Nodup := by
  rw [List.nodup_iff_getElem?_ne_getElem?]
  intro i j hlt hj heq
  rw [Array.length_toList] at hj
  rw [Array.getElem?_toList, Array.getElem?_toList, ← h.symm.label, ← h.symm.label, ← Array.getElem?_toList,
    ← Array.getElem?_toList] at heq
  -- Equal entries stand at one place of the old table, so they stand at one place of the new one.
  have hi : p.symm i < table.labels.toList.length := by
    have := (h.symm.lt_iff i).2 (hlt.trans hj)
    rwa [Array.length_toList, ← h.labels_size]
  have hplace := p.symm.injective ((List.getElem?_inj hi hnodup).1 heq)
  omega

theorem Rearranged.exists_symbol_of_mem (h : table.Rearranged p table') {symbol' : SymbolEntry}
    (hsymbol' : symbol' ∈ table'.symbols) :
    ∃ symbol ∈ table.symbols, symbol.Rearranged p symbol' := by
  obtain ⟨i, hi⟩ := Array.mem_iff_getElem?.1 hsymbol'
  obtain ⟨symbol, hsymbol, -⟩ := h.symm.exists_symbol hi
  exact ⟨symbol, Array.mem_of_getElem? hsymbol, h.symbol i symbol symbol' hsymbol hi⟩

theorem Structured.rearranged (hs : table.Structured) (h : table.Rearranged p table') : table'.Structured where
  version := h.version_eq.trans hs.version
  symbols_pos := h.symbols_size ▸ hs.symbols_pos
  symbols_le := h.symbols_size ▸ hs.symbols_le
  labels_le := h.labels_size ▸ hs.labels_le
  names_nodup := h.names_eq ▸ hs.names_nodup
  kind_lt kind text hentry := hs.kind_lt kind text (h.mem_labels hentry)
  symbol_exists id hentry := h.symbols_size ▸ hs.symbol_exists id (h.mem_labels hentry)
  labels_nodup := h.labels_nodup hs.labels_nodup
  initial := by
    intro symbol' hsymbol'
    obtain ⟨symbol, hsymbol, hrearranged⟩ := h.exists_symbol_of_mem hsymbol'
    obtain ⟨state, hstate, hrejecting⟩ := hs.initial symbol hsymbol
    obtain ⟨state', hstate'⟩ := exists_getElem?_of_size_eq hrearranged.size_eq hstate
    exact ⟨state', hstate', (hrearranged.state 0 state state' hstate hstate').accepting_eq.trans hrejecting⟩
  label_lt := by
    intro symbol' hsymbol' state' hstate' arc' harc'
    obtain ⟨symbol, hsymbol, hrearranged⟩ := h.exists_symbol_of_mem hsymbol'
    obtain ⟨state, hstate, hstates⟩ := hrearranged.exists_state_of_mem hstate'
    obtain ⟨arc, harc, hrenamed⟩ := hstates.exists_arc_of_mem harc'
    have hlt := hs.label_lt symbol hsymbol state hstate arc harc
    rwa [← h.lt_iff, ← hrenamed.label, ← h.labels_size] at hlt
  target_lt := by
    intro symbol' hsymbol' state' hstate' arc' harc'
    obtain ⟨symbol, hsymbol, hrearranged⟩ := h.exists_symbol_of_mem hsymbol'
    obtain ⟨state, hstate, hstates⟩ := hrearranged.exists_state_of_mem hstate'
    obtain ⟨arc, harc, hrenamed⟩ := hstates.exists_arc_of_mem harc'
    rw [hrearranged.size_eq, hrenamed.target_eq]
    exact hs.target_lt symbol hsymbol state hstate arc harc

theorem Rearranged.deterministic (h : table.Rearranged p table') (hle : table.labels.size ≤ 65535)
    {state state' : StateEntry} (hstates : state.Rearranged p state')
    (hdeterministic : state.arcs.Pairwise fun a b => ∀ label, ¬ (table.Consumes a label ∧ table.Consumes b label)) :
    state'.arcs.Pairwise fun a b => ∀ label, ¬ (table'.Consumes a label ∧ table'.Consumes b label) := by
  -- Of the arcs only the numbers are permuted, so the statement is made about them.
  let apart (x y : Nat × UInt32) : Prop := ∀ a b : Arc, (a.label.index, a.target) = x → (b.label.index, b.target) = y →
    ∀ label, ¬ (table'.Consumes a label ∧ table'.Consumes b label)
  have hrenamed : ∀ {arc arc' : Arc}, (arc'.label.index, arc'.target) = (p arc.label.index, arc.target) →
      arc.Renamed p arc' := fun heq => ⟨congrArg Prod.fst heq, congrArg Prod.snd heq⟩
  have hmapped : (state.arcs.map fun arc => (p arc.label.index, arc.target)).Pairwise apart := by
    rw [List.pairwise_map]
    refine hdeterministic.imp ?_
    rintro a b hab a' b' ha hb label' ⟨hca, hcb⟩
    -- A label that two new arcs consume has an old one that both old arcs would consume.
    obtain ⟨label, hlabel⟩ := h.symm.exists_renamed (h.labels_size ▸ hle) label'
    exact hab label ⟨h.symm.consumes (hrenamed ha).symm hlabel hca, h.symm.consumes (hrenamed hb).symm hlabel hcb⟩
  have hsymm : ∀ {x y}, apart x y → apart y x := fun hxy a b ha hb label hboth => hxy b a hb ha label hboth.symm
  have hpermuted := hstates.arcs.pairwise hmapped hsymm
  rw [List.pairwise_map] at hpermuted
  exact hpermuted.imp fun hab => hab _ _ rfl rfl

theorem Renumbered.mem_first_iff (h : table.Renumbered p table') {i : Nat} {symbol symbol' : SymbolEntry}
    (hsymbol : table.symbols[i]? = some symbol) (hsymbol' : table'.symbols[i]? = some symbol') (label' : Label) :
    label' ∈ symbol'.first ↔ ∃ label ∈ symbol.first, label.Renamed p label' := by
  have hinjective : Function.Injective Label.index := Label.index_injective
  rw [← List.mem_map_of_injective hinjective, ← (h.first i symbol symbol' hsymbol hsymbol').mem_iff, List.mem_map]
  exact exists_congr fun label => and_congr_right fun _ => eq_comm

theorem Structured.fill (hs : table.Structured) (h : table.Rearranged p table')
    (hacyclic : ∀ i, ¬ Relation.TransGen table.BeginsWith i i)
    (hstarts : ∀ entry ∈ table.starts.entries, ∃ symbol ∈ table.symbols, symbol.name = entry.2)
    (hnodup : ∀ symbol ∈ table'.symbols, symbol.first.Nodup)
    (hexact : ∀ (i : Nat) symbol, table'.symbols[i]? = some symbol →
      ∀ label, label ∈ symbol.first ↔ table'.FirstLabel i label) : table'.Filled where
  toStructured := hs.rearranged h
  acyclic := by
    rw [h.beginsWith_eq]
    exact hacyclic
  first_nodup := hnodup
  first_exact := hexact
  start_exists := by
    rw [h.starts_eq]
    intro entry hentry
    obtain ⟨symbol, hsymbol, hname⟩ := hstarts entry hentry
    obtain ⟨symbol', hsymbol', hrearranged⟩ := h.symm.exists_symbol_of_mem hsymbol
    exact ⟨symbol', hsymbol', hrearranged.symm.name_eq.trans hname⟩

/-- If its first labels are right, a table is well-formed with every other one over the same labels. -/
theorem WellFormed.rearranged (hwell : table.WellFormed) (h : table.Rearranged p table')
    (hnodup : ∀ symbol ∈ table'.symbols, symbol.first.Nodup)
    (hexact : ∀ (i : Nat) symbol, table'.symbols[i]? = some symbol →
      ∀ label, label ∈ symbol.first ↔ table'.FirstLabel i label) : table'.WellFormed where
  toStructured := hwell.toStructured.rearranged h
  acyclic := (hwell.toStructured.fill h hwell.acyclic hwell.start_exists hnodup hexact).acyclic
  first_nodup := hnodup
  first_exact := hexact
  deterministic := by
    intro symbol' hsymbol' state' hstate'
    obtain ⟨symbol, hsymbol, hrearranged⟩ := h.exists_symbol_of_mem hsymbol'
    obtain ⟨state, hstate, hstates⟩ := hrearranged.exists_state_of_mem hstate'
    exact h.deterministic hwell.labels_le hstates (hwell.deterministic symbol hsymbol state hstate)
  starts_ne_nil := by
    rw [h.starts_eq]
    exact hwell.starts_ne_nil
  start_exists := (hwell.toStructured.fill h hwell.acyclic hwell.start_exists hnodup hexact).start_exists

theorem WellFormed.renumbered (hwell : table.WellFormed) (h : table.Renumbered p table') : table'.WellFormed := by
  apply hwell.rearranged h.toRearranged
  · intro symbol' hsymbol'
    obtain ⟨i, hi⟩ := Array.mem_iff_getElem?.1 hsymbol'
    obtain ⟨symbol, hsymbol, -⟩ := h.symm.exists_symbol hi
    have hinjective : Function.Injective fun label : Label => p label.index :=
      fun a b hab => Label.index_injective a b (p.injective hab)
    have hnodup := (hwell.first_nodup symbol (Array.mem_of_getElem? hsymbol)).map hinjective
    exact ((h.first i symbol symbol' hsymbol hi).nodup_iff.1 hnodup).of_map
  · intro i symbol' hsymbol' label'
    obtain ⟨symbol, hsymbol, -⟩ := h.symm.exists_symbol hsymbol'
    rw [h.mem_first_iff hsymbol hsymbol']
    constructor
    · rintro ⟨label, hmem, hlabel⟩
      exact h.firstLabel hlabel ((hwell.first_exact i symbol hsymbol label).1 hmem)
    · intro hfirst
      obtain ⟨label, hlabel⟩ := h.symm.exists_renamed (h.labels_size ▸ hwell.labels_le) label'
      exact ⟨label, (hwell.first_exact i symbol hsymbol label).2 (h.symm.firstLabel hlabel hfirst), hlabel.symm⟩

end WellFormed

section SameNumbers

/-- Tables that differ at most in their first columns. -/
theorem rearranged_of_symbols (table : Table) {symbols : Array SymbolEntry} (hsize : symbols.size = table.symbols.size)
    (hsame : ∀ (i : Nat) symbol symbol', table.symbols[i]? = some symbol → symbols[i]? = some symbol' →
      symbol'.name = symbol.name ∧ symbol'.states = symbol.states) :
    table.Rearranged (.refl Nat) { table with symbols := symbols } where
  version_eq := rfl
  tokenNames_eq := rfl
  starts_eq := rfl
  labels_size := rfl
  fixed _ _ := rfl
  label _ := rfl
  symbols_size := hsize
  symbol := by
    intro i symbol symbol' hsymbol hsymbol'
    obtain ⟨hname, hstates⟩ := hsame i symbol symbol' hsymbol hsymbol'
    refine ⟨hname, congrArg Array.size hstates, ?_⟩
    intro j state state' hstate hstate'
    rw [hstates, hstate] at hstate'
    cases hstate'
    exact ⟨rfl, .refl _⟩

theorem Rearranged.firstLabel_eq (h : table.Rearranged (.refl Nat) table') : table'.FirstLabel = table.FirstLabel := by
  funext i label
  have hlabel : label.Renamed (.refl Nat) label := rfl
  exact propext ⟨h.symm.firstLabel hlabel.symm, h.firstLabel hlabel⟩

theorem Rearranged.consumes_eq (h : table.Rearranged (.refl Nat) table') : table'.Consumes = table.Consumes := by
  funext arc label
  have harc : arc.Renamed (.refl Nat) arc := ⟨rfl, rfl⟩
  have hlabel : label.Renamed (.refl Nat) label := rfl
  exact propext ⟨h.symm.consumes harc.symm hlabel.symm, h.consumes harc hlabel⟩

end SameNumbers

end Table

end Pushdown
