import Pushdown.Proofs.Draft.Parts
import Pushdown.Proofs.Table.Names

/-!
What one step makes of a draft. A step can name a kind of tokens, add a name, a label and an arc, mark a state, and
register a start name; whatever it does not mention stays as it is.
-/

namespace Pushdown.Draft

/-- A call on a draft. -/
inductive Step where
  | nameToken (kind : TokenKind) (name : String)
  | declare (name : String)
  | start (name : String) (id : SymbolId)
  /-- The entry says which kind of arc it is: along tokens of a kind, along a spelling, or through a nonterminal. -/
  | arc (id : SymbolId) (source : UInt32) (entry : LabelEntry) (target : UInt32)
  | accept (id : SymbolId) (number : UInt32)
deriving DecidableEq, Repr

/-- The draft after a call. A call on a nonterminal that has not been declared is an error. -/
def apply (draft : Draft) : Step → Except UndeclaredSymbol Draft
  | .nameToken kind name => .ok (draft.nameToken kind name)
  | .declare name => .ok (draft.declare name).2
  | .start name id => draft.start name id
  | .arc id source entry target => draft.addArc id source entry target
  | .accept id number => draft.accept id number

namespace Step

/-- The name that the step declares. -/
def declared? : Step → Option String
  | .declare name => some name
  | _ => none

/-- The name that the step gives to the kind of tokens. -/
def named? (kind : TokenKind) : Step → Option String
  | .nameToken other name => if kind = other then some name else none
  | _ => none

/-- The label entry that the step mentions. -/
def entry? : Step → Option LabelEntry
  | .arc _ _ entry _ => some entry
  | _ => none

/-- The start name that the step registers, with its nonterminal. -/
def started? : Step → Option (String × SymbolId)
  | .start name id => some (name, id)
  | _ => none

/-- The nonterminal that the step is about, which has to be declared. -/
def symbol? : Step → Option SymbolId
  | .start _ id | .arc id _ _ _ | .accept id _ => some id
  | _ => none

/-- The states that the step mentions for the nonterminal at position `i`. -/
def states (i : Nat) : Step → List UInt32
  | .arc id source _ target => if id.index = i then [source, target] else []
  | .accept id number => if id.index = i then [number] else []
  | _ => []

/-- The entry and the target that the step adds to state `j` of the nonterminal at position `i`. -/
def arc? (i j : Nat) : Step → Option (LabelEntry × UInt32)
  | .arc id source entry target => if id.index = i ∧ source.toNat = j then some (entry, target) else none
  | _ => none

/-- The step marks state `j` of the nonterminal at position `i`. -/
def accepts (i j : Nat) : Step → Bool
  | .accept id number => id.index = i ∧ number.toNat = j
  | _ => false

end Step

theorem exists_symbol_iff (draft : Draft) (id : SymbolId) :
    (∃ symbol, draft.symbol id = .ok symbol) ↔ id.index < draft.names.length := by
  rw [names, List.length_map, Array.length_toList]
  constructor
  · rintro ⟨symbol, h⟩
    exact (Array.getElem?_eq_some_iff.1 (exists_of_symbol_eq_ok h)).1
  · intro hlt
    refine ⟨draft.symbols[id.index], ?_⟩
    rw [Draft.symbol, Array.getElem?_eq_getElem hlt]

/-- A step is refused only if its nonterminal has not been declared. -/
theorem exists_apply_iff (draft : Draft) (step : Step) :
    (∃ draft', draft.apply step = .ok draft') ↔ ∀ id, step.symbol? = some id → id.index < draft.names.length := by
  -- Steps that are about no nonterminal always succeed. The others look theirs up first and cannot fail after that.
  have hplain : ∀ {next : Draft}, (∃ draft', (Except.ok next : Except UndeclaredSymbol Draft) = .ok draft') ↔
      ∀ id : SymbolId, none = some id → id.index < draft.names.length :=
    iff_of_true ⟨_, rfl⟩ fun _ h => by cases h
  have hsymbol : ∀ {id : SymbolId} {next : SymbolEntry → Draft},
      (∃ draft', (do let symbol ← draft.symbol id; return next symbol) = Except.ok draft') ↔
        ∀ id', some id = some id' → id'.index < draft.names.length := by
    intro id next
    constructor
    · rintro ⟨draft', h⟩ _ ⟨⟩
      obtain ⟨symbol, hfound, -⟩ := exists_of_bind_eq_ok h
      exact (draft.exists_symbol_iff id).1 ⟨symbol, hfound⟩
    · intro h
      obtain ⟨symbol, hfound⟩ := (draft.exists_symbol_iff id).2 (h id rfl)
      refine ⟨next symbol, ?_⟩
      rw [hfound]
      rfl
  cases step with
  | nameToken kind name => exact hplain
  | declare name => exact hplain
  | start name id => exact hsymbol
  | arc id source entry target => exact hsymbol
  | accept id number => exact hsymbol

/--
What a step makes of a draft: names, labels, arcs and marks are added behind those that were there, as the step
mentions them. A kind of tokens or a start name that is given anew loses what it had.
-/
structure Moves (draft : Draft) (step : Step) (draft' : Draft) : Prop where
  tokenName_eq : ∀ kind, draft'.tokenNames.get? kind = (step.named? kind).or (draft.tokenNames.get? kind)
  names_eq : draft'.names = addNew draft.names step.declared?
  labels_eq : draft'.labels.toList = addNew draft.labels.toList step.entry?
  size_eq : ∀ i, (draft'.states i).size = max (draft.states i).size (span (step.states i))
  arcs_eq : ∀ i j, (stateIn (draft'.states i) j).arcs = (stateIn (draft.states i) j).arcs ++
    (step.arc? i j).toList.map fun added => ⟨labelIn draft'.labels.toList added.1, added.2⟩
  accepting_eq : ∀ i j, (stateIn (draft'.states i) j).accepting =
    ((stateIn (draft.states i) j).accepting || step.accepts i j)
  starts_eq : ∀ name id, step.started? = some (name, id) →
    ∃ symbol, draft.names[id.index]? = some symbol ∧ draft'.starts = draft.starts.insert name symbol
  starts_kept : step.started? = none → draft'.starts = draft.starts

section Moves

variable {draft draft' : Draft}

theorem moves_nameToken (draft : Draft) (kind : TokenKind) (name : String) :
    draft.Moves (.nameToken kind name) (draft.nameToken kind name) where
  tokenName_eq other := by
    rw [nameToken, TokenNames.get?_insert, Step.named?]
    split <;> rfl
  names_eq := rfl
  labels_eq := rfl
  size_eq _ := (Nat.max_zero _).symm
  arcs_eq _ _ := (List.append_nil _).symm
  accepting_eq _ _ := (Bool.or_false _).symm
  starts_eq := by
    intro name id h
    cases h
  starts_kept _ := rfl

theorem moves_declare (draft : Draft) (name : String) : draft.Moves (.declare name) (draft.declare name).2 := by
  -- Whether the name is new or not, nothing but the row of nonterminals is touched.
  have hkept : (draft.declare name).2.tokenNames = draft.tokenNames ∧
      (draft.declare name).2.labels = draft.labels ∧ (draft.declare name).2.starts = draft.starts := by
    by_cases h : name ∈ draft.names
    · rw [declare_of_mem h]
      exact ⟨rfl, rfl, rfl⟩
    · rw [declare_of_not_mem h]
      exact ⟨rfl, rfl, rfl⟩
  exact {
    tokenName_eq := fun kind => congrArg (TokenNames.get? · kind) hkept.1
    names_eq := names_declare draft name
    labels_eq := congrArg Array.toList hkept.2.1
    size_eq := fun i => by
      rw [states_declare]
      exact (Nat.max_zero _).symm
    arcs_eq := fun i j => by
      rw [states_declare]
      exact (List.append_nil _).symm
    accepting_eq := fun i j => by
      rw [states_declare]
      exact (Bool.or_false _).symm
    starts_eq := by
      intro name id hstarted
      cases hstarted
    starts_kept := fun _ => hkept.2.2 }

theorem moves_start {name : String} {id : SymbolId} (h : draft.start name id = .ok draft') :
    draft.Moves (.start name id) draft' := by
  obtain ⟨symbol, hsymbol, h⟩ := exists_of_bind_eq_ok h
  cases h
  exact {
    tokenName_eq := fun _ => rfl
    names_eq := rfl
    labels_eq := rfl
    size_eq := fun _ => (Nat.max_zero _).symm
    arcs_eq := fun _ _ => (List.append_nil _).symm
    accepting_eq := fun _ _ => (Bool.or_false _).symm
    starts_eq := by
      rintro _ _ ⟨⟩
      refine ⟨symbol.name, ?_, rfl⟩
      rw [names_getElem?, exists_of_symbol_eq_ok hsymbol, Option.map_some]
    starts_kept := by
      intro h
      cases h }

/-- The nonterminal with an arc from one state to another. -/
def withArc (symbol : SymbolEntry) (source target : UInt32) (label : Label) : SymbolEntry :=
  changeState (changeState symbol target fun state => state) source fun state =>
    { state with arcs := state.arcs ++ [⟨label, target⟩] }

theorem name_withArc (symbol : SymbolEntry) (source target : UInt32) (label : Label) :
    (withArc symbol source target label).name = symbol.name := by
  rw [withArc, name_changeState, name_changeState]

theorem size_withArc (symbol : SymbolEntry) (source target : UInt32) (label : Label) :
    (withArc symbol source target label).states.size = max symbol.states.size (span [source, target]) := by
  rw [withArc, size_changeState, size_changeState, span, span, span]
  omega

theorem stateIn_withArc (symbol : SymbolEntry) (source target : UInt32) (label : Label) (j : Nat) :
    stateIn (withArc symbol source target label).states j =
      { stateIn symbol.states j with
        arcs := (stateIn symbol.states j).arcs ++ if source.toNat = j then [⟨label, target⟩] else [] } := by
  -- To mention the target only makes room for it.
  have hgrown : stateIn (changeState symbol target fun state => state).states j = stateIn symbol.states j := by
    rw [stateIn_changeState]
    exact ite_self _
  rw [withArc, stateIn_changeState, hgrown]
  split
  · rfl
  · rw [List.append_nil]

theorem exists_of_addArc_eq_ok {id : SymbolId} {source target : UInt32} {entry : LabelEntry}
    (h : draft.addArc id source entry target = .ok draft') :
    ∃ symbol, draft.symbols[id.index]? = some symbol ∧
      draft' = { draft.setSymbol id.index (withArc symbol source target (labelIn draft.labels.toList entry)) with
        labels := (addNew draft.labels.toList (some entry)).toArray } := by
  obtain ⟨symbol, hsymbol, h⟩ := exists_of_bind_eq_ok h
  rw [intern_eq] at h
  cases h
  exact ⟨symbol, exists_of_symbol_eq_ok hsymbol, rfl⟩

theorem moves_addArc {id : SymbolId} {source target : UInt32} {entry : LabelEntry}
    (h : draft.addArc id source entry target = .ok draft') : draft.Moves (.arc id source entry target) draft' := by
  obtain ⟨symbol, hsymbol, hdraft⟩ := exists_of_addArc_eq_ok h
  have hnames : (draft.setSymbol id.index (withArc symbol source target (labelIn draft.labels.toList entry))).names =
      draft.names := names_setSymbol hsymbol (name_withArc symbol source target _)
  have hlabels : draft'.labels.toList = addNew draft.labels.toList (some entry) := by rw [hdraft]
  have hstates : ∀ i, draft'.states i = if id.index = i then
      (withArc symbol source target (labelIn draft.labels.toList entry)).states else draft.states i := by
    intro i
    rw [hdraft]
    exact states_setSymbol hsymbol i
  have hold := states_of_symbol hsymbol
  exact {
    tokenName_eq := fun kind => by
      rw [hdraft]
      rfl
    names_eq := by
      rw [hdraft]
      exact hnames
    labels_eq := hlabels
    size_eq := by
      intro i
      rw [hstates, Step.states]
      split
      · rename_i heq
        rw [size_withArc, ← heq, hold]
      · exact (Nat.max_zero _).symm
    arcs_eq := by
      intro i j
      rw [hstates, hlabels]
      by_cases hi : id.index = i
      · have hstep : Step.arc? i j (.arc id source entry target) =
            if source.toNat = j then some (entry, target) else none := by
          simp only [Step.arc?, hi, true_and]
        rw [hstep, if_pos hi, stateIn_withArc, ← hi, hold]
        split
        · -- The label is looked up before its entry is added, and adding the entry does not change it.
          rw [Option.toList_some, List.map_singleton, labelIn_addNew_self]
        · rfl
      · have hstep : Step.arc? i j (.arc id source entry target) = none := if_neg fun h => hi h.1
        rw [hstep, if_neg hi]
        exact (List.append_nil _).symm
    accepting_eq := by
      intro i j
      have hstep : Step.accepts i j (.arc id source entry target) = false := rfl
      rw [hstates, hstep, Bool.or_false]
      split
      · rename_i heq
        rw [stateIn_withArc, ← heq, hold]
      · rfl
    starts_eq := by
      intro name id hstarted
      cases hstarted
    starts_kept := fun _ => by
      rw [hdraft]
      rfl }

/-- The nonterminal with a state marked as accepting. -/
def withMark (symbol : SymbolEntry) (number : UInt32) : SymbolEntry :=
  changeState symbol number fun state => { state with accepting := true }

theorem stateIn_withMark (symbol : SymbolEntry) (number : UInt32) (j : Nat) :
    stateIn (withMark symbol number).states j =
      { stateIn symbol.states j with
        accepting := (stateIn symbol.states j).accepting || decide (number.toNat = j) } := by
  rw [withMark, stateIn_changeState]
  split
  · rename_i heq
    rw [decide_eq_true heq, Bool.or_true]
  · rename_i hne
    rw [decide_eq_false hne, Bool.or_false]

theorem exists_of_accept_eq_ok {id : SymbolId} {number : UInt32} (h : draft.accept id number = .ok draft') :
    ∃ symbol, draft.symbols[id.index]? = some symbol ∧ draft' = draft.setSymbol id.index (withMark symbol number) := by
  obtain ⟨symbol, hsymbol, h⟩ := exists_of_bind_eq_ok h
  cases h
  exact ⟨symbol, exists_of_symbol_eq_ok hsymbol, rfl⟩

theorem moves_accept {id : SymbolId} {number : UInt32} (h : draft.accept id number = .ok draft') :
    draft.Moves (.accept id number) draft' := by
  obtain ⟨symbol, hsymbol, hdraft⟩ := exists_of_accept_eq_ok h
  have hstates : ∀ i, draft'.states i = if id.index = i then (withMark symbol number).states else draft.states i := by
    intro i
    rw [hdraft]
    exact states_setSymbol hsymbol i
  have hold := states_of_symbol hsymbol
  exact {
    tokenName_eq := fun kind => by
      rw [hdraft]
      rfl
    names_eq := by
      rw [hdraft]
      exact names_setSymbol hsymbol (name_changeState symbol number _)
    labels_eq := by
      rw [hdraft]
      rfl
    size_eq := by
      intro i
      rw [hstates, Step.states]
      split
      · rename_i heq
        rw [withMark, size_changeState, ← heq, hold, span, span, Nat.max_zero]
      · exact (Nat.max_zero _).symm
    arcs_eq := by
      intro i j
      have hstep : Step.arc? i j (.accept id number) = none := rfl
      rw [hstates, hstep, Option.toList_none, List.map_nil, List.append_nil]
      split
      · rename_i heq
        rw [stateIn_withMark, ← heq, hold]
      · rfl
    accepting_eq := by
      intro i j
      rw [hstates]
      by_cases hi : id.index = i
      · have hstep : Step.accepts i j (.accept id number) = decide (number.toNat = j) := by
          simp only [Step.accepts, hi, true_and]
        rw [hstep, if_pos hi, stateIn_withMark, ← hi, hold]
      · have hstep : Step.accepts i j (.accept id number) = false := decide_eq_false fun h => hi h.1
        rw [hstep, if_neg hi, Bool.or_false]
    starts_eq := by
      intro name id hstarted
      cases hstarted
    starts_kept := fun _ => by
      rw [hdraft]
      rfl }

theorem moves_of_apply {step : Step} (h : draft.apply step = .ok draft') : draft.Moves step draft' := by
  cases step with
  | nameToken kind name =>
    cases h
    exact moves_nameToken draft kind name
  | declare name =>
    cases h
    exact moves_declare draft name
  | start name id => exact moves_start h
  | arc id source entry target => exact moves_addArc h
  | accept id number => exact moves_accept h

end Moves

end Pushdown.Draft
