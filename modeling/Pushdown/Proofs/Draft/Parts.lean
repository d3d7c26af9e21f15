import Mathlib.Data.List.Basic
import Pushdown.Grammar.Draft
import Pushdown.Proofs.Verdict

/-!
The parts of a draft. Names and label entries are rows to which only new members are added, so that what has a position
keeps it, and of a state that has not been mentioned it makes no difference whether it has been created.
-/

namespace Pushdown.Draft

section Adding

variable {α : Type} [DecidableEq α]

/-- The members with a new one behind them, if there is a new one. -/
def addNew (members : List α) : Option α → List α
  | some member => if member ∈ members then members else members ++ [member]
  | none => members

theorem addNew_of_mem {members : List α} {member : α} (h : member ∈ members) :
    addNew members (some member) = members := if_pos h

theorem addNew_of_not_mem {members : List α} {member : α} (h : member ∉ members) :
    addNew members (some member) = members ++ [member] := if_neg h

theorem prefix_addNew (members : List α) (new : Option α) : members <+: addNew members new := by
  cases new with
  | none => exact List.prefix_rfl
  | some member =>
    rw [addNew]
    split
    · exact List.prefix_rfl
    · exact List.prefix_append _ _

theorem mem_addNew_self (members : List α) (member : α) : member ∈ addNew members (some member) := by
  rw [addNew]
  split
  · assumption
  · simp

/-- What has a position keeps it. -/
theorem idxOf_addNew {members : List α} {member : α} (h : member ∈ members) (new : Option α) :
    (addNew members new).idxOf member = members.idxOf member := by
  obtain ⟨rest, hrest⟩ := prefix_addNew members new
  rw [← hrest, List.idxOf_append_of_mem h]

/-- What is added gets the next position. -/
theorem idxOf_addNew_self (members : List α) (member : α) :
    (addNew members (some member)).idxOf member = members.idxOf member := by
  by_cases h : member ∈ members
  · rw [addNew_of_mem h]
  · rw [addNew_of_not_mem h, List.idxOf_append_of_notMem h, List.idxOf_eq_length h, List.idxOf_cons_self,
      Nat.add_zero]

theorem findIdx?_of_mem {β : Type} {members : Array β} {view : β → α} {value : α}
    (h : value ∈ members.toList.map view) :
    members.findIdx? (fun member => view member = value) = some ((members.toList.map view).idxOf value) := by
  obtain ⟨members⟩ := members
  have hlt := List.idxOf_lt_length_of_mem h
  rw [List.length_map] at hlt
  rw [List.findIdx?_toArray, List.findIdx?_eq_some_iff_findIdx_eq]
  refine ⟨hlt, ?_⟩
  rw [List.idxOf, List.findIdx_map]
  rfl

theorem findIdx?_of_not_mem {β : Type} {members : Array β} {view : β → α} {value : α}
    (h : value ∉ members.toList.map view) : members.findIdx? (fun member => view member = value) = none := by
  rw [Array.findIdx?_eq_none_iff]
  intro member hmember
  apply decide_eq_false
  rintro rfl
  exact h (List.mem_map_of_mem (Array.mem_toList_iff.2 hmember))

end Adding

section Labels

/-- The label that stands for an entry. The entries behind the last number share it. -/
def labelIn (labels : List LabelEntry) (entry : LabelEntry) : Label := ⟨(min (labels.idxOf entry) 65535).toUInt16⟩

theorem index_labelIn (labels : List LabelEntry) (entry : LabelEntry) :
    (labelIn labels entry).index = min (labels.idxOf entry) 65535 := by
  change (Nat.toUInt16 _).toNat = _
  rw [Nat.toUInt16, UInt16.toNat_ofNat']
  apply Nat.mod_eq_of_lt
  change min _ 65535 < 65536
  omega

theorem labelIn_addNew {labels : List LabelEntry} {entry : LabelEntry} (h : entry ∈ labels) (new : Option LabelEntry) :
    labelIn (addNew labels new) entry = labelIn labels entry := by
  rw [labelIn, labelIn, idxOf_addNew h]

theorem labelIn_addNew_self (labels : List LabelEntry) (entry : LabelEntry) :
    labelIn (addNew labels (some entry)) entry = labelIn labels entry := by
  rw [labelIn, labelIn, idxOf_addNew_self]

theorem intern_eq (draft : Draft) (entry : LabelEntry) :
    draft.intern entry = (labelIn draft.labels.toList entry,
      { draft with labels := (addNew draft.labels.toList (some entry)).toArray }) := by
  have hview : draft.labels.toList.map id = draft.labels.toList := List.map_id _
  rw [intern]
  by_cases h : entry ∈ draft.labels.toList
  · have hfind := findIdx?_of_mem (hview.symm ▸ h)
    rw [hview] at hfind
    simp only [id] at hfind
    rw [hfind, addNew_of_mem h]
    rfl
  · have hfind := findIdx?_of_not_mem (hview.symm ▸ h)
    simp only [id] at hfind
    rw [hfind, addNew_of_not_mem h, ← Array.toList_push, labelIn, List.idxOf_eq_length h, Array.length_toList]

end Labels

section Names

/-- The names of the nonterminals that have been declared, by position. -/
def names (draft : Draft) : List String := draft.symbols.toList.map (·.name)

theorem names_getElem? (draft : Draft) (i : Nat) : draft.names[i]? = draft.symbols[i]?.map (·.name) := by
  rw [names, List.getElem?_map, Array.getElem?_toList]

theorem declare_of_mem {draft : Draft} {name : String} (h : name ∈ draft.names) :
    draft.declare name = (.ofIndex (draft.names.idxOf name), draft) := by
  have hfind : draft.symbols.findIdx? (·.name = name) = some (draft.names.idxOf name) := findIdx?_of_mem h
  rw [declare, hfind]

theorem declare_of_not_mem {draft : Draft} {name : String} (h : name ∉ draft.names) :
    draft.declare name = (.ofIndex (draft.names.idxOf name),
      { draft with symbols := draft.symbols.push ⟨name, #[], []⟩ }) := by
  have hfind : draft.symbols.findIdx? (·.name = name) = none := findIdx?_of_not_mem h
  have hsize : draft.names.length = draft.symbols.size := by rw [names, List.length_map, Array.length_toList]
  rw [declare, hfind, List.idxOf_eq_length h, hsize]

theorem declare_id (draft : Draft) (name : String) :
    (draft.declare name).1 = .ofIndex (draft.names.idxOf name) := by
  by_cases h : name ∈ draft.names
  · rw [declare_of_mem h]
  · rw [declare_of_not_mem h]

theorem names_declare (draft : Draft) (name : String) :
    (draft.declare name).2.names = addNew draft.names (some name) := by
  by_cases h : name ∈ draft.names
  · rw [declare_of_mem h, addNew_of_mem h]
  · rw [declare_of_not_mem h, addNew_of_not_mem h, names, Array.toList_push, List.map_append]
    rfl

end Names

section States

/-- A state by number. A state that has not been mentioned is empty. -/
def stateIn (states : Array StateEntry) (number : Nat) : StateEntry := states[number]?.getD ⟨[], false⟩

/-- How many states there have to be for all of these to exist. -/
def span : List UInt32 → Nat
  | [] => 0
  | number :: rest => max (number.toNat + 1) (span rest)

theorem span_append (before after : List UInt32) : span (before ++ after) = max (span before) (span after) := by
  induction before with
  | nil => exact (Nat.zero_max _).symm
  | cons number before ih => rw [List.cons_append, span, span, ih, Nat.max_assoc]

theorem lt_span {numbers : List UInt32} {number : UInt32} (h : number ∈ numbers) : number.toNat < span numbers := by
  induction numbers with
  | nil => cases h
  | cons head rest ih =>
    rw [span]
    rcases List.mem_cons.1 h with rfl | h
    · omega
    · have := ih h
      omega

theorem exists_of_span_pos {numbers : List UInt32} (h : 0 < span numbers) :
    ∃ number ∈ numbers, span numbers = number.toNat + 1 := by
  induction numbers with
  | nil => cases h
  | cons head rest ih =>
    rw [span]
    rcases Nat.le_total (span rest) (head.toNat + 1) with hle | hle
    · exact ⟨head, List.mem_cons_self, Nat.max_eq_left hle⟩
    · obtain ⟨number, hnumber, hspan⟩ := ih (by omega)
      exact ⟨number, List.mem_cons_of_mem _ hnumber, (Nat.max_eq_right hle).trans hspan⟩

theorem size_growStates (states : Array StateEntry) (number : UInt32) :
    (growStates states number).size = max states.size (number.toNat + 1) := by
  rw [growStates, Array.size_append, Array.size_replicate]
  omega

theorem stateIn_growStates (states : Array StateEntry) (number : UInt32) (j : Nat) :
    stateIn (growStates states number) j = stateIn states j := by
  rw [stateIn, stateIn, growStates, Array.getElem?_append]
  split
  · rfl
  · rename_i hle
    -- The new states are empty, as those that have not been mentioned are.
    rw [Array.getElem?_eq_none (Nat.not_lt.1 hle), Array.getElem?_replicate]
    split <;> rfl

variable (symbol : SymbolEntry) (number : UInt32) (change : StateEntry → StateEntry)

theorem name_changeState : (changeState symbol number change).name = symbol.name := rfl

theorem size_changeState :
    (changeState symbol number change).states.size = max symbol.states.size (number.toNat + 1) := by
  rw [changeState, Array.size_modify, size_growStates]

theorem stateIn_changeState (j : Nat) :
    stateIn (changeState symbol number change).states j =
      if number.toNat = j then change (stateIn symbol.states j) else stateIn symbol.states j := by
  rw [changeState, ← stateIn_growStates symbol.states number j, stateIn, stateIn, Array.getElem?_modify]
  split
  · rename_i heq
    have hlt : j < (growStates symbol.states number).size := by
      rw [size_growStates]
      omega
    rw [Array.getElem?_eq_getElem hlt]
    rfl
  · rfl

end States

section Symbols

/-- The states of the nonterminal at position `i`. A nonterminal that has not been declared has none. -/
def states (draft : Draft) (i : Nat) : Array StateEntry := (draft.symbols[i]?.map (·.states)).getD #[]

theorem states_of_symbol {draft : Draft} {i : Nat} {symbol : SymbolEntry} (h : draft.symbols[i]? = some symbol) :
    draft.states i = symbol.states := by
  rw [states, h]
  rfl

theorem states_declare (draft : Draft) (name : String) (i : Nat) :
    (draft.declare name).2.states i = draft.states i := by
  by_cases h : name ∈ draft.names
  · rw [declare_of_mem h]
  · rw [declare_of_not_mem h, states, states, Array.getElem?_push]
    split
    · -- A new nonterminal has no states, as if it had not been declared.
      rename_i heq
      rw [heq, Array.getElem?_eq_none (Nat.le_refl _)]
      rfl
    · rfl

/-- The draft with another entry for the nonterminal at position `i`. -/
def setSymbol (draft : Draft) (i : Nat) (symbol : SymbolEntry) : Draft :=
  { draft with symbols := draft.symbols.setIfInBounds i symbol }

theorem names_setSymbol {draft : Draft} {i : Nat} {symbol symbol' : SymbolEntry}
    (h : draft.symbols[i]? = some symbol) (hname : symbol'.name = symbol.name) :
    (draft.setSymbol i symbol').names = draft.names := by
  apply List.ext_getElem?
  intro j
  rw [names_getElem?, names_getElem?, setSymbol, Array.getElem?_setIfInBounds]
  split
  · rename_i heq
    rw [if_pos (Array.getElem?_eq_some_iff.1 h).1, ← heq, h, Option.map_some, Option.map_some, hname]
  · rfl

theorem states_setSymbol {draft : Draft} {i : Nat} {symbol symbol' : SymbolEntry}
    (h : draft.symbols[i]? = some symbol) (j : Nat) :
    (draft.setSymbol i symbol').states j = if i = j then symbol'.states else draft.states j := by
  rw [states, states, setSymbol, Array.getElem?_setIfInBounds]
  split
  · rw [if_pos (Array.getElem?_eq_some_iff.1 h).1]
    rfl
  · rfl

theorem exists_of_symbol_eq_ok {draft : Draft} {id : SymbolId} {symbol : SymbolEntry}
    (h : draft.symbol id = .ok symbol) : draft.symbols[id.index]? = some symbol := by
  unfold Draft.symbol at h
  split at h
  · rename_i hsymbol
    cases h
    exact hsymbol
  · cases h

end Symbols

end Pushdown.Draft
