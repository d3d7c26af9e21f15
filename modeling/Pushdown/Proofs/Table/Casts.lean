import Pushdown.Proofs.Table.Compile

/-!
A compilation that gives a label or a nonterminal its number only if 16 bits can hold it, and otherwise ends without an
answer. It always has an answer, the one of the compilation that cuts numbers off.
-/

namespace Pushdown

/-- The label with this number. -/
def Label.numbered? (i : Nat) : Option Label :=
  if h : i < UInt16.size then some ⟨UInt16.ofNatLT i h⟩ else none

/-- The nonterminal with this number above the codes of token kinds. -/
def SymbolId.numbered? (i : Nat) : Option SymbolId :=
  if h : 256 + i < UInt16.size then some ⟨UInt16.ofNatLT (256 + i) h⟩ else none

theorem Label.numbered?_eq {i : Nat} (h : i < 65536) : numbered? i = some (Grammar.labelAt i) := by
  have hsize : i < UInt16.size := h
  rw [numbered?, dif_pos hsize]
  apply congrArg some
  apply index_injective
  rw [index_labelAt i h]
  exact UInt16.toNat_ofNatLT

theorem SymbolId.numbered?_eq {i : Nat} (h : i < 65280) : numbered? i = some (.ofIndex i) := by
  have hsize : 256 + i < UInt16.size := by
    change 256 + i < 65536
    omega
  rw [numbered?, dif_pos hsize]
  apply congrArg some
  apply eq_ofIndex_of_code
  exact UInt16.toNat_ofNatLT

/-- A check in which no number is too large. -/
def settled {α : Type} (check : Except Defect α) : ExceptT Defect Option α := ExceptT.mk (some check)

namespace Table

/-- Each name is given a number before it is looked up. -/
def numberNames? (seen : Std.HashSet String) (i : Nat) : List String → ExceptT Defect Option Unit
  | [] => pure ()
  | name :: rest => do
    let _ ← SymbolId.numbered? i
    if seen.contains name then throw (.duplicateSymbol name)
    else numberNames? (seen.insert name) (i + 1) rest

def numberLabels? (table : Table) (seen : Std.HashMap LabelEntry Label) (i : Nat) :
    List LabelEntry → ExceptT Defect Option Unit
  | [] => pure ()
  | entry :: rest => do
    let label ← Label.numbered? i
    settled (table.checkEntry label entry)
    match seen[entry]? with
    | some previous => throw (.duplicateLabel label previous)
    | none => numberLabels? table (seen.insert entry label) (i + 1) rest

def numberStructure? (table : Table) : ExceptT Defect Option Unit := do
  settled table.checkSize
  numberNames? ∅ 0 (table.symbols.toList.map (·.name))
  table.numberLabels? ∅ 0 table.labels.toList
  settled (table.symbols.toList.forM table.checkSymbol)

def numberSymbol? (table : Table) (first : Array LabelSet) (symbol : SymbolEntry) (i : Nat) :
    ExceptT Defect Option Automaton := do
  let states ← settled <| symbol.states.toList.zipIdx.mapM fun (state, j) => table.compileState first symbol state j
  return {
    symbol := ← SymbolId.numbered? i
    name := symbol.name
    states := states.toArray
    first := (first[i]?).getD .empty }

def numberStarts? (table : Table) : ExceptT Defect Option (StartMap SymbolId) := do
  if table.starts.entries.isEmpty then throw .noStarts
  table.starts.entries.foldlM
    (fun starts (name, symbol) =>
      match table.symbols.findIdx? (·.name = symbol) with
      | some i => do return starts.insert name (← SymbolId.numbered? i)
      | none => throw (.unknownStart name symbol))
    StartMap.empty

end Table

/-- The grammar that a table describes, with numbers that are never cut off. -/
def Grammar.numbered? (table : Table) : ExceptT Defect Option Grammar := do
  table.numberStructure?
  let first ← settled table.firstSets
  settled ((table.symbols.toList.zip first.toList).forM fun (symbol, set) => Table.checkFirst symbol set)
  let automata ← table.symbols.toList.zipIdx.mapM fun (symbol, i) => table.numberSymbol? first symbol i
  let starts ← table.numberStarts?
  return { labels := table.labels, automata := automata.toArray, starts, tokenNames := table.tokenNames }

section Settled

variable {α β : Type}

theorem lift_some_bind (value : α) (next : α → ExceptT Defect Option β) :
    (liftM (some value) : ExceptT Defect Option α) >>= next = next value := rfl

/-- What follows a check is only asked about the values that the check ends in. -/
theorem settled_bind {check : Except Defect α} {next : α → Except Defect β}
    {next' : α → ExceptT Defect Option β} (h : ∀ value, check = .ok value → next' value = settled (next value)) :
    settled check >>= next' = settled (check >>= next) := by
  cases check with
  | error defect => rfl
  | ok value => exact h value rfl

theorem mapM_eq_settled {step : α → Except Defect β} {step' : α → ExceptT Defect Option β} {members : List α}
    (h : ∀ member ∈ members, step' member = settled (step member)) :
    members.mapM step' = settled (members.mapM step) := by
  induction members with
  | nil => rfl
  | cons member rest ih =>
    obtain ⟨hmember, hrest⟩ := List.forall_mem_cons.1 h
    rw [List.mapM_cons, List.mapM_cons, hmember, ih hrest]
    refine settled_bind fun value _ => settled_bind fun values _ => rfl

theorem foldlM_eq_settled {step : β → α → Except Defect β} {step' : β → α → ExceptT Defect Option β}
    (h : ∀ value member, step' value member = settled (step value member)) (members : List α) (start : β) :
    members.foldlM step' start = settled (members.foldlM step start) := by
  induction members generalizing start with
  | nil => rfl
  | cons member rest ih =>
    rw [List.foldlM_cons, List.foldlM_cons, h]
    exact settled_bind fun value _ => ih value

end Settled

namespace Table

variable (table : Table)

theorem numberNames?_eq (seen : Std.HashSet String) {i : Nat} {names : List String} (h : i + names.length ≤ 65280) :
    numberNames? seen i names = settled (checkNames seen names) := by
  induction names generalizing seen i with
  | nil => rfl
  | cons name rest ih =>
    rw [List.length_cons] at h
    rw [numberNames?, checkNames, SymbolId.numbered?_eq (by omega), lift_some_bind]
    split
    · rfl
    · exact ih (seen.insert name) (by omega)

theorem numberLabels?_eq (seen : Std.HashMap LabelEntry Label) {i : Nat} {entries : List LabelEntry}
    (h : i + entries.length ≤ 65535) :
    table.numberLabels? seen i entries = settled (table.checkLabels seen i entries) := by
  induction entries generalizing seen i with
  | nil => rfl
  | cons entry rest ih =>
    rw [List.length_cons] at h
    rw [numberLabels?, checkLabels, Label.numbered?_eq (by omega), lift_some_bind]
    refine settled_bind fun _ _ => ?_
    cases seen[entry]? with
    | some previous => rfl
    | none => exact ih (seen.insert entry (Grammar.labelAt i)) (by omega)

theorem numberStructure?_eq : table.numberStructure? = settled table.checkStructure := by
  refine settled_bind fun _ hsize => ?_
  -- From here on no list is longer than there are numbers.
  have hmeets := table.checkSize_meets
  rw [hsize] at hmeets
  obtain ⟨-, -, hsymbols, hlabels⟩ := hmeets
  rw [numberNames?_eq ∅ (by simpa using hsymbols), table.numberLabels?_eq ∅ (by simpa using hlabels)]
  exact settled_bind fun _ _ => settled_bind fun _ _ => rfl

variable {table}

theorem numberSymbol?_eq (first : Array LabelSet) (symbol : SymbolEntry) {i : Nat} (h : i < 65280) :
    table.numberSymbol? first symbol i = settled (table.compileSymbol first symbol i) := by
  unfold numberSymbol? compileSymbol
  rw [SymbolId.numbered?_eq h]
  exact settled_bind fun _ _ => rfl

theorem Structured.numberStarts?_eq (hs : table.Structured) :
    table.numberStarts? = settled table.compileStarts := by
  unfold numberStarts? compileStarts
  split
  · rfl
  refine foldlM_eq_settled (fun starts entry => ?_) _ _
  cases hfind : table.symbols.findIdx? (·.name = entry.2) with
  | none =>
    simp only [hfind]
    rfl
  | some i =>
    obtain ⟨hi, -, -⟩ := Array.findIdx?_eq_some_iff_getElem.1 hfind
    have hle := hs.symbols_le
    simp only [hfind, SymbolId.numbered?_eq (by omega : i < 65280)]
    rfl

end Table

/-- Every table is refused before a number is too large for it, or no number ever is. -/
theorem Grammar.numbered?_eq (table : Table) : Grammar.numbered? table = settled (Grammar.ofTable table) := by
  rw [Grammar.numbered?, table.numberStructure?_eq]
  refine settled_bind fun _ hstructure => ?_
  have hs : table.Structured := by
    have hmeets := table.checkStructure_meets
    rwa [hstructure] at hmeets
  refine settled_bind fun first _ => settled_bind fun _ _ => ?_
  have hautomata : table.symbols.toList.zipIdx.mapM (fun (symbol, i) => table.numberSymbol? first symbol i) =
      settled (table.symbols.toList.zipIdx.mapM fun (symbol, i) => table.compileSymbol first symbol i) := by
    refine mapM_eq_settled fun entry hentry => ?_
    have hi := (List.getElem?_eq_some_iff.1 (List.mk_mem_zipIdx_iff_getElem?.1 hentry)).1
    rw [Array.length_toList] at hi
    have hle := hs.symbols_le
    exact Table.numberSymbol?_eq first entry.1 (by omega)
  rw [hautomata, hs.numberStarts?_eq]
  exact settled_bind fun _ _ => settled_bind fun _ _ => rfl

end Pushdown
