import Mathlib
import Pushdown.Proofs.LabelSet
import Pushdown.Proofs.Table.FirstSets

/-!
The search for first sets, as visits that call each other without a bound. The visits share one state: the sets found
so far, and a flag for each nonterminal whose set is being found. Every search comes to an end, and what it ends
with is what `firstSets` computes.
-/

namespace Pushdown.Table

variable (table : Table)

/-- What the visits share, by position of the nonterminal. -/
structure FirstSearch where
  sets : FirstMemo
  visiting : Array Bool

mutual

/-- How the visit of the nonterminal at a position ends. -/
inductive Visits : Nat → FirstSearch → Except Defect FirstSearch → Prop where
  | known {i : Nat} {search : FirstSearch} {set : LabelSet} (hset : search.sets[i]? = some (some set)) :
    Visits i search (.ok search)
  | again {i : Nat} {search : FirstSearch} {symbol : SymbolEntry} (hset : search.sets[i]? = some none)
    (hvisiting : search.visiting[i]? = some true) (hsymbol : table.symbols[i]? = some symbol) :
    Visits i search (.error (.leftRecursion symbol.name))
  | walk {i : Nat} {search : FirstSearch} {symbol : SymbolEntry} {state : StateEntry}
    {outcome : Except Defect (LabelSet × FirstSearch)} (hset : search.sets[i]? = some none)
    (hvisiting : search.visiting[i]? = some false) (hsymbol : table.symbols[i]? = some symbol)
    (hstate : symbol.states[0]? = some state)
    (h : Walks state.arcs .empty { search with visiting := search.visiting.setIfInBounds i true } outcome) :
    Visits i search (outcome.map fun found =>
      ⟨found.2.sets.setIfInBounds i (some found.1), found.2.visiting.setIfInBounds i false⟩)

/-- How the walk along arcs of an initial state ends, given the labels that have been found so far. -/
inductive Walks : List Arc → LabelSet → FirstSearch → Except Defect (LabelSet × FirstSearch) → Prop where
  | done {first : LabelSet} {search : FirstSearch} : Walks [] first search (.ok (first, search))
  | token {arc : Arc} {rest : List Arc} {first : LabelSet} {search : FirstSearch} {kind : TokenKind}
    {text : Option String} {outcome : Except Defect (LabelSet × FirstSearch)}
    (hentry : table.labels[arc.label.index]? = some (.token kind text))
    (h : Walks rest (first.insert arc.label) search outcome) : Walks (arc :: rest) first search outcome
  | symbol {arc : Arc} {rest : List Arc} {first : LabelSet} {search next : FirstSearch} {id : SymbolId}
    {set : Option LabelSet} {outcome : Except Defect (LabelSet × FirstSearch)}
    (hentry : table.labels[arc.label.index]? = some (.symbol id)) (hvisit : Visits id.index search (.ok next))
    (hset : next.sets[id.index]? = some set)
    (h : Walks rest (first.union (set.getD .empty)) next outcome) : Walks (arc :: rest) first search outcome
  | failed {arc : Arc} {rest : List Arc} {first : LabelSet} {search : FirstSearch} {id : SymbolId} {defect : Defect}
    (hentry : table.labels[arc.label.index]? = some (.symbol id)) (hvisit : Visits id.index search (.error defect)) :
    Walks (arc :: rest) first search (.error defect)

end

/-- How visits of the nonterminals at some positions end, one after another. -/
inductive VisitsAll : List Nat → FirstSearch → Except Defect FirstSearch → Prop where
  | done {search : FirstSearch} : VisitsAll [] search (.ok search)
  | next {i : Nat} {rest : List Nat} {search next : FirstSearch} {outcome : Except Defect FirstSearch}
    (hvisit : table.Visits i search (.ok next)) (h : VisitsAll rest next outcome) : VisitsAll (i :: rest) search outcome
  | failed {i : Nat} {rest : List Nat} {search : FirstSearch} {defect : Defect}
    (hvisit : table.Visits i search (.error defect)) : VisitsAll (i :: rest) search (.error defect)

/-- Nothing has been found, and nothing is being found. -/
def FirstSearch.start (count : Nat) : FirstSearch := ⟨Array.replicate count none, Array.replicate count false⟩

/-- What is found, when nonterminals are visited in some order. -/
def Searches (order : List Nat) (outcome : Except Defect (Array LabelSet)) : Prop :=
  ∃ found, table.VisitsAll order (.start table.symbols.size) found ∧
    outcome = found.map fun search => search.sets.map (·.getD .empty)

section Unique

variable {table}

mutual
theorem Visits.unique {i : Nat} {search : FirstSearch} {outcome outcome' : Except Defect FirstSearch} :
    table.Visits i search outcome → table.Visits i search outcome' → outcome = outcome'
  | .known _, .known _ => rfl
  | .known hset, .again hset' _ _ => by cases hset.symm.trans hset'
  | .known hset, .walk hset' _ _ _ _ => by cases hset.symm.trans hset'
  | .again hset _ _, .known hset' => by cases hset.symm.trans hset'
  | .again _ _ hsymbol, .again _ _ hsymbol' => by
    cases hsymbol.symm.trans hsymbol'
    rfl
  | .again _ hvisiting _, .walk _ hvisiting' _ _ _ => by cases hvisiting.symm.trans hvisiting'
  | .walk hset _ _ _ _, .known hset' => by cases hset.symm.trans hset'
  | .walk _ hvisiting _ _ _, .again _ hvisiting' _ => by cases hvisiting.symm.trans hvisiting'
  | .walk _ _ hsymbol hstate hwalk, .walk _ _ hsymbol' hstate' hwalk' => by
    -- The recursive call is made before the cases below change what `hwalk` is about.
    have hunique : ∀ found, table.Walks _ _ _ found → _ = found := fun _ => hwalk.unique
    cases hsymbol.symm.trans hsymbol'
    cases hstate.symm.trans hstate'
    rw [hunique _ hwalk']

theorem Walks.unique {arcs : List Arc} {first : LabelSet} {search : FirstSearch}
    {outcome outcome' : Except Defect (LabelSet × FirstSearch)} :
    table.Walks arcs first search outcome → table.Walks arcs first search outcome' → outcome = outcome'
  | .done, .done => rfl
  | .token _ h, .token _ h' => h.unique h'
  | .token hentry _, .symbol hentry' _ _ _ => by cases hentry.symm.trans hentry'
  | .token hentry _, .failed hentry' _ => by cases hentry.symm.trans hentry'
  | .symbol hentry _ _ _, .token hentry' _ => by cases hentry.symm.trans hentry'
  | .symbol hentry hvisit hset h, .symbol hentry' hvisit' hset' h' => by
    have hunique : ∀ found, table.Visits _ _ found → _ = found := fun _ => hvisit.unique
    have hrest : ∀ found, table.Walks _ _ _ found → _ = found := fun _ => h.unique
    cases hentry.symm.trans hentry'
    cases hunique _ hvisit'
    cases hset.symm.trans hset'
    exact hrest _ h'
  | .symbol hentry hvisit _ _, .failed hentry' hvisit' => by
    have hunique : ∀ found, table.Visits _ _ found → _ = found := fun _ => hvisit.unique
    cases hentry.symm.trans hentry'
    cases hunique _ hvisit'
  | .failed hentry _, .token hentry' _ => by cases hentry.symm.trans hentry'
  | .failed hentry hvisit, .symbol hentry' hvisit' _ _ => by
    have hunique : ∀ found, table.Visits _ _ found → _ = found := fun _ => hvisit.unique
    cases hentry.symm.trans hentry'
    cases hunique _ hvisit'
  | .failed hentry hvisit, .failed hentry' hvisit' => by
    have hunique : ∀ found, table.Visits _ _ found → _ = found := fun _ => hvisit.unique
    cases hentry.symm.trans hentry'
    exact congrArg _ (Except.error.inj (hunique _ hvisit'))

end

theorem VisitsAll.unique {order : List Nat} {search : FirstSearch} {outcome outcome' : Except Defect FirstSearch}
    (h : table.VisitsAll order search outcome) (h' : table.VisitsAll order search outcome') : outcome = outcome' := by
  induction h with
  | done =>
    cases h'
    rfl
  | next hvisit _ ih =>
    cases h' with
    | next hvisit' h' =>
      cases hvisit.unique hvisit'
      exact ih h'
    | failed hvisit' => cases hvisit.unique hvisit'
  | failed hvisit =>
    cases h' with
    | next hvisit' h' => cases hvisit.unique hvisit'
    | failed hvisit' =>
      cases hvisit.unique hvisit'
      rfl

end Unique

section Marks

/-- The flags when the nonterminals of a path are being visited. -/
def marks (path : List Nat) : Array Bool := Array.ofFn fun i : Fin table.symbols.size => path.contains i.val

theorem getElem?_marks (path : List Nat) {i : Nat} (hi : i < table.symbols.size) :
    (table.marks path)[i]? = some (path.contains i) := by
  simp [marks, hi]

theorem marks_nil : table.marks [] = Array.replicate table.symbols.size false := by
  apply Array.ext
  · simp [marks]
  · intro i hi hi'
    simp [marks]

theorem marks_set (path : List Nat) (i : Nat) :
    (table.marks path).setIfInBounds i true = table.marks (i :: path) := by
  apply Array.ext
  · simp [marks]
  · intro j hj hj'
    rw [Array.getElem_setIfInBounds (by simpa using hj)]
    by_cases hij : i = j
    · simp [marks, hij]
    · simp [marks, hij, Ne.symm hij]

/-- After the visit the flags are as they were before it. -/
theorem marks_unset {path : List Nat} {i : Nat} (hnew : i ∉ path) :
    ((table.marks path).setIfInBounds i true).setIfInBounds i false = table.marks path := by
  rw [marks_set]
  apply Array.ext
  · simp [marks]
  · intro j hj hj'
    rw [Array.getElem_setIfInBounds (by simpa using hj)]
    by_cases hij : i = j
    · simp [marks, ← hij, hnew]
    · simp [marks, hij, Ne.symm hij]

end Marks

section Visit

variable {table}

/-- One arc of an initial state, as `visitFirst` walks it. -/
def walkArc (table : Table) (depth : Nat) (path : List Nat) (walked : FirstMemo × LabelSet) (arc : Arc) :
    Except Defect (FirstMemo × LabelSet) :=
  match table.labels[arc.label.index]? with
  | some (.symbol id) => do
    let memo ← table.visitFirst depth path id.index walked.1
    return (memo, walked.2.union ((memo.get? id.index).getD .empty))
  | _ => return (walked.1, walked.2.insert arc.label)

theorem visitFirst_known {memo : FirstMemo} {i : Nat} (hknown : (memo.get? i).isSome) (depth : Nat)
    (path : List Nat) : table.visitFirst depth path i memo = .ok memo := by
  unfold visitFirst
  rw [if_pos hknown]

theorem visitFirst_again {memo : FirstMemo} {i : Nat} (hnew : ¬ (memo.get? i).isSome) {path : List Nat}
    (hmem : i ∈ path) (depth : Nat) :
    table.visitFirst depth path i memo = .error (.leftRecursion (table.nameAt i)) := by
  unfold visitFirst
  rw [if_neg hnew, if_pos (List.contains_iff_mem.2 hmem)]

theorem visitFirst_succ {memo : FirstMemo} {i : Nat} (hnew : ¬ (memo.get? i).isSome) {path : List Nat}
    (hmem : i ∉ path) (depth : Nat) :
    table.visitFirst (depth + 1) path i memo = do
      let walked ← (table.initialArcs i).foldlM (table.walkArc depth (i :: path)) (memo, .empty)
      return walked.1.setIfInBounds i (some walked.2) := by
  rw [visitFirst, if_neg hnew, if_neg (mt List.contains_iff_mem.1 hmem)]
  rfl

/-- The arcs are walked as `visitFirst` walks them, if the visits that they need end as its visits do. -/
theorem walks_foldlM (hs : table.Structured) {depth : Nat} {path : List Nat}
    (hdepth : table.symbols.size ≤ depth + path.length)
    (hvisit : ∀ i memo, i < table.symbols.size → table.Found memo → table.Trail path i →
      table.Visits i ⟨memo, table.marks path⟩
        ((table.visitFirst depth path i memo).map fun memo' => ⟨memo', table.marks path⟩))
    {arcs : List Arc} (hlabel : ∀ arc ∈ arcs, arc.label.index < table.labels.size)
    (htrail : ∀ arc ∈ arcs, ∀ i, table.StandsFor arc.label i → table.Trail path i)
    {memo : FirstMemo} (hmemo : table.Found memo) (first : LabelSet) :
    table.Walks arcs first ⟨memo, table.marks path⟩
      ((arcs.foldlM (table.walkArc depth path) (memo, first)).map fun walked =>
        (walked.2, ⟨walked.1, table.marks path⟩)) := by
  -- The induction is on the arcs that are left. What has been found so far stays right along them.
  induction arcs generalizing memo first with
  | nil => exact .done
  | cons arc rest ih =>
    obtain ⟨harc, hrest⟩ := List.forall_mem_cons.1 hlabel
    obtain ⟨hlead, hleads⟩ := List.forall_mem_cons.1 htrail
    have hentry := Array.getElem?_eq_getElem harc
    rw [List.foldlM_cons]
    cases hcase : table.labels[arc.label.index] with
    | token kind text =>
      rw [hcase] at hentry
      have hstep : table.walkArc depth path (memo, first) arc = .ok (memo, first.insert arc.label) := by
        simp only [walkArc, hentry]
        rfl
      rw [hstep]
      exact .token hentry (ih hrest hleads hmemo (first.insert arc.label))
    | symbol id =>
      rw [hcase] at hentry
      obtain ⟨hlt, hstands⟩ := hs.symbol_code hentry
      have hvisited := hvisit id.index memo hlt hmemo (hlead id.index hstands)
      have hmeets := table.visitFirst_meets hs depth path id.index memo hlt hmemo (hlead id.index hstands) hdepth
      cases hresult : table.visitFirst depth path id.index memo with
      | error defect =>
        rw [hresult] at hvisited
        have hstep : table.walkArc depth path (memo, first) arc = .error defect := by
          simp only [walkArc, hentry, hresult]
          rfl
        rw [hstep]
        exact .failed hentry hvisited
      | ok memo' =>
        rw [hresult] at hvisited hmeets
        obtain ⟨hfound, hsome, -⟩ := hmeets
        obtain ⟨set, hset⟩ := Option.isSome_iff_exists.1 hsome
        have hunion : first.union ((memo'.get? id.index).getD .empty) = first.union set := by
          rw [hset, Option.getD_some]
        have hstep : table.walkArc depth path (memo, first) arc = .ok (memo', first.union set) := by
          simp only [walkArc, hentry, hresult]
          exact congrArg (fun union => Except.ok (memo', union)) hunion
        rw [hstep]
        exact .symbol hentry hvisited (Option.join_eq_some_iff.1 hset) (ih hrest hleads hfound (first.union set))

theorem Found.getElem?_eq {memo : FirstMemo} (h : table.Found memo) {i : Nat} (hi : i < table.symbols.size) :
    memo[i]? = some (memo.get? i) := by
  rw [FirstMemo.get?, Array.getElem?_eq_getElem (h.size_eq ▸ hi : i < memo.size)]
  rfl

theorem visits_of_not_new {path : List Nat} {i : Nat} {memo : FirstMemo} (hi : i < table.symbols.size)
    (hmemo : table.Found memo) (hold : (memo.get? i).isSome ∨ i ∈ path) (depth : Nat) :
    table.Visits i ⟨memo, table.marks path⟩
      ((table.visitFirst depth path i memo).map fun memo' => ⟨memo', table.marks path⟩) := by
  have hslot := hmemo.getElem?_eq hi
  -- A set that is known is looked at first, also for a nonterminal that has been flagged.
  by_cases hknown : (memo.get? i).isSome
  · obtain ⟨set, hset⟩ := Option.isSome_iff_exists.1 hknown
    rw [visitFirst_known hknown]
    rw [hset] at hslot
    exact .known hslot
  · have hmem := hold.resolve_left hknown
    have hsymbol := Array.getElem?_eq_getElem hi
    have hflag := table.getElem?_marks path hi
    rw [visitFirst_again hknown hmem, table.nameAt_eq i _ hsymbol]
    rw [Option.not_isSome_iff_eq_none.1 hknown] at hslot
    rw [List.contains_iff_mem.2 hmem] at hflag
    exact .again hslot hflag hsymbol

/-- A walk along the arcs of a nonterminal makes the visit of the nonterminal. -/
theorem visits_of_walks {path : List Nat} {i : Nat} {memo : FirstMemo} (hi : i < table.symbols.size)
    (hslot : memo[i]? = some none) (hnew : i ∉ path) {symbol : SymbolEntry} (hsymbol : table.symbols[i]? = some symbol)
    {state : StateEntry} (hstate : symbol.states[0]? = some state) {result : Except Defect (FirstMemo × LabelSet)}
    (hwalk : table.Walks state.arcs .empty ⟨memo, table.marks (i :: path)⟩
      (result.map fun walked => (walked.2, ⟨walked.1, table.marks (i :: path)⟩))) :
    table.Visits i ⟨memo, table.marks path⟩
      (result.map fun walked => ⟨walked.1.setIfInBounds i (some walked.2), table.marks path⟩) := by
  have hflag := table.getElem?_marks path hi
  rw [Bool.eq_false_iff.2 (mt List.contains_iff_mem.1 hnew)] at hflag
  rw [← table.marks_set] at hwalk
  have hvisit : table.Visits i ⟨memo, table.marks path⟩ _ := .walk hslot hflag hsymbol hstate hwalk
  cases result with
  | error defect => exact hvisit
  | ok walked =>
    -- The flag is taken back, so the other visits find the flags as they were.
    have hrestored := table.marks_unset hnew
    simp only [Except.map] at hvisit
    rwa [hrestored] at hvisit

/-- A visit without a bound ends as the visit at a sufficient depth does. -/
theorem visits_visitFirst (hs : table.Structured) (depth : Nat) {path : List Nat} {i : Nat} {memo : FirstMemo}
    (hi : i < table.symbols.size) (hmemo : table.Found memo) (hpath : table.Trail path i)
    (hdepth : table.symbols.size ≤ depth + path.length) :
    table.Visits i ⟨memo, table.marks path⟩
      ((table.visitFirst depth path i memo).map fun memo' => ⟨memo', table.marks path⟩) := by
  induction depth generalizing path i memo with
  | zero =>
    apply visits_of_not_new hi hmemo
    by_contra hnew
    -- A trail of new nonterminals is shorter than the table.
    have hlt := hpath.length_lt hi fun hmem => hnew (.inr hmem)
    omega
  | succ depth ih =>
    by_cases hold : (memo.get? i).isSome ∨ i ∈ path
    · exact visits_of_not_new hi hmemo hold _
    obtain ⟨hunknown, hnew⟩ := not_or.1 hold
    have hslot := hmemo.getElem?_eq hi
    rw [Option.not_isSome_iff_eq_none.1 hunknown] at hslot
    have hsymbol := Array.getElem?_eq_getElem hi
    obtain ⟨state, hstate, -⟩ := hs.initial _ (Array.mem_of_getElem? hsymbol)
    have harcs : table.initialArcs i = state.arcs := by
      simp only [initialArcs, hsymbol, hstate, Option.map_some, Option.getD_some]
    have hinitial : ∀ arc ∈ state.arcs, table.InitialArc i arc := by
      intro arc harc
      rw [← table.mem_initialArcs_iff, harcs]
      exact harc
    -- While its arcs are walked, the nonterminal is on the path itself.
    have hdepth' : table.symbols.size ≤ depth + (i :: path).length := by
      rw [List.length_cons]
      omega
    have hwalk := walks_foldlM hs hdepth' (fun j memo hj hmemo hpath => ih hj hmemo hpath hdepth')
      (fun arc harc => hs.initialArc_lt (hinitial arc harc))
      (fun arc harc j hstands => hpath.cons hi hnew ⟨arc, hinitial arc harc, hstands⟩) hmemo .empty
    have hvisit := visits_of_walks hi hslot hnew hsymbol hstate hwalk
    rw [visitFirst_succ hunknown hnew, harcs]
    cases hresult : state.arcs.foldlM (table.walkArc depth (i :: path)) (memo, .empty) <;>
    · rw [hresult] at hvisit
      exact hvisit

theorem visitsAll_foldlM (hs : table.Structured) {order : List Nat} (horder : ∀ i ∈ order, i < table.symbols.size)
    {memo : FirstMemo} (hmemo : table.Found memo) :
    table.VisitsAll order ⟨memo, table.marks []⟩
      ((order.foldlM (fun memo i => table.visitFirst table.symbols.size [] i memo) memo).map fun memo' =>
        ⟨memo', table.marks []⟩) := by
  induction order generalizing memo with
  | nil => exact .done
  | cons i rest ih =>
    obtain ⟨hi, hrest⟩ := List.forall_mem_cons.1 horder
    have hvisit := visits_visitFirst hs table.symbols.size hi hmemo (.nil table i) (Nat.le_add_right _ _)
    have hmeets := table.visitFirst_meets hs table.symbols.size [] i memo hi hmemo (.nil table i)
      (Nat.le_add_right _ _)
    rw [List.foldlM_cons]
    cases hresult : table.visitFirst table.symbols.size [] i memo with
    | error defect =>
      rw [hresult] at hvisit
      exact .failed hvisit
    | ok memo' =>
      rw [hresult] at hvisit hmeets
      exact .next hvisit (ih hrest hmeets.1)

/-- A search in any order comes to an end, in one way only. -/
theorem searches_iff (hs : table.Structured) {order : List Nat} (horder : ∀ i ∈ order, i < table.symbols.size)
    (outcome : Except Defect (Array LabelSet)) :
    table.Searches order outcome ↔ outcome = table.firstSetsIn order := by
  have hall := visitsAll_foldlM hs horder table.found_replicate
  rw [marks_nil] at hall
  have hfirst : table.firstSetsIn order =
      (((order.foldlM (fun memo i => table.visitFirst table.symbols.size [] i memo)
        (Array.replicate table.symbols.size none)).map fun memo' =>
          (⟨memo', Array.replicate table.symbols.size false⟩ : FirstSearch))).map fun search =>
            search.sets.map (·.getD .empty) := by
    unfold firstSetsIn
    cases order.foldlM (fun memo i => table.visitFirst table.symbols.size [] i memo)
      (Array.replicate table.symbols.size none) <;> rfl
  rw [hfirst]
  constructor
  · -- Any other way to come to an end would be the same.
    rintro ⟨found, hfound, rfl⟩
    rw [hfound.unique hall]
  · rintro rfl
    exact ⟨_, hall, rfl⟩

end Visit

section Exact

/-- One step of the equations for first sets: the labels on initial arcs, and the sets of the nonterminals on them. -/
def firstStep (sets : Nat → Set Label) (i : Nat) : Set Label :=
  {label | ∃ arc, table.InitialArc i arc ∧
    ((table.Terminal label ∧ arc.label = label) ∨ ∃ j, table.StandsFor arc.label j ∧ label ∈ sets j)}

theorem isLeast_firstLabel :
    IsLeast {sets | table.firstStep sets = sets} fun i => {label | table.FirstLabel i label} := by
  constructor
  · funext i
    apply Set.ext
    intro label
    exact (table.firstLabel_iff i label).symm
  · intro sets hsets i label hfirst
    obtain ⟨hterminal, j, arc, hpath, harc, rfl⟩ := hfirst
    have hsolves : ∀ i, sets i = table.firstStep sets i := fun i => (congrFun hsets i).symm
    -- The label is in the set of the last nonterminal, and with each step back in that of the one before.
    induction hpath using Relation.ReflTransGen.head_induction_on with
    | refl =>
      rw [hsolves]
      exact ⟨arc, harc, .inl ⟨hterminal, rfl⟩⟩
    | head hbegins _ ih =>
      obtain ⟨arc', harc', hstands⟩ := hbegins
      rw [hsolves]
      exact ⟨arc', harc', .inr ⟨_, hstands, ih⟩⟩

variable {table}

theorem ExactFirst.eq {first first' : Array LabelSet} (h : table.ExactFirst first) (h' : table.ExactFirst first') :
    first = first' := by
  apply Array.ext
  · rw [h.size_eq, h'.size_eq]
  · intro i hi hi'
    apply LabelSet.eq_of_mem_iff
    intro label
    rw [h.mem_iff i _ (Array.getElem?_eq_getElem hi), h'.mem_iff i _ (Array.getElem?_eq_getElem hi')]

theorem ExactFirst.labels_eq {first : Array LabelSet} (h : table.ExactFirst first) :
    (fun i => {label | ∃ set, first[i]? = some set ∧ label ∈ set}) = fun i => {label | table.FirstLabel i label} := by
  funext i
  apply Set.ext
  intro label
  constructor
  · rintro ⟨set, hset, hlabel⟩
    exact (h.mem_iff i set hset label).1 hlabel
  · intro hfirst
    -- Only nonterminals of the table have initial arcs.
    obtain ⟨arc, ⟨symbol, state, hsymbol, -⟩, -⟩ := (table.firstLabel_iff i label).1 hfirst
    have hi : i < first.size := h.size_eq ▸ (Array.getElem?_eq_some_iff.1 hsymbol).1
    have hset := Array.getElem?_eq_getElem hi
    exact ⟨_, hset, (h.mem_iff i _ hset label).2 hfirst⟩

theorem firstSetsIn_eq (hs : table.Structured) {first : Array LabelSet} (hfirst : table.firstSets = .ok first)
    {order : List Nat} (horder : ∀ i, i ∈ order ↔ i < table.symbols.size) : table.firstSetsIn order = .ok first := by
  have htable := table.firstSets_meets hs
  have hmeets := table.firstSetsIn_meets hs horder
  rw [hfirst] at htable
  obtain ⟨hexact, hsettled⟩ := htable
  cases hresult : table.firstSetsIn order with
  | error defect =>
    -- An error would name a cycle, whatever the order, and there is none.
    rw [hresult] at hmeets
    obtain ⟨i, symbol, -, -, hcycle⟩ := hmeets
    exact absurd hcycle (hsettled i).not_cycle
  | ok first' =>
    rw [hresult] at hmeets
    rw [hmeets.1.eq hexact]

end Exact

variable {table} in
/--
The search for first sets comes to an end. It reports a nonterminal on a cycle if and only if there is a cycle, and
otherwise it finds the least solution of the equations for first sets, whatever the order of the visits.
-/
theorem firstSets_exact (hchecked : table.checkStructure = .ok ()) :
    (∀ outcome, table.Searches (List.range table.symbols.size) outcome ↔ outcome = table.firstSets) ∧
    ((∃ name, table.firstSets = .error (.leftRecursion name)) ↔ ∃ i, Relation.TransGen table.BeginsWith i i) ∧
    (∀ defect, table.firstSets = .error defect → defect.CycleIn table) ∧
    ∀ first, table.firstSets = .ok first →
      table.ExactFirst first ∧
      IsLeast {sets | table.firstStep sets = sets} (fun i => {label | ∃ set, first[i]? = some set ∧ label ∈ set}) ∧
      ∀ order, (∀ i, i ∈ order ↔ i < table.symbols.size) →
        ∀ outcome, table.Searches order outcome ↔ outcome = .ok first := by
  have hstructure := checkStructure_meets table
  rw [hchecked] at hstructure
  have hs : table.Structured := hstructure
  have hmeets := table.firstSets_meets hs
  refine ⟨?_, ?_, ?_, ?_⟩
  · rw [firstSets_eq]
    exact searches_iff hs fun _ => List.mem_range.1
  · constructor
    · rintro ⟨name, herror⟩
      rw [herror] at hmeets
      obtain ⟨i, -, -, -, hcycle⟩ := hmeets
      exact ⟨i, hcycle⟩
    · rintro ⟨i, hcycle⟩
      cases hresult : table.firstSets with
      | ok first =>
        rw [hresult] at hmeets
        exact absurd hcycle (hmeets.2 i).not_cycle
      | error defect =>
        rw [hresult] at hmeets
        obtain ⟨-, symbol, -, rfl, -⟩ := hmeets
        exact ⟨symbol.name, rfl⟩
  · intro defect herror
    rwa [herror] at hmeets
  · intro first hfirst
    rw [hfirst] at hmeets
    obtain ⟨hexact, -⟩ := hmeets
    refine ⟨hexact, hexact.labels_eq ▸ table.isLeast_firstLabel, ?_⟩
    intro order horder outcome
    rw [searches_iff hs (fun i => (horder i).1), firstSetsIn_eq hs hfirst horder]

/-- `S` begins with `A`, and `A` is the token `a`. -/
def chained : Table where
  version := 1
  tokenNames := .empty
  labels := #[.token .name (some "a"), .symbol (.ofIndex 1)]
  symbols := #[⟨"S", #[⟨[⟨⟨1⟩, 1⟩], false⟩, ⟨[], true⟩], [⟨0⟩]⟩, ⟨"A", #[⟨[⟨⟨0⟩, 1⟩], false⟩, ⟨[], true⟩], [⟨0⟩]⟩]
  starts := StartMap.empty.insert "s" "S"

/-- The label of `a` is found for both, also when `A` is visited before `S`. -/
theorem firstSets_exact_chained :
    chained.checkStructure = .ok () ∧ chained.firstSets = .ok #[.ofList [⟨0⟩], .ofList [⟨0⟩]] ∧
      chained.Searches [1, 0] (.ok #[.ofList [⟨0⟩], .ofList [⟨0⟩]]) := by
  have hnames : checkNames ∅ (chained.symbols.toList.map (·.name)) = .ok () := by
    simp [chained, checkNames]
  have hlabels : chained.checkLabels ∅ 0 chained.labels.toList = .ok () := by
    simp [chained, checkLabels]
    cbv
  have hchecked : chained.checkStructure = .ok () := by
    rw [checkStructure, hnames, hlabels]
    cbv
  have hfirst : chained.firstSets = .ok #[.ofList [⟨0⟩], .ofList [⟨0⟩]] := by cbv
  obtain ⟨-, -, -, hexact⟩ := firstSets_exact hchecked
  obtain ⟨-, -, horders⟩ := hexact _ hfirst
  refine ⟨hchecked, hfirst, (horders [1, 0] ?_ _).2 rfl⟩
  intro i
  have hsize : chained.symbols.size = 2 := rfl
  rw [hsize, List.mem_cons, List.mem_singleton]
  omega

end Pushdown.Table
