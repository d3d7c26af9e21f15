import Mathlib.Data.List.Perm.Subperm
import Mathlib.Order.WellFounded
import Pushdown.Proofs.Table.Structure

/-! The search for first sets. It ends with exact sets, or at a nonterminal that lies on a cycle. -/

namespace Pushdown.Table

variable (table : Table)

theorem mem_initialArcs_iff (i : Nat) (arc : Arc) : arc ∈ table.initialArcs i ↔ table.InitialArc i arc := by
  unfold initialArcs InitialArc
  cases table.symbols[i]? with
  | none => simp
  | some symbol => cases hstate : symbol.states[0]? <;> simp [hstate]

theorem nameAt_eq (i : Nat) (symbol : SymbolEntry) (h : table.symbols[i]? = some symbol) :
    table.nameAt i = symbol.name := by
  rw [nameAt, h]
  rfl

theorem firstLabel_iff (i : Nat) (label : Label) :
    table.FirstLabel i label ↔ ∃ arc, table.InitialArc i arc ∧ table.Consumes arc label := by
  constructor
  · -- A path ends at once, or it leaves by an arc to a nonterminal that the label begins as well.
    rintro ⟨hterminal, j, arc, hpath, harc, rfl⟩
    rcases hpath.cases_head with rfl | ⟨k, ⟨arc', harc', hstands⟩, hpath⟩
    · exact ⟨arc, harc, .inl ⟨hterminal, rfl⟩⟩
    · exact ⟨arc', harc', .inr ⟨k, hstands, hterminal, j, arc, hpath, harc, rfl⟩⟩
  · rintro ⟨arc, harc, ⟨hterminal, rfl⟩ | ⟨k, hstands, hterminal, j, arc', hpath, harc', rfl⟩⟩
    · exact ⟨hterminal, i, arc, .refl, harc, rfl⟩
    · exact ⟨hterminal, j, arc', .head ⟨arc, harc, hstands⟩ hpath, harc', rfl⟩

variable {table} in
theorem Structured.initialArc_lt (h : table.Structured) {i : Nat} {arc : Arc} (harc : table.InitialArc i arc) :
    arc.label.index < table.labels.size := by
  obtain ⟨symbol, state, hsymbol, hstate, harc⟩ := harc
  exact h.label_lt symbol (Array.mem_of_getElem? hsymbol) state (Array.mem_of_getElem? hstate) arc harc

variable {table} in
theorem Structured.symbol_code (h : table.Structured) {label : Label} {id : SymbolId}
    (hentry : table.labels[label.index]? = some (.symbol id)) :
    id.index < table.symbols.size ∧ table.StandsFor label id.index := by
  obtain ⟨i, hi, hcode⟩ := h.symbol_exists id (Array.mem_of_getElem? hentry)
  rw [SymbolId.index_of_code id i hcode]
  exact ⟨hi, id, hentry, hcode⟩

theorem StandsFor.eq_index {table : Table} {label : Label} {j : Nat} {id : SymbolId}
    (h : table.StandsFor label j) (hentry : table.labels[label.index]? = some (.symbol id)) :
    j = id.index := by
  obtain ⟨id', hentry', hcode⟩ := h
  rw [hentry] at hentry'
  cases hentry'
  exact (SymbolId.index_of_code id j hcode).symm

/-- No path along `BeginsWith` from `i` goes on forever. -/
def Settled (i : Nat) : Prop := Acc (fun b a => table.BeginsWith a b) i

theorem Settled.not_cycle {table : Table} {i : Nat} (h : table.Settled i) :
    ¬ Relation.TransGen table.BeginsWith i i := by
  have htrans := h.transGen
  -- The induction is along whole paths, so that a cycle is a single step from `i` to itself.
  induction htrans with
  | intro i _ ih =>
    intro hcycle
    have hswap := Relation.transGen_swap.2 hcycle
    exact ih i hswap h hcycle

/-- The sets found so far are right, and what they depend on is settled. -/
structure Found (memo : FirstMemo) : Prop where
  size_eq : memo.size = table.symbols.size
  settled : ∀ i set, memo.get? i = some set → table.Settled i
  exact : ∀ i set, memo.get? i = some set → ∀ label, label ∈ set ↔ table.FirstLabel i label

/-- What has been found stays found. -/
def FirstMemo.Grows (memo memo' : FirstMemo) : Prop := ∀ i, (memo.get? i).isSome → (memo'.get? i).isSome

theorem FirstMemo.get?_set (memo : FirstMemo) (i j : Nat) (set : LabelSet) (hi : i < memo.size) :
    FirstMemo.get? (memo.setIfInBounds i (some set)) j = if i = j then some set else memo.get? j := by
  unfold FirstMemo.get?
  rw [Array.getElem?_setIfInBounds]
  by_cases hij : i = j
  · simp [hij, hij ▸ hi]
  · simp [hij]

theorem Found.set {table : Table} {memo : FirstMemo} (h : table.Found memo) {i : Nat}
    (hi : i < table.symbols.size) {set : LabelSet} (hsettled : table.Settled i)
    (hexact : ∀ label, label ∈ set ↔ table.FirstLabel i label) :
    table.Found (memo.setIfInBounds i (some set)) := by
  have hcases : ∀ j set', FirstMemo.get? (memo.setIfInBounds i (some set)) j = some set' →
      (i = j ∧ set = set') ∨ memo.get? j = some set' := by
    intro j set' hset'
    rw [FirstMemo.get?_set memo i j set (h.size_eq ▸ hi)] at hset'
    split at hset'
    · rename_i hij
      exact .inl ⟨hij, Option.some.inj hset'⟩
    · exact .inr hset'
  refine ⟨by rw [Array.size_setIfInBounds, h.size_eq], ?_, ?_⟩
  · intro j set' hset'
    rcases hcases j set' hset' with ⟨rfl, -⟩ | hold
    · exact hsettled
    · exact h.settled j set' hold
  · intro j set' hset'
    rcases hcases j set' hset' with ⟨rfl, rfl⟩ | hold
    · exact hexact
    · exact h.exact j set' hold

/-- The nonterminals whose sets are being found: all of them lead to the next one. -/
structure Trail (path : List Nat) (i : Nat) : Prop where
  nodup : path.Nodup
  lt : ∀ p ∈ path, p < table.symbols.size
  leads : ∀ p ∈ path, Relation.TransGen table.BeginsWith p i

theorem Trail.cons {table : Table} {path : List Nat} {i j : Nat} (h : table.Trail path i) (hi : i < table.symbols.size)
    (hnew : i ∉ path) (hstep : table.BeginsWith i j) : table.Trail (i :: path) j := by
  refine ⟨List.nodup_cons.2 ⟨hnew, h.nodup⟩, List.forall_mem_cons.2 ⟨hi, h.lt⟩, ?_⟩
  exact List.forall_mem_cons.2 ⟨.single hstep, fun p hp => (h.leads p hp).tail hstep⟩

theorem Trail.length_lt {table : Table} {path : List Nat} {i : Nat} (h : table.Trail path i)
    (hi : i < table.symbols.size) (hnew : i ∉ path) : path.length < table.symbols.size := by
  have hnodup : (i :: path).Nodup := List.nodup_cons.2 ⟨hnew, h.nodup⟩
  have hsub : i :: path ⊆ List.range table.symbols.size := by
    intro p hp
    rcases List.mem_cons.1 hp with rfl | hp
    · exact List.mem_range.2 hi
    · exact List.mem_range.2 (h.lt p hp)
  have hle := (hnodup.subperm hsub).length_le
  rwa [List.length_range] at hle

/-- A nonterminal that is on the trail that leads to it lies on a cycle. -/
theorem Trail.cycleIn {table : Table} {path : List Nat} {i : Nat} (h : table.Trail path i)
    (hi : i < table.symbols.size) (hmem : i ∈ path) :
    Defect.CycleIn table (.leftRecursion (table.nameAt i)) := by
  have hsymbol := Array.getElem?_eq_getElem hi
  exact ⟨i, _, hsymbol, congrArg _ (table.nameAt_eq i _ hsymbol), h.leads i hmem⟩

/-- The arcs of a state that have been walked, with the labels they consume. -/
structure Walked (memo memo' : FirstMemo) (first : LabelSet) (arcs : List Arc) : Prop where
  found : table.Found memo'
  grows : memo.Grows memo'
  settled : ∀ arc ∈ arcs, ∀ j, table.StandsFor arc.label j → table.Settled j
  mem_iff : ∀ label, label ∈ first ↔ ∃ arc ∈ arcs, table.Consumes arc label

theorem Walked.start {table : Table} {memo : FirstMemo} (h : table.Found memo) :
    table.Walked memo memo .empty [] := by
  refine ⟨h, fun _ => id, (by simp), ?_⟩
  intro label
  constructor
  · intro hmem
    cases hmem
  · rintro ⟨_, harc, -⟩
    cases harc

theorem Walked.terminal {table : Table} {memo memo' : FirstMemo} {first : LabelSet} {arcs : List Arc}
    (h : table.Walked memo memo' first arcs) {arc : Arc} (harc : table.Terminal arc.label) :
    table.Walked memo memo' (first.insert arc.label) (arcs ++ [arc]) := by
  have hstands : ∀ j, ¬ table.StandsFor arc.label j := by
    rintro j ⟨id, hsymbol, -⟩
    obtain ⟨kind, text, hentry⟩ := harc
    cases hsymbol.symm.trans hentry
  refine ⟨h.found, h.grows, ?_, ?_⟩
  · intro other hother j hj
    rcases List.mem_append.1 hother with hother | hother
    · exact h.settled other hother j hj
    · obtain rfl := List.mem_singleton.1 hother
      exact absurd hj (hstands j)
  · intro label
    rw [LabelSet.mem_insert, h.mem_iff]
    constructor
    · rintro (rfl | ⟨other, hother, hconsumes⟩)
      · exact ⟨arc, by simp, .inl ⟨harc, rfl⟩⟩
      · exact ⟨other, List.mem_append_left _ hother, hconsumes⟩
    · rintro ⟨other, hother, hconsumes⟩
      rcases List.mem_append.1 hother with hother | hother
      · exact .inr ⟨other, hother, hconsumes⟩
      · obtain rfl := List.mem_singleton.1 hother
        rcases hconsumes with ⟨-, rfl⟩ | ⟨j, hj, -⟩
        · exact .inl rfl
        · exact absurd hj (hstands j)

theorem Walked.symbol {table : Table} {memo memo' memo'' : FirstMemo} {first set : LabelSet} {arcs : List Arc}
    (h : table.Walked memo memo' first arcs) {arc : Arc} {id : SymbolId}
    (hentry : table.labels[arc.label.index]? = some (.symbol id))
    (hstands : table.StandsFor arc.label id.index) (hfound : table.Found memo'') (hgrows : memo'.Grows memo'')
    (hset : memo''.get? id.index = some set) :
    table.Walked memo memo'' (first.union set) (arcs ++ [arc]) := by
  refine ⟨hfound, fun i hi => hgrows i (h.grows i hi), ?_, ?_⟩
  · intro other hother j hj
    rcases List.mem_append.1 hother with hother | hother
    · exact h.settled other hother j hj
    · obtain rfl := List.mem_singleton.1 hother
      rw [hj.eq_index hentry]
      exact hfound.settled _ set hset
  · intro label
    rw [LabelSet.mem_union, h.mem_iff, hfound.exact _ set hset]
    constructor
    · rintro (⟨other, hother, hconsumes⟩ | hfirst)
      · exact ⟨other, List.mem_append_left _ hother, hconsumes⟩
      · exact ⟨arc, by simp, .inr ⟨id.index, hstands, hfirst⟩⟩
    · rintro ⟨other, hother, hconsumes⟩
      rcases List.mem_append.1 hother with hother | hother
      · exact .inl ⟨other, hother, hconsumes⟩
      · obtain rfl := List.mem_singleton.1 hother
        rcases hconsumes with ⟨⟨kind, text, hterminal⟩, rfl⟩ | ⟨j, hj, hfirst⟩
        · cases hentry.symm.trans hterminal
        · exact .inr (hj.eq_index hentry ▸ hfirst)

theorem Walked.finish {table : Table} {memo memo' : FirstMemo} {first : LabelSet} {i : Nat}
    (h : table.Walked memo memo' first (table.initialArcs i)) (hi : i < table.symbols.size) :
    table.Found (memo'.setIfInBounds i (some first)) := by
  refine h.found.set hi ?_ ?_
  · refine Acc.intro i ?_
    rintro j ⟨arc, harc, hstands⟩
    exact h.settled arc ((table.mem_initialArcs_iff i arc).2 harc) j hstands
  · intro label
    rw [h.mem_iff, firstLabel_iff]
    simp only [mem_initialArcs_iff]

/-- Each visit finds the set of its nonterminal, or names a nonterminal that lies on a cycle. -/
theorem visitFirst_meets (hs : table.Structured) (depth : Nat) (path : List Nat) (i : Nat) (memo : FirstMemo)
    (hi : i < table.symbols.size) (hmemo : table.Found memo) (hpath : table.Trail path i)
    (hdepth : table.symbols.size ≤ depth + path.length) :
    Meets (fun memo' => table.Found memo' ∧ (memo'.get? i).isSome ∧ memo.Grows memo') (Defect.CycleIn table)
      (table.visitFirst depth path i memo) := by
  induction depth generalizing path i memo with
  | zero =>
    rw [visitFirst]
    refine Meets.ite (fun hsome => ⟨hmemo, hsome, fun _ => id⟩) fun _ => ?_
    refine Meets.ite (fun hmem => ?_) fun hnew => ?_
    · exact hpath.cycleIn hi (List.contains_iff_mem.1 hmem)
    · -- A trail of new nonterminals is shorter than the table, so the depth cannot have run out.
      have hlt := hpath.length_lt hi (mt List.contains_iff_mem.2 hnew)
      omega
  | succ depth ih =>
    rw [visitFirst]
    refine Meets.ite (fun hsome => ⟨hmemo, hsome, fun _ => id⟩) fun _ => ?_
    refine Meets.ite (fun hmem => ?_) fun hnew => ?_
    · exact hpath.cycleIn hi (List.contains_iff_mem.1 hmem)
    -- The arcs of the initial state are walked one after another.
    refine Meets.bind (Meets.foldlM (fun arcs walked => table.Walked memo walked.1 walked.2 arcs)
      (.start hmemo) ?_) ?_
    · rintro arcs arc rest ⟨memo', first⟩ harcs hwalked
      have harc : table.InitialArc i arc := by
        rw [← mem_initialArcs_iff, harcs]
        simp
      dsimp only
      split
      · rename_i id hentry
        obtain ⟨hlt, hstands⟩ := hs.symbol_code hentry
        have htrail := hpath.cons hi (mt List.contains_iff_mem.2 hnew) ⟨arc, harc, hstands⟩
        refine (ih (i :: path) id.index memo' hlt hwalked.found htrail (by rw [List.length_cons]; omega)).bind ?_
        rintro memo'' ⟨hfound, hsome, hgrows⟩
        obtain ⟨set, hset⟩ := Option.isSome_iff_exists.1 hsome
        rw [hset]
        exact hwalked.symbol hentry hstands hfound hgrows hset
      · -- The label is in the table, so it stands for tokens if it does not stand for a nonterminal.
        rename_i hother
        obtain ⟨entry, hentry⟩ : ∃ entry, table.labels[arc.label.index]? = some entry :=
          ⟨_, Array.getElem?_eq_getElem (hs.initialArc_lt harc)⟩
        cases entry with
        | token kind text => exact hwalked.terminal ⟨kind, text, hentry⟩
        | symbol id => exact absurd hentry (hother id)
    · rintro ⟨memo', first⟩ hwalked
      have hget := fun j => FirstMemo.get?_set memo' i j first (hwalked.found.size_eq ▸ hi)
      refine ⟨hwalked.finish hi, ?_, ?_⟩
      · rw [hget, if_pos rfl]
        rfl
      · intro j hj
        rw [hget]
        split
        · rfl
        · exact hwalked.grows j hj

/-- The sets hold what begins each nonterminal. -/
structure ExactFirst (first : Array LabelSet) : Prop where
  size_eq : first.size = table.symbols.size
  mem_iff : ∀ i set, first[i]? = some set → ∀ label, label ∈ set ↔ table.FirstLabel i label

theorem found_replicate : table.Found (Array.replicate table.symbols.size none) := by
  have hnone : ∀ i, FirstMemo.get? (Array.replicate table.symbols.size none) i = none := by
    intro i
    unfold FirstMemo.get?
    rw [Array.getElem?_replicate]
    split <;> rfl
  refine ⟨Array.size_replicate, ?_, ?_⟩ <;>
  · intro i set hset
    rw [hnone] at hset
    cases hset

theorem settled_of_size_le (i : Nat) (hi : table.symbols.size ≤ i) : table.Settled i := by
  refine Acc.intro i ?_
  rintro j ⟨arc, ⟨symbol, state, hsymbol, -⟩, -⟩
  have := (Array.getElem?_eq_some_iff.1 hsymbol).1
  omega

/-- The first sets when the nonterminals are visited in some order. -/
def firstSetsIn (order : List Nat) : Except Defect (Array LabelSet) := do
  let memo ← order.foldlM (fun memo i => table.visitFirst table.symbols.size [] i memo)
    (Array.replicate table.symbols.size none)
  return memo.map (·.getD .empty)

/-- The nonterminals are visited in the order of the table. -/
theorem firstSets_eq : table.firstSets = table.firstSetsIn (List.range table.symbols.size) := rfl

theorem Trail.nil (i : Nat) : table.Trail [] i := ⟨.nil, (by simp), (by simp)⟩

theorem firstSetsIn_meets (hs : table.Structured) {order : List Nat}
    (horder : ∀ i, i ∈ order ↔ i < table.symbols.size) :
    Meets (fun first => table.ExactFirst first ∧ ∀ i, table.Settled i) (Defect.CycleIn table)
      (table.firstSetsIn order) := by
  unfold firstSetsIn
  -- What has been visited stays found, so in the end there is a set for every nonterminal.
  refine Meets.bind (Meets.foldlM (fun visited memo => table.Found memo ∧ ∀ i ∈ visited, (memo.get? i).isSome)
    ⟨table.found_replicate, by simp⟩ ?_) ?_
  · rintro visited i rest memo hvisited ⟨hfound, hsome⟩
    have hi : i < table.symbols.size := by
      rw [← horder, hvisited]
      simp
    refine (table.visitFirst_meets hs _ [] i memo hi hfound (.nil table i) (Nat.le_add_right _ _)).imp ?_
    rintro memo' ⟨hfound', hsome', hgrows⟩
    refine ⟨hfound', ?_⟩
    intro j hj
    rcases List.mem_append.1 hj with hj | hj
    · exact hgrows j (hsome j hj)
    · exact List.mem_singleton.1 hj ▸ hsome'
  · rintro memo ⟨hfound, hsome⟩
    have hall : ∀ i, i < table.symbols.size → ∃ set, memo[i]? = some (some set) := by
      intro i hi
      obtain ⟨set, hset⟩ := Option.isSome_iff_exists.1 (hsome i ((horder i).2 hi))
      exact ⟨set, Option.join_eq_some_iff.1 hset⟩
    refine ⟨⟨by rw [Array.size_map, hfound.size_eq], ?_⟩, ?_⟩
    · intro i set hset
      rw [Array.getElem?_map, Option.map_eq_some_iff] at hset
      obtain ⟨found, hget, rfl⟩ := hset
      obtain ⟨set, hset⟩ := hall i (hfound.size_eq ▸ (Array.getElem?_eq_some_iff.1 hget).1)
      obtain rfl := Option.some.inj (hget.symm.trans hset)
      exact hfound.exact i set (Option.join_eq_some_iff.2 hset)
    · intro i
      by_cases hi : i < table.symbols.size
      · obtain ⟨set, hset⟩ := hall i hi
        exact hfound.settled i set (Option.join_eq_some_iff.2 hset)
      · -- Nothing leaves a position behind the table.
        exact table.settled_of_size_le i (Nat.not_lt.1 hi)

theorem firstSets_meets (hs : table.Structured) :
    Meets (fun first => table.ExactFirst first ∧ ∀ i, table.Settled i) (Defect.CycleIn table)
      table.firstSets := by
  rw [firstSets_eq]
  exact table.firstSetsIn_meets hs fun _ => List.mem_range

end Pushdown.Table
