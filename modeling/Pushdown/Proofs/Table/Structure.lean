import Pushdown.Grammar.Compile
import Pushdown.Proofs.Codes
import Pushdown.Proofs.Table.WellFormed
import Pushdown.Proofs.Verdict

/-! The checks that look at one part of a table at a time. -/

namespace Pushdown.Table

variable (table : Table)

theorem checkSize_meets :
    Meets (fun _ => table.version = 1 ∧ 1 ≤ table.symbols.size ∧ table.symbols.size ≤ 65280 ∧
      table.labels.size ≤ 65535) (Defect.StructuralIn table) table.checkSize := by
  unfold checkSize
  refine Meets.ite (fun hversion => ⟨rfl, hversion⟩) fun hversion => ?_
  refine Meets.ite id fun hsome => ?_
  refine Meets.ite (fun hmany => ⟨rfl, hmany⟩) fun hsymbols => ?_
  refine Meets.ite (fun hmany => ⟨rfl, hmany⟩) fun hlabels => ?_
  have hle : table.symbols.size ≤ 65280 := Nat.not_lt.1 hsymbols
  have hle' : table.labels.size ≤ 65535 := Nat.not_lt.1 hlabels
  exact ⟨not_not.1 hversion, Nat.one_le_iff_ne_zero.2 hsome, hle, hle'⟩

theorem checkNames_meets (before after : List String) (seen : Std.HashSet String)
    (hseen : ∀ name, name ∈ seen ↔ name ∈ before) (hbefore : before.Nodup) :
    Meets (fun _ => (before ++ after).Nodup)
      (fun defect => ∃ name, defect = .duplicateSymbol name ∧ [name, name].Sublist (before ++ after))
      (checkNames seen after) := by
  induction after generalizing before seen with
  | nil =>
    rw [List.append_nil]
    exact hbefore
  | cons name rest ih =>
    rw [checkNames]
    refine Meets.ite (fun hcontains => ?_) fun hcontains => ?_
    · -- The name is met for the second time.
      have hname : name ∈ before := (hseen name).1 (Std.HashSet.contains_iff_mem.1 hcontains)
      have hfirst : [name].Sublist before := List.singleton_sublist.2 hname
      have hsecond : [name].Sublist (name :: rest) := List.singleton_sublist.2 List.mem_cons_self
      exact ⟨name, rfl, hfirst.append hsecond⟩
    · have hname : name ∉ before := fun h => hcontains (Std.HashSet.contains_iff_mem.2 ((hseen name).2 h))
      have hnodup : (before ++ [name]).Nodup := by
        rw [List.nodup_append_comm]
        exact List.nodup_cons.2 ⟨hname, hbefore⟩
      have hinsert : ∀ other, other ∈ seen.insert name ↔ other ∈ before ++ [name] := by
        intro other
        rw [Std.HashSet.mem_insert, hseen, beq_iff_eq, List.mem_append, List.mem_singleton]
        constructor
        · rintro (rfl | h)
          · exact .inr rfl
          · exact .inl h
        · rintro (h | rfl)
          · exact .inr h
          · exact .inl rfl
      simpa using ih (before ++ [name]) (seen.insert name) hinsert hnodup

/-- The entries of `before` have been seen, each with the label of its position. -/
structure Recorded (seen : Std.HashMap LabelEntry Label) (before : List LabelEntry) : Prop where
  mem_iff : ∀ entry, entry ∈ seen ↔ entry ∈ before
  position : ∀ entry label, seen[entry]? = some label →
    ∃ i, before[i]? = some entry ∧ label = Grammar.labelAt i

theorem Recorded.insert {seen : Std.HashMap LabelEntry Label} {before : List LabelEntry}
    (h : Recorded seen before) (entry : LabelEntry) :
    Recorded (seen.insert entry (Grammar.labelAt before.length)) (before ++ [entry]) := by
  constructor
  · intro other
    rw [Std.HashMap.mem_insert, beq_iff_eq, h.mem_iff, List.mem_append, List.mem_singleton, eq_comm, or_comm]
  · intro other label hlabel
    rw [Std.HashMap.getElem?_insert] at hlabel
    split at hlabel
    · rename_i heq
      obtain rfl := eq_of_beq heq
      exact ⟨before.length, by simp, (Option.some.inj hlabel).symm⟩
    · obtain ⟨i, hi, rfl⟩ := h.position other label hlabel
      have hlt := (List.getElem?_eq_some_iff.1 hi).1
      exact ⟨i, by rw [List.getElem?_append_left hlt, hi], rfl⟩

theorem checkEntry_meets (i : Nat) (hi : i < 65536) (entry : LabelEntry)
    (hentry : table.labels[i]? = some entry) :
    Meets (fun _ => (∀ kind text, entry = .token kind text → kind.code.toNat < 256) ∧
        ∀ id, entry = .symbol id → ∃ j < table.symbols.size, id.code.toNat = 256 + j)
      (Defect.StructuralIn table) (table.checkEntry (Grammar.labelAt i) entry) := by
  have hindex := Label.index_labelAt i hi
  cases entry with
  | token kind text =>
    have hterminal : kind.isTerminal = true ↔ kind.code.toNat < 256 := by
      rw [TokenKind.isTerminal, decide_eq_true_iff]
      exact UInt16.lt_iff_toNat_lt
    refine Meets.ite (fun hkind => ?_) fun hkind => ?_
    · refine ⟨?_, (by simp)⟩
      intro _ _ heq
      cases heq
      exact hterminal.1 hkind
    · exact ⟨⟨text, by rw [hindex, hentry]⟩, Nat.not_lt.1 (mt hterminal.2 hkind)⟩
  | symbol id =>
    have hlt := id.code.toNat_lt
    refine Meets.ite (fun hbad => ?_) fun hgood => ?_
    · refine ⟨by rw [hindex, hentry], ?_⟩
      rintro ⟨j, hj, hcode⟩
      have hj' := SymbolId.index_of_code id j hcode
      rw [SymbolId.code_lt_firstCode_iff] at hbad
      omega
    · refine ⟨(by simp), ?_⟩
      intro _ heq
      cases heq
      rw [not_or, SymbolId.code_lt_firstCode_iff, Nat.not_le] at hgood
      have hcode : id.code.toNat = 256 + (id.code.toNat - 256) := by omega
      have hj := SymbolId.index_of_code id _ hcode
      exact ⟨id.code.toNat - 256, hj ▸ hgood.2, hcode⟩

theorem checkLabels_meets (before after : List LabelEntry) (seen : Std.HashMap LabelEntry Label)
    (htable : table.labels.toList = before ++ after) (hlabels : table.labels.size ≤ 65535)
    (hseen : Recorded seen before) (hbefore : before.Nodup) :
    Meets (fun _ => (∀ kind text, .token kind text ∈ after → kind.code.toNat < 256) ∧
        (∀ id, .symbol id ∈ after → ∃ j < table.symbols.size, id.code.toNat = 256 + j) ∧
        (before ++ after).Nodup)
      (Defect.StructuralIn table) (table.checkLabels seen before.length after) := by
  induction after generalizing before seen with
  | nil => exact ⟨(by simp), (by simp), by rwa [List.append_nil]⟩
  | cons entry rest ih =>
    have hlength : before.length < 65536 := by
      have := congrArg List.length htable
      simp only [Array.length_toList, List.length_append, List.length_cons] at this
      omega
    have hentry : table.labels[before.length]? = some entry := by
      rw [← Array.getElem?_toList, htable]
      simp
    rw [checkLabels]
    refine (table.checkEntry_meets before.length hlength entry hentry).bind ?_
    rintro - ⟨hkind, hsymbol⟩
    split
    · -- The entry is met for the second time, and its label was noted at the first.
      rename_i previous hprevious
      obtain ⟨i, hi, rfl⟩ := hseen.position entry previous hprevious
      have hlt := (List.getElem?_eq_some_iff.1 hi).1
      refine ⟨?_, entry, ?_, ?_⟩
      · rw [Label.index_labelAt _ hlength, Label.index_labelAt i (by omega)]
        exact hlt
      · rw [Label.index_labelAt i (by omega), ← Array.getElem?_toList, htable,
          List.getElem?_append_left hlt, hi]
      · rw [Label.index_labelAt _ hlength, hentry]
    · rename_i hnone
      have hnew : entry ∉ before := by
        rw [← hseen.mem_iff, Std.HashMap.mem_iff_isSome_getElem?, hnone]
        exact Bool.false_ne_true
      have hnodup : (before ++ [entry]).Nodup := by
        rw [List.nodup_append_comm]
        exact List.nodup_cons.2 ⟨hnew, hbefore⟩
      have hrest := ih (before ++ [entry]) (seen.insert entry (Grammar.labelAt before.length))
        (by simp [htable]) (hseen.insert entry) hnodup
      rw [List.length_append, List.length_singleton] at hrest
      refine hrest.imp fun _ hgood => ?_
      rw [List.append_assoc, List.singleton_append] at hgood
      refine ⟨?_, ?_, hgood.2.2⟩
      · intro kind text hmem
        rcases List.mem_cons.1 hmem with heq | hmem
        · exact hkind kind text heq.symm
        · exact hgood.1 kind text hmem
      · intro id hmem
        rcases List.mem_cons.1 hmem with heq | hmem
        · exact hsymbol id heq.symm
        · exact hgood.2.1 id hmem

theorem checkArc_meets (symbol : SymbolEntry) (hsymbol : symbol ∈ table.symbols) (i : Nat)
    (state : StateEntry) (hstate : symbol.states[i]? = some state) (arc : Arc) (harc : arc ∈ state.arcs) :
    Meets (fun _ => arc.label.index < table.labels.size ∧ arc.target.toNat < symbol.states.size)
      (Defect.StructuralIn table) (table.checkArc symbol i arc) := by
  have hnumber : i.toUInt32.toNat = i % UInt32.size := UInt32.toNat_ofNat'
  unfold checkArc
  refine Meets.ite (fun hlabel => ?_) fun hlabel => ?_
  · exact ⟨symbol, hsymbol, rfl, i, state, hstate, hnumber, ⟨arc, harc, rfl⟩, hlabel⟩
  refine Meets.ite (fun htarget => ?_) fun htarget => ?_
  · -- A state behind all that the arc could lead to is numbered by 32 bits like the target itself.
    have hlt := (Array.getElem?_eq_some_iff.1 hstate).1
    have hle : symbol.states.size ≤ arc.target.toNat := htarget
    have hbound := arc.target.toNat_lt_size
    rw [← Nat.mod_eq_of_lt (by omega : i < UInt32.size), ← hnumber] at hstate
    exact ⟨symbol, hsymbol, rfl, state, hstate, ⟨arc, harc, rfl⟩, htarget⟩
  exact ⟨Nat.not_le.1 hlabel, Nat.not_le.1 htarget⟩

def Sized (symbol : SymbolEntry) : Prop :=
  (∃ state, symbol.states[0]? = some state ∧ state.accepting = false) ∧
    ∀ state ∈ symbol.states, ∀ arc ∈ state.arcs,
      arc.label.index < table.labels.size ∧ arc.target.toNat < symbol.states.size

theorem checkSymbol_meets (symbol : SymbolEntry) (hsymbol : symbol ∈ table.symbols) :
    Meets (fun _ => table.Sized symbol) (Defect.StructuralIn table) (table.checkSymbol symbol) := by
  unfold checkSymbol
  have harcs : Meets (fun _ => ∀ entry ∈ symbol.states.toList.zipIdx, ∀ arc ∈ entry.1.arcs,
      arc.label.index < table.labels.size ∧ arc.target.toNat < symbol.states.size) (Defect.StructuralIn table)
      (symbol.states.toList.zipIdx.forM fun entry => entry.1.arcs.forM (table.checkArc symbol entry.2)) := by
    refine Meets.forM fun entry hentry => Meets.forM fun arc harc => ?_
    have hstate : symbol.states[entry.2]? = some entry.1 := by
      rw [← Array.getElem?_toList]
      exact List.mk_mem_zipIdx_iff_getElem?.1 hentry
    exact table.checkArc_meets symbol hsymbol entry.2 entry.1 hstate arc harc
  dsimp only
  split
  · rename_i hnone
    exact ⟨symbol, hsymbol, rfl, Nat.le_zero.1 (Array.getElem?_eq_none_iff.1 hnone)⟩
  · rename_i initial hinitial
    refine Meets.ite (fun haccepting => ?_) fun haccepting => harcs.imp fun _ hall => ?_
    · exact ⟨symbol, hsymbol, rfl, initial, hinitial, haccepting⟩
    refine ⟨⟨initial, hinitial, eq_false_of_ne_true haccepting⟩, ?_⟩
    intro state hstate
    obtain ⟨i, hi⟩ := Array.getElem?_of_mem hstate
    rw [← Array.getElem?_toList] at hi
    exact hall (state, i) (List.mk_mem_zipIdx_iff_getElem?.2 hi)

theorem checkStructure_meets :
    Meets (fun _ => table.Structured) (Defect.StructuralIn table) table.checkStructure := by
  unfold checkStructure
  refine table.checkSize_meets.bind ?_
  rintro - ⟨hversion, hpos, hsymbols, hlabels⟩
  have hnames : Meets (fun _ => (table.symbols.toList.map (·.name)).Nodup) (Defect.StructuralIn table)
      (checkNames ∅ (table.symbols.toList.map (·.name))) := by
    refine (checkNames_meets [] _ ∅ (by simp) .nil).mono (fun _ => id) ?_
    rintro defect ⟨name, rfl, hsub⟩
    exact hsub
  have hentries := table.checkLabels_meets [] table.labels.toList ∅ rfl hlabels
    ⟨by simp, by simp⟩ .nil
  refine hnames.bind fun _ hnodup => hentries.bind ?_
  rintro - ⟨hkind, hsymbol, hdistinct⟩
  refine (Meets.forM fun symbol hmem => table.checkSymbol_meets symbol (Array.mem_toList_iff.1 hmem)).imp ?_
  intro _ hsized
  have hsized' : ∀ symbol ∈ table.symbols, table.Sized symbol :=
    fun symbol hmem => hsized symbol (Array.mem_toList_iff.2 hmem)
  exact {
    version := hversion
    symbols_pos := hpos
    symbols_le := hsymbols
    labels_le := hlabels
    names_nodup := hnodup
    kind_lt := fun kind text hmem => hkind kind text (Array.mem_toList_iff.2 hmem)
    symbol_exists := fun id hmem => hsymbol id (Array.mem_toList_iff.2 hmem)
    labels_nodup := hdistinct
    initial := fun symbol hmem => (hsized' symbol hmem).1
    label_lt := fun symbol hmem state hstate arc harc => ((hsized' symbol hmem).2 state hstate arc harc).1
    target_lt := fun symbol hmem state hstate arc harc => ((hsized' symbol hmem).2 state hstate arc harc).2 }

end Pushdown.Table
