import Pushdown.Proofs.Grammar.LabelTables
import Pushdown.Proofs.Parser.Spans
import Pushdown.Proofs.Table.Casts

/-!
The numbers of a grammar. Labels and nonterminals are numbered by their positions in the table, and the label of an end
marker that the table does not mention lies behind all others, so no arc consumes it.
-/

namespace Pushdown

namespace Grammar

variable {grammar : Grammar} {table : Table}

/-- Each label and each nonterminal has the number of its position, and no other numbers are in use. -/
structure NumberedBy (grammar : Grammar) (table : Table) : Prop where
  labels_size : grammar.labels.size = table.labels.size
  labels_le : grammar.labels.size ≤ 65535
  label : ∀ i < grammar.labels.size, (labelAt i).index = i ∧ grammar.entry? (labelAt i) = table.labels[i]?
  implicitEnd : grammar.entry? .implicitEnd = none
  no_arc : ∀ automaton ∈ grammar.automata, ∀ state ∈ automaton.states,
    (∀ arc ∈ state.arcs, arc.label ≠ .implicitEnd) ∧ state.arcFor? .implicitEnd = none
  automata_size : grammar.automata.size = table.symbols.size
  automata_le : grammar.automata.size ≤ 65280
  automaton : ∀ (i : Nat) symbol, table.symbols[i]? = some symbol → ∃ id automaton, id.code.toNat = 256 + i ∧
    grammar.symbolOf? symbol.name = some id ∧ grammar.automaton? id = some automaton ∧
    grammar.automata[i]? = some automaton ∧ automaton.symbol = id ∧ automaton.name = symbol.name
  distinct : (grammar.automata.toList.map (·.symbol)).Nodup
  outside : ∀ id : SymbolId, id.code.toNat < 256 ∨ 256 + grammar.automata.size ≤ id.code.toNat →
    grammar.automaton? id = none ∧ grammar.first? id = none ∧ grammar.symbolName? id = none

/-- The token is an end marker that no label of the grammar stands for. -/
structure UnmentionedEnd (grammar : Grammar) (token : Token) : Prop where
  kind_eq : token.kind = .endMarker
  generic : .token .endMarker none ∉ grammar.labels
  exact : .token .endMarker (some token.text) ∉ grammar.labels

end Grammar

namespace Table

variable {table : Table} {grammar : Grammar}

theorem Structured.not_terminal_implicitEnd (hs : table.Structured) : ¬ table.Terminal .implicitEnd := by
  rintro ⟨kind, text, hentry⟩
  have hlt : 65535 < table.labels.size := (Array.getElem?_eq_some_iff.1 hentry).1
  have hle := hs.labels_le
  omega

theorem Describes.no_arc_implicitEnd (hs : table.Structured) (h : table.Describes grammar) {automaton : Automaton}
    (hautomaton : automaton ∈ grammar.automata) {state : State} (hstate : state ∈ automaton.states) :
    (∀ arc ∈ state.arcs, arc.label ≠ .implicitEnd) ∧ state.arcFor? .implicitEnd = none := by
  obtain ⟨i, symbol, hsymbol, hcompiled⟩ := h.exists_symbol_of_mem hautomaton
  obtain ⟨j, hj⟩ := Array.mem_iff_getElem?.1 hstate
  have hlt : j < symbol.states.size := hcompiled.size_eq ▸ (Array.getElem?_eq_some_iff.1 hj).1
  have hentry := Array.getElem?_eq_getElem hlt
  have hcompiledState := hcompiled.state j _ state hentry hj
  constructor
  · intro arc harc hlabel
    rw [hcompiledState.arcs_eq] at harc
    have hindex := hs.label_lt symbol (Array.mem_of_getElem? hsymbol) _ (Array.mem_of_getElem? hentry) arc harc
    rw [hlabel] at hindex
    have hle := hs.labels_le
    change 65535 < table.labels.size at hindex
    omega
  · cases hfind : state.arcFor? .implicitEnd with
    | none => rfl
    | some arc =>
      have hconsumes := ((hcompiledState.arcFor?_eq_some_iff .implicitEnd arc).1 hfind).2
      exact absurd hconsumes.terminal hs.not_terminal_implicitEnd

/-- Names are found by comparing them one after another, and they are distinct. -/
theorem Describes.symbolOf?_eq (hs : table.Structured) (h : table.Describes grammar) {i : Nat} {symbol : SymbolEntry}
    (hsymbol : table.symbols[i]? = some symbol) : grammar.symbolOf? symbol.name = some (.ofIndex i) := by
  obtain ⟨automaton, hautomaton, hcompiled⟩ := h.automaton i symbol hsymbol
  rw [Grammar.symbolOf?, Option.map_eq_some_iff]
  cases hfind : grammar.automata.find? (·.name = symbol.name) with
  | none =>
    have hnot := Array.find?_eq_none.1 hfind automaton (Array.mem_of_getElem? hautomaton)
    exact absurd (decide_eq_true hcompiled.name_eq) hnot
  | some found =>
    refine ⟨found, rfl, ?_⟩
    have hname : found.name = symbol.name := by simpa using Array.find?_some hfind
    obtain ⟨j, symbol', hsymbol', hcompiled'⟩ := h.exists_symbol_of_mem (Array.mem_of_find?_eq_some hfind)
    have hi : (table.symbols.toList.map (·.name))[i]? = some symbol.name := by simp [hsymbol]
    have hj : (table.symbols.toList.map (·.name))[j]? = some symbol.name := by
      simp [hsymbol', ← hname, hcompiled'.name_eq]
    have hbound := (List.getElem?_eq_some_iff.1 hi).1
    rw [hcompiled'.symbol_eq, (List.getElem?_inj hbound hs.names_nodup).1 (hi.trans hj.symm)]

theorem Describes.symbols_nodup (hs : table.Structured) (h : table.Describes grammar) :
    (grammar.automata.toList.map (·.symbol)).Nodup := by
  have hle := hs.symbols_le
  -- Different positions have different codes, since no code is cut off.
  have hcode : ∀ i (hi : i < grammar.automata.size), grammar.automata[i].symbol.code.toNat = 256 + i := by
    intro i hi
    obtain ⟨symbol, hsymbol, hcompiled⟩ := h.exists_symbol (Array.getElem?_eq_getElem hi)
    rw [hcompiled.symbol_eq, SymbolId.toNat_code_ofIndex i]
    rw [h.size_eq] at hi
    omega
  rw [List.nodup_iff_pairwise_ne, List.pairwise_map, List.pairwise_iff_getElem]
  intro i j hi hj hlt heq
  have hcodes := congrArg (fun id => id.code.toNat) heq
  simp only [Array.getElem_toList] at hcodes
  rw [Array.length_toList] at hi hj
  rw [hcode i hi, hcode j hj] at hcodes
  omega

theorem Describes.numberedBy (hs : table.Structured) (h : table.Describes grammar) : grammar.NumberedBy table where
  labels_size := congrArg Array.size h.labels_eq
  labels_le := h.labels_eq ▸ hs.labels_le
  label := by
    intro i hi
    have hle := hs.labels_le
    rw [h.labels_eq] at hi
    have hindex := Label.index_labelAt i (by omega)
    exact ⟨hindex, by rw [Grammar.entry?, hindex, h.labels_eq]⟩
  implicitEnd := by
    rw [Grammar.entry?, h.labels_eq]
    exact Array.getElem?_eq_none hs.labels_le
  no_arc := fun _ hautomaton _ hstate => h.no_arc_implicitEnd hs hautomaton hstate
  automata_size := h.size_eq
  automata_le := h.size_eq ▸ hs.symbols_le
  automaton := by
    intro i symbol hsymbol
    have hi := (Array.getElem?_eq_some_iff.1 hsymbol).1
    have hle := hs.symbols_le
    have hcode := SymbolId.toNat_code_ofIndex i (by omega)
    obtain ⟨automaton, hautomaton, hcompiled⟩ := h.automaton i symbol hsymbol
    exact ⟨.ofIndex i, automaton, hcode, h.symbolOf?_eq hs hsymbol,
      (grammar.automaton?_eq_some_iff _ _).2 ⟨i, hcode, hautomaton⟩, hautomaton, hcompiled.symbol_eq,
      hcompiled.name_eq⟩
  distinct := h.symbols_nodup hs
  outside := by
    intro id hid
    have hnone : grammar.automaton? id = none := by
      cases hautomaton : grammar.automaton? id with
      | none => rfl
      | some automaton =>
        obtain ⟨i, hcode, hi⟩ := (grammar.automaton?_eq_some_iff id automaton).1 hautomaton
        have hlt := (Array.getElem?_eq_some_iff.1 hi).1
        omega
    rw [Grammar.first?, Grammar.symbolName?, hnone]
    exact ⟨rfl, rfl, rfl⟩

end Table

namespace Grammar

variable {grammar : Grammar} {token : Token}

/-- What holds of the states of an automaton holds of every state that it can be in. -/
theorem NumberedBy.label_ne_implicitEnd {table : Table} (h : grammar.NumberedBy table) {automaton : Automaton}
    (hautomaton : automaton ∈ grammar.automata) {number : UInt32} {arc : Arc}
    (harc : arc ∈ (automaton.state number).arcs) : arc.label ≠ .implicitEnd := by
  unfold Automaton.state at harc
  cases hstate : automaton.states[number.toNat]? with
  | none =>
    -- The dead state has no arcs at all.
    rw [hstate] at harc
    exact absurd harc List.not_mem_nil
  | some state =>
    rw [hstate] at harc
    exact (h.no_arc automaton hautomaton state (Array.mem_of_getElem? hstate)).1 arc harc

theorem UnmentionedEnd.resolve?_eq (h : grammar.UnmentionedEnd token) :
    grammar.resolve? token.kind token.text = some .implicitEnd := by
  rw [resolve?, h.kind_eq, labelOf?_eq_none_iff.2 h.exact, labelOf?_eq_none_iff.2 h.generic]
  rfl

/-- A leaf of a derivation is read along an arc, and such an end marker is read along none. -/
theorem Derivation.not_unmentionedEnd {table : Table} (hnumbered : grammar.NumberedBy table) {symbol : SymbolId}
    {tree : Tree} (h : grammar.Derivation symbol tree) : ∀ token ∈ tree.leaves, ¬ grammar.UnmentionedEnd token := by
  induction h with
  | @node symbol automaton children stop hautomaton _ hreads _ _ ih =>
    intro token htoken hend
    rw [Tree.leaves_node] at htoken
    obtain ⟨child, hchild, htoken⟩ := List.mem_flatMap.1 htoken
    cases child with
    | node inner grandchildren => exact ih _ hchild inner rfl token htoken hend
    | leaf other =>
      rw [Tree.leaves_leaf, List.mem_singleton] at htoken
      subst htoken
      obtain ⟨before, rest, rfl⟩ := List.append_of_mem hchild
      obtain ⟨number, arc, harc, hlabel, -⟩ := hreads.exists_arc
      have hresolve : some Label.implicitEnd = some arc.label := hend.resolve?_eq.symm.trans hlabel
      have hne := hnumbered.label_ne_implicitEnd (mem_of_automaton? hautomaton) harc
      exact hne (Option.some.inj hresolve).symm

end Grammar

namespace Parser

variable {grammar : Grammar} {parser : Parser} {token : Token}

theorem Closes.leavesOf_eq {ends : State → Prop} {stack rest : List Frame} (h : Closes ends stack rest) :
    leavesOf rest = leavesOf stack := by
  induction h with
  | refl stack => rfl
  | close _ _ ih => rw [ih, leavesOf_close]

/-- What a parser does with an end marker that the grammar does not mention: it adds it to no tree. -/
theorem pushToken_unmentionedEnd (hg : grammar.Compiled) (h : Reachable grammar parser)
    (hend : grammar.UnmentionedEnd token) :
    (∃ error, parser.pushToken token = (.error error, parser)) ∨
      ∃ tree, parser.pushToken token = (.ok true, ⟨parser.grammar, [], some tree⟩) ∧
        tree.leaves = leavesOf parser.stack := by
  obtain ⟨rfl, hconsistent⟩ := h.consistent hg.sound
  have hknown := hconsistent.known
  have hnot := implicitEnd_not_mem_expected hg hknown
  rcases pushToken_adds hg.sound rfl hknown token with ⟨label, hresolve, hadds⟩ | hrefused
  · obtain rfl := Option.some.inj (hend.resolve?_eq.symm.trans hresolve)
    generalize parser.pushToken token = outcome at hadds
    -- No frame takes the token, so all that is left is to refuse it or to close the frames as they are.
    cases hadds with
    | rejected error => exact .inl ⟨error, rfl⟩
    | taken hcloses htakes _ => exact absurd (hcloses.mem_expected htakes) hnot
    | ended hcloses htakes _ _ _ => exact absurd (hcloses.mem_expected htakes) hnot
    | @stopped root _ _ hcloses =>
      refine .inr ⟨root.node, rfl, ?_⟩
      calc root.node.leaves
          = leavesOf [root] := by simp [leavesOf, Frame.node]
        _ = leavesOf parser.stack := hcloses.leavesOf_eq
  · exact .inl hrefused

end Parser

/--
A table is compiled as if numbers had no limit: it is refused before one of them does not fit into 16 bits, or else the
grammar is numbered by the positions in the table. An end marker that the grammar does not mention is never taken as a
leaf: it is refused, or it ends the parse with the leaves that are there.
-/
theorem Grammar.ofTable_numbered (table : Table) :
    Grammar.numbered? table = settled (Grammar.ofTable table) ∧
    ∀ grammar, Grammar.ofTable table = .ok grammar → grammar.NumberedBy table ∧
      (∀ parser token, Parser.Reachable grammar parser → grammar.UnmentionedEnd token →
        (∃ error, parser.pushToken token = (.error error, parser)) ∨
        ∃ tree, parser.pushToken token = (.ok true, ⟨grammar, [], some tree⟩) ∧
          tree.leaves = Parser.leavesOf parser.stack) ∧
      ∀ start tokens tree unread, grammar.parseTokens start tokens = .ok ⟨.ok tree, unread⟩ →
        ∀ token ∈ tree.leaves, ¬ grammar.UnmentionedEnd token := by
  refine ⟨Grammar.numbered?_eq table, fun grammar htable => ?_⟩
  obtain ⟨hwell, hdescribes⟩ := Table.wellFormed_and_describes htable
  have hg : grammar.Compiled := .ofTable table htable
  have hnumbered := hdescribes.numberedBy hwell.toStructured
  refine ⟨hnumbered, ?_, ?_⟩
  · intro parser token hreach hend
    have hpush := Parser.pushToken_unmentionedEnd hg hreach hend
    rwa [(hreach.consistent hg.sound).1] at hpush
  · intro start tokens tree unread hparse
    exact (derivation_of_parseTokens hg.sound hparse).1.not_unmentionedEnd hnumbered

/-- `nested` has labels for names only, so the end marker behind `acb` is no leaf. -/
theorem Grammar.ofTable_numbered_nested :
    Grammar.nested.NumberedBy .nested ∧ Grammar.nested.UnmentionedEnd (.endMarker 3) ∧
      ∃ tree, (Parser.nested.feed Parser.nestedTokens).pushToken (.endMarker 3) =
        (.ok true, ⟨.nested, [], some tree⟩) ∧ tree.leaves = Parser.nestedTokens := by
  obtain ⟨hnumbered, hpush, -⟩ := (ofTable_numbered .nested).2 .nested Table.ofTable_nested
  have hend : Grammar.nested.UnmentionedEnd (.endMarker 3) :=
    ⟨rfl, labelOf?_eq_none_iff.1 (by cbv), labelOf?_eq_none_iff.1 (by cbv)⟩
  have hreach : Parser.Reachable .nested (Parser.nested.feed Parser.nestedTokens) :=
    (((Parser.Reachable.setup .new Parser.setup_nested).pushToken _).pushToken _).pushToken _
  have hanswer : ((Parser.nested.feed Parser.nestedTokens).pushToken (.endMarker 3)).1 = .ok true := by cbv
  have hleaves : Parser.leavesOf (Parser.nested.feed Parser.nestedTokens).stack = Parser.nestedTokens := by cbv
  refine ⟨hnumbered, hend, ?_⟩
  rcases hpush _ _ hreach hend with ⟨error, herror⟩ | ⟨tree, htree, htreeLeaves⟩
  · cases hanswer.symm.trans (congrArg Prod.fst herror)
  · exact ⟨tree, htree, htreeLeaves.trans hleaves⟩

end Pushdown
