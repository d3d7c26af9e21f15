import Mathlib.Tactic.IntervalCases
import Pushdown.Proofs.Parser.Parallel
import Pushdown.Proofs.Table.Renumbered

/-!
Grammars of tables that differ in the order of their labels. They parse the same tokens to the same trees, and their
errors differ at most in how they number the labels that were expected.
-/

namespace Pushdown

variable {p : Equiv.Perm Nat} {table table' : Table} {grammar grammar' : Grammar}

namespace Table

/-- The automata stand at the same place of the two grammars. -/
def SamePlace (grammar grammar' : Grammar) (a a' : Automaton) : Prop :=
  ∃ i : Nat, grammar.automata[i]? = some a ∧ grammar'.automata[i]? = some a'

theorem SamePlace.symm {a a' : Automaton} (h : SamePlace grammar grammar' a a') : SamePlace grammar' grammar a' a := by
  obtain ⟨i, ha, ha'⟩ := h
  exact ⟨i, ha', ha⟩

section Automata

variable (h : table.Rearranged p table') (hd : table.Describes grammar) (hd' : table'.Describes grammar')

include h hd hd'

theorem Rearranged.automata_size_eq : grammar.automata.size = grammar'.automata.size := by
  rw [hd.size_eq, hd'.size_eq, h.symbols_size]

theorem Rearranged.exists_automaton {i : Nat} {a : Automaton} (ha : grammar.automata[i]? = some a) :
    ∃ a', grammar'.automata[i]? = some a' ∧ SamePlace grammar grammar' a a' := by
  obtain ⟨a', ha'⟩ := exists_getElem?_of_size_eq (h.automata_size_eq hd hd').symm ha
  exact ⟨a', ha', i, ha, ha'⟩

theorem Rearranged.automaton?_rel (id : SymbolId) :
    Option.Rel (SamePlace grammar grammar') (grammar.automaton? id) (grammar'.automaton? id) := by
  apply Parser.rel_of_forall
  · intro a ha
    obtain ⟨i, hcode, hi⟩ := (grammar.automaton?_eq_some_iff id a).1 ha
    obtain ⟨a', ha', hplace⟩ := h.exists_automaton hd hd' hi
    exact ⟨a', (grammar'.automaton?_eq_some_iff id a').2 ⟨i, hcode, ha'⟩, hplace⟩
  · intro a' ha'
    obtain ⟨i, hcode, hi⟩ := (grammar'.automaton?_eq_some_iff id a').1 ha'
    obtain ⟨a, ha, -⟩ := h.symm.exists_automaton hd' hd hi
    exact ⟨a, (grammar.automaton?_eq_some_iff id a).2 ⟨i, hcode, ha⟩⟩

theorem Rearranged.opened?_rel {arc arc' : Arc} (harc : arc.Renamed p arc') :
    Option.Rel (SamePlace grammar grammar') (Parser.opened? grammar arc) (Parser.opened? grammar' arc') := by
  apply Parser.rel_of_forall
  · intro a ha
    obtain ⟨i, hstands, hi⟩ := (hd.opened?_eq_some_iff arc a).1 ha
    obtain ⟨a', ha', hplace⟩ := h.exists_automaton hd hd' hi
    exact ⟨a', (hd'.opened?_eq_some_iff arc' a').2 ⟨i, (h.standsFor_iff harc.label i).1 hstands, ha'⟩, hplace⟩
  · intro a' ha'
    obtain ⟨i, hstands, hi⟩ := (hd'.opened?_eq_some_iff arc' a').1 ha'
    obtain ⟨a, ha, -⟩ := h.symm.exists_automaton hd' hd hi
    exact ⟨a, (hd.opened?_eq_some_iff arc a).2 ⟨i, (h.standsFor_iff harc.label i).2 hstands, ha⟩⟩

/-- An arc that consumes a label has a renamed one that consumes the new label. -/
theorem Rearranged.exists_arcFor? {a a' : Automaton} (ha : SamePlace grammar grammar' a a') (number : UInt32)
    {label label' : Label} (hlabel : label.Renamed p label') {arc : Arc}
    (hfind : (a.state number).arcFor? label = some arc) :
    ∃ arc', (a'.state number).arcFor? label' = some arc' ∧ arc.Renamed p arc' := by
  obtain ⟨i, hi, hi'⟩ := ha
  obtain ⟨symbol, hsymbol, hcompiled⟩ := hd.exists_symbol hi
  obtain ⟨symbol', hsymbol', hcompiled'⟩ := hd'.exists_symbol hi'
  -- The way goes from the automaton to its table, over to the other table, and to the other automaton.
  obtain ⟨harc, hconsumes⟩ := (hcompiled.arcFor?_eq_some_iff number label arc).1 hfind
  obtain ⟨entry, hentry, harc⟩ := (hcompiled.mem_arcs_iff number arc).1 harc
  have hrearranged := h.symbol i symbol symbol' hsymbol hsymbol'
  obtain ⟨entry', hentry'⟩ := exists_getElem?_of_size_eq hrearranged.size_eq hentry
  obtain ⟨arc', harc', hrenamed⟩ := (hrearranged.state _ entry entry' hentry hentry').exists_arc harc
  refine ⟨arc', (hcompiled'.arcFor?_eq_some_iff number label' arc').2 ⟨?_, ?_⟩, hrenamed⟩
  · exact (hcompiled'.mem_arcs_iff number arc').2 ⟨entry', hentry', harc'⟩
  · exact h.consumes hrenamed hlabel hconsumes

theorem Rearranged.accepting_eq {a a' : Automaton} (ha : SamePlace grammar grammar' a a') (number : UInt32) :
    (a.state number).accepting = (a'.state number).accepting := by
  obtain ⟨i, hi, hi'⟩ := ha
  obtain ⟨symbol, hsymbol, hcompiled⟩ := hd.exists_symbol hi
  obtain ⟨symbol', hsymbol', hcompiled'⟩ := hd'.exists_symbol hi'
  have hrearranged := h.symbol i symbol symbol' hsymbol hsymbol'
  -- A number behind the states of the one automaton is also behind those of the other.
  rcases hcompiled.state_cases number with ⟨entry, hentry, hstate⟩ | ⟨hnone, hdead⟩ <;>
    rcases hcompiled'.state_cases number with ⟨entry', hentry', hstate'⟩ | ⟨hnone', hdead'⟩
  · rw [hstate.accepting_eq, hstate'.accepting_eq, (hrearranged.state _ entry entry' hentry hentry').accepting_eq]
  · obtain ⟨entry', hentry'⟩ := exists_getElem?_of_size_eq hrearranged.size_eq hentry
    cases hnone'.symm.trans hentry'
  · obtain ⟨entry, hentry⟩ := exists_getElem?_of_size_eq hrearranged.size_eq.symm hentry'
    cases hnone.symm.trans hentry
  · rw [hdead, hdead']

omit h in
theorem SamePlace.symbol_eq {a a' : Automaton} (ha : SamePlace grammar grammar' a a') : a.symbol = a'.symbol := by
  obtain ⟨i, hi, hi'⟩ := ha
  obtain ⟨_, _, hcompiled⟩ := hd.exists_symbol hi
  obtain ⟨_, _, hcompiled'⟩ := hd'.exists_symbol hi'
  rw [hcompiled.symbol_eq, hcompiled'.symbol_eq]

end Automata

end Table

namespace Parser

/-- Two runs over the same tokens, in grammars whose labels are numbered in different ways. -/
def Likeness.byPlace (p : Equiv.Perm Nat) (grammar grammar' : Grammar) : Likeness :=
  ⟨Table.SamePlace grammar grammar', Label.Renamed p, Eq⟩

theorem Likeness.grammars_byPlace (h : table.Rearranged p table') (hd : table.Describes grammar)
    (hd' : table'.Describes grammar') : (byPlace p grammar grammar').Grammars grammar grammar' where
  size_eq := h.automata_size_eq hd hd'
  automaton := h.automaton?_rel hd hd'
  symbol_eq := Table.SamePlace.symbol_eq hd hd'
  accepting_eq := h.accepting_eq hd hd'
  arcFor := by
    intro a a' ha number label label' hlabel
    apply rel_of_forall
    · intro arc hfind
      obtain ⟨arc', hfind', harc⟩ := h.exists_arcFor? hd hd' ha number hlabel hfind
      exact ⟨arc', hfind', harc.target_eq.symm, h.opened?_rel hd hd' harc⟩
    · intro arc' hfind'
      obtain ⟨arc, hfind, -⟩ := h.symm.exists_arcFor? hd' hd ha.symm number hlabel.symm hfind'
      exact ⟨arc, hfind⟩

end Parser

section Labels

variable (h : table.Rearranged p table') (hs : grammar.Sound) (hs' : grammar'.Sound)
  (hlabels : grammar.labels = table.labels) (hlabels' : grammar'.labels = table'.labels)

include h hs hs' hlabels hlabels'

theorem Table.Rearranged.exists_labelOf? {entry : LabelEntry} {label : Label}
    (hlabel : grammar.labelOf? entry = some label) :
    ∃ label', grammar'.labelOf? entry = some label' ∧ label.Renamed p label' := by
  obtain ⟨label', hrenamed⟩ := h.exists_renamed (hlabels ▸ hs.labels_le) label
  refine ⟨label', hs'.labelOf_of_entry ?_, hrenamed⟩
  have hentry := hs.entry_of_labelOf hlabel
  rw [Grammar.entry?, hlabels] at hentry
  rw [Grammar.entry?, hlabels', h.entry_eq hrenamed, hentry]

theorem Table.Rearranged.labelOf?_rel (entry : LabelEntry) :
    Option.Rel (Label.Renamed p) (grammar.labelOf? entry) (grammar'.labelOf? entry) := by
  apply Parser.rel_of_forall
  · exact fun _ hlabel => h.exists_labelOf? hs hs' hlabels hlabels' hlabel
  · intro _ hlabel'
    obtain ⟨label, hlabel, -⟩ := h.symm.exists_labelOf? hs' hs hlabels' hlabels hlabel'
    exact ⟨label, hlabel⟩

/-- A token has the new label in the one grammar that has the old one in the other. -/
theorem Table.Rearranged.resolve?_rel (kind : TokenKind) (text : String) :
    Option.Rel (Label.Renamed p) (grammar.resolve? kind text) (grammar'.resolve? kind text) := by
  apply Parser.rel_or (h.labelOf?_rel hs hs' hlabels hlabels' _)
  apply Parser.rel_or (h.labelOf?_rel hs hs' hlabels hlabels' _)
  split
  · -- No table has an entry for the implicit end, so it is not moved.
    exact .some (h.fixed 65535 (hlabels ▸ hs.labels_le)).symm
  · exact .none

end Labels

theorem Parser.Likeness.Expected.perm {expected expected' : List Label} (h : table.Rearranged p table')
    (hle : table.labels.size ≤ 65535) (hexpected : (byPlace p grammar grammar').Expected expected expected') :
    (expected.map fun label => p label.index).Perm (expected'.map Label.index) := by
  have hinjective : Function.Injective Label.index := Label.index_injective
  have hnodup := (Label.nodup_of_ascending hexpected.ascending).map (p.injective.comp hinjective)
  have hnodup' := (Label.nodup_of_ascending hexpected.ascending').map hinjective
  -- Neither row names a label twice, so it is enough that they name the same labels.
  refine (List.perm_ext_iff_of_nodup hnodup hnodup').2 fun i => ?_
  constructor
  · intro hi
    obtain ⟨label, hmem, rfl⟩ := List.mem_map.1 hi
    obtain ⟨label', hlabel⟩ := h.exists_renamed hle label
    exact List.mem_map.2 ⟨label', (hexpected.mem_iff hlabel).1 hmem, hlabel⟩
  · intro hi
    obtain ⟨label', hmem, rfl⟩ := List.mem_map.1 hi
    obtain ⟨label, hlabel⟩ := h.symm.exists_renamed (h.labels_size ▸ hle) label'
    have hrenamed : label.Renamed p label' := hlabel.symm
    exact List.mem_map.2 ⟨label, (hexpected.mem_iff hrenamed).2 hmem, Eq.symm hrenamed⟩

/-- The errors say the same of the same token. The labels that were expected are the same, in any order. -/
structure ParseError.Renumbered (p : Equiv.Perm Nat) (error error' : ParseError) : Prop where
  kind_eq : error.kind = error'.kind
  message_eq : error.message = error'.message
  token_eq : error.token = error'.token
  expected : (error.expected.map fun label => p label.index).Perm (error'.expected.map Label.index)

/--
How the labels of a table are numbered, and in which order arcs and first labels stand, makes no difference. Either
both tables make grammars or neither does, and the grammars parse all tokens to the same tree, or to errors that differ
at most in how they number the expected labels.
-/
theorem Table.ofTable_renumbered (h : table.Renumbered p table') :
    ((∃ grammar, Grammar.ofTable table = .ok grammar) ↔ ∃ grammar', Grammar.ofTable table' = .ok grammar') ∧
    ∀ grammar grammar', Grammar.ofTable table = .ok grammar → Grammar.ofTable table' = .ok grammar' →
      ∀ start tokens,
        (∃ undefined, grammar.parseTokens start tokens = .error undefined ∧
          grammar'.parseTokens start tokens = .error undefined) ∨
        (∃ tree unread, grammar.parseTokens start tokens = .ok ⟨.ok tree, unread⟩ ∧
          grammar'.parseTokens start tokens = .ok ⟨.ok tree, unread⟩) ∨
        ∃ error error' unread, grammar.parseTokens start tokens = .ok ⟨.error error, unread⟩ ∧
          grammar'.parseTokens start tokens = .ok ⟨.error error', unread⟩ ∧ error.Renumbered p error' := by
  constructor
  · rw [ofTable_eq_ok_iff, ofTable_eq_ok_iff]
    exact ⟨fun hwell => hwell.renumbered h, fun hwell => hwell.renumbered h.symm⟩
  intro grammar grammar' hgrammar hgrammar' start tokens
  obtain ⟨hwell, hd⟩ := wellFormed_and_describes hgrammar
  obtain ⟨hwell', hd'⟩ := wellFormed_and_describes hgrammar'
  have hs := hd.sound hwell
  have hs' := hd'.sound hwell'
  have hg := Parser.Likeness.grammars_byPlace h.toRearranged hd hd'
  have hpushed : List.Forall₂ ((Parser.Likeness.byPlace p grammar grammar').Pushed grammar grammar') tokens tokens :=
    List.forall₂_same.2 fun token _ =>
      ⟨rfl, rfl, h.resolve?_rel hs hs' hd.labels_eq hd'.labels_eq token.kind token.text⟩
  have hexpected : ∀ {expected expected'},
      (Parser.Likeness.byPlace p grammar grammar').Expected expected expected' →
      (expected.map fun label => p label.index).Perm (expected'.map Label.index) :=
    fun hlike => hlike.perm h.toRearranged hwell.labels_le
  rcases hg.parseTokens_outcomes hs start hpushed with hundefined | ⟨outcome, outcome', hparse, hparse', houtcomes⟩
  · exact .inl hundefined
  right
  rw [hparse, hparse']
  cases houtcomes with
  | @complete count tree tree' htree =>
    left
    obtain rfl : tree = tree' := htree.eq
    exact ⟨tree, _, rfl, rfl⟩
  | @failed count token token' error error' herror htoken htoken' =>
    right
    obtain ⟨hfailure, htoken_eq, htoken_eq', hlike⟩ := herror
    -- Both runs read the same row, so the tokens at one place of it are the same token.
    obtain rfl : token = token' := Option.some.inj (htoken.symm.trans htoken')
    exact ⟨error, error', _, rfl, rfl, congrArg ParseFailure.kind hfailure, congrArg ParseFailure.message hfailure,
      htoken_eq.trans htoken_eq'.symm, hexpected hlike⟩
  | missing hlike =>
    right
    exact ⟨_, _, _, rfl, rfl, rfl, rfl, rfl, hexpected hlike⟩

/-- The table `Table.nested` with the labels in the opposite order. -/
def Table.nestedReversed : Table where
  version := 1
  tokenNames := Table.nested.tokenNames
  labels := #[.symbol (.ofIndex 0), .token .name (some "c"), .token .name (some "b"), .token .name (some "a")]
  symbols := #[{
    name := "S"
    states := #[⟨[⟨⟨1⟩, 3⟩, ⟨⟨3⟩, 1⟩], false⟩, ⟨[⟨⟨0⟩, 2⟩], false⟩, ⟨[⟨⟨2⟩, 3⟩], false⟩, ⟨[], true⟩]
    first := [⟨1⟩, ⟨3⟩] }]
  starts := StartMap.empty.insert "s" "S"

theorem Table.ofTable_renumbered_nested :
    ∃ grammar, Grammar.ofTable .nestedReversed = .ok grammar ∧
      ∃ unread, grammar.parseTokens (.ofIndex 0) (Parser.nestedTokens ++ [.endMarker 3]) =
        .ok ⟨.ok .nested, unread⟩ := by
  have hfixed : ∀ i, 4 ≤ i → ((Equiv.swap 0 3).trans (Equiv.swap 1 2)) i = i := by
    intro i hi
    have houter : Equiv.swap 0 3 i = i := Equiv.swap_apply_of_ne_of_ne (by omega) (by omega)
    have hinner : Equiv.swap 1 2 i = i := Equiv.swap_apply_of_ne_of_ne (by omega) (by omega)
    rw [Equiv.trans_apply, houter, hinner]
  have h : nested.Renumbered ((Equiv.swap 0 3).trans (Equiv.swap 1 2)) nestedReversed := {
    version_eq := rfl
    tokenNames_eq := rfl
    starts_eq := rfl
    labels_size := rfl
    fixed := hfixed
    label := by
      intro i
      rcases Nat.lt_or_ge i 4 with hi | hi
      · interval_cases i <;> rfl
      · rw [hfixed i hi, Array.getElem?_eq_none hi, Array.getElem?_eq_none hi]
    symbols_size := rfl
    symbol := by
      intro i symbol symbol' hsymbol hsymbol'
      obtain rfl : i = 0 := Nat.lt_one_iff.1 (Array.getElem?_eq_some_iff.1 hsymbol).1
      cases hsymbol
      cases hsymbol'
      refine ⟨rfl, rfl, ?_⟩
      intro j state state' hstate hstate'
      have hj : j < 4 := (Array.getElem?_eq_some_iff.1 hstate).1
      interval_cases j <;> cases hstate <;> cases hstate' <;> exact ⟨rfl, by decide⟩
    first := by
      intro i symbol symbol' hsymbol hsymbol'
      obtain rfl : i = 0 := Nat.lt_one_iff.1 (Array.getElem?_eq_some_iff.1 hsymbol).1
      cases hsymbol
      cases hsymbol'
      decide }
  obtain ⟨hiff, hparse⟩ := ofTable_renumbered h
  obtain ⟨grammar, hgrammar⟩ := hiff.1 ⟨.nested, ofTable_nested⟩
  have hnested : Grammar.nested.parseTokens (.ofIndex 0) (Parser.nestedTokens ++ [.endMarker 3]) =
      .ok ⟨.ok .nested, []⟩ := by cbv
  refine ⟨grammar, hgrammar, ?_⟩
  rcases hparse .nested grammar ofTable_nested hgrammar (.ofIndex 0) (Parser.nestedTokens ++ [.endMarker 3]) with
    ⟨undefined, herror, -⟩ | ⟨tree, unread, htree, htree'⟩ | ⟨error, error', unread, herror, -⟩
  · cases hnested.symm.trans herror
  · cases hnested.symm.trans htree
    exact ⟨_, htree'⟩
  · cases hnested.symm.trans herror

end Pushdown
