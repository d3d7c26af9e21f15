import Pushdown.Proofs.Grammar.Compiled
import Pushdown.Proofs.Parser.Step

/-! The stacks that a parser can have. -/

namespace Pushdown.Parser

variable {grammar : Grammar} {base : Automaton} {token : Token} {label : Label}

/--
The bottom frame belongs to `base`, and every other frame has been opened for an arc of the frame below, to which
it returns at the end of that arc.
-/
inductive Linked (grammar : Grammar) (base : Automaton) : List Frame → Prop where
  | bottom {frame : Frame} (hautomaton : frame.automaton = base)
    (hstate : frame.state.toNat < frame.automaton.states.size) : Linked grammar base [frame]
  | link {top parent : Frame} {below : List Frame} {arc : Arc}
    (hstate : top.state.toNat < top.automaton.states.size) (harc : arc ∈ parent.current.arcs)
    (hopened : opened? grammar arc = some top.automaton) (hreturn : top.returnState = arc.target)
    (h : Linked grammar base (parent :: below)) : Linked grammar base (top :: parent :: below)

theorem Linked.ne_nil {stack : List Frame} (h : Linked grammar base stack) : stack ≠ [] := by
  cases h with
  | bottom _ _ => exact List.cons_ne_nil _ _
  | link _ _ _ _ _ => exact List.cons_ne_nil _ _

theorem Linked.known (hbase : base ∈ grammar.automata) {stack : List Frame} (h : Linked grammar base stack) :
    Known grammar stack := by
  induction h with
  | bottom hautomaton _ => exact List.forall_mem_singleton.2 (hautomaton ▸ hbase)
  | link _ _ hopened _ _ ih => exact List.forall_mem_cons.2 ⟨Grammar.mem_of_opened? hopened, ih⟩

theorem Linked.state_lt {top : Frame} {below : List Frame} (h : Linked grammar base (top :: below)) :
    top.state.toNat < top.automaton.states.size := by
  cases h with
  | bottom _ hstate => exact hstate
  | link hstate _ _ _ _ => exact hstate

theorem Linked.move {top next : Frame} {below : List Frame} (h : Linked grammar base (top :: below))
    (hautomaton : next.automaton = top.automaton) (hreturn : next.returnState = top.returnState)
    (hstate : next.state.toNat < next.automaton.states.size) : Linked grammar base (next :: below) := by
  cases h with
  | bottom hbase _ => exact .bottom (hautomaton.trans hbase) hstate
  | link _ harc hopened hreturn' h =>
    rw [← hautomaton] at hopened
    exact .link hstate harc hopened (hreturn.trans hreturn') h

theorem Linked.close (hs : grammar.Sound) (hbase : base ∈ grammar.automata) {top parent : Frame}
    {below : List Frame} (h : Linked grammar base (top :: parent :: below)) :
    Linked grammar base (parent.close top :: below) := by
  cases h with
  | @link _ _ _ arc _ harc _ hreturn h =>
    -- The frame below goes on at the end of the arc for which the top has been opened.
    have hparent := h.known hbase parent List.mem_cons_self
    have htarget := hs.target_lt parent.automaton hparent parent.state arc harc
    refine h.move rfl rfl ?_
    rw [← hreturn] at htarget
    exact htarget

theorem Linked.closes (hs : grammar.Sound) (hbase : base ∈ grammar.automata) {ends : State → Prop}
    {stack rest : List Frame} (hcloses : Closes ends stack rest) (h : Linked grammar base stack) :
    Linked grammar base rest := by
  induction hcloses with
  | refl stack => exact h
  | close _ _ ih => exact ih (h.close hs hbase)

theorem Linked.arc_of_find (hs : grammar.Sound) (hbase : base ∈ grammar.automata) {top : Frame}
    {below : List Frame} (h : Linked grammar base (top :: below)) {arc : Arc}
    (hfind : top.current.arcFor? label = some arc) : arc ∈ top.current.arcs ∧ grammar.Consumes arc label :=
  (hs.arcFor?_iff top.automaton (h.known hbase top List.mem_cons_self) top.state label arc).1 hfind

theorem Linked.leaf (hs : grammar.Sound) (hbase : base ∈ grammar.automata) {top : Frame} {below : List Frame}
    (h : Linked grammar base (top :: below)) {arc : Arc} (hfind : top.current.arcFor? label = some arc) :
    Linked grammar base ({ top.add (.leaf token) with state := arc.target } :: below) := by
  have htop := h.known hbase top List.mem_cons_self
  have harc := (h.arc_of_find hs hbase hfind).1
  exact h.move rfl rfl (hs.target_lt top.automaton htop top.state arc harc)

theorem Linked.through (hs : grammar.Sound) (hbase : base ∈ grammar.automata) {top : Frame} {below : List Frame}
    (h : Linked grammar base (top :: below)) {arc : Arc} (hfind : top.current.arcFor? label = some arc)
    {automaton : Automaton} (hopened : opened? grammar arc = some automaton) :
    Linked grammar base (.start automaton arc.target :: top :: below) := by
  have hpos := hs.states_pos automaton (Grammar.mem_of_opened? hopened)
  exact .link hpos (h.arc_of_find hs hbase hfind).1 hopened rfl h

theorem Linked.takes (hs : grammar.Sound) (hbase : base ∈ grammar.automata) {stack next : List Frame}
    (htakes : Takes grammar token label stack next) (h : Linked grammar base stack) :
    Linked grammar base next := by
  induction htakes with
  | leaf hfind _ => exact h.leaf hs hbase hfind
  | through hfind hopened _ ih => exact ih (h.through hs hbase hfind hopened)

/-- The parser has not been started or is done, or its stack is linked. -/
def Consistent (parser : Parser) : Prop :=
  parser.stack = [] ∨ ∃ base ∈ parser.grammar.automata, Linked parser.grammar base parser.stack

theorem Consistent.known {parser : Parser} (h : parser.Consistent) : Known parser.grammar parser.stack := by
  rcases h with hempty | ⟨base, hbase, hlinked⟩
  · exact fun frame hframe => absurd (hempty ▸ hframe) List.not_mem_nil
  · exact hlinked.known hbase

/-- A parser starts with one frame, whatever it has been given before. -/
theorem exists_of_setup {parser started : Parser} {start : SymbolId} (h : parser.setup start = .ok started) :
    ∃ automaton, parser.grammar.automaton? start = some automaton ∧
      started = ⟨parser.grammar, [.start automaton 0], none⟩ := by
  rw [Parser.setup] at h
  split at h
  · cases h
  · rename_i automaton hautomaton
    cases h
    exact ⟨automaton, hautomaton, rfl⟩

theorem Consistent.setup {parser started : Parser} (hs : parser.grammar.Sound) {start : SymbolId}
    (h : parser.setup start = .ok started) : started.Consistent := by
  obtain ⟨automaton, hautomaton, rfl⟩ := exists_of_setup h
  have hmem := Grammar.mem_of_automaton? hautomaton
  exact .inr ⟨automaton, hmem, .bottom rfl (hs.states_pos automaton hmem)⟩

theorem Adds.consistent {parser : Parser} {kind : TokenKind} {token : Token} {label : Label}
    {outcome : Except ParseError Bool × Parser} (hs : parser.grammar.Sound) (h : parser.Consistent)
    (hadds : Adds parser kind token label outcome) : outcome.2.Consistent := by
  cases hadds with
  | rejected error => exact h
  | @taken stack next hcloses htakes _ =>
    rcases h with hempty | ⟨base, hbase, hlinked⟩
    · -- Nothing can be taken on an empty stack.
      rw [hempty] at hcloses
      cases hcloses
      cases htakes
    · exact .inr ⟨base, hbase, (hlinked.closes hs hbase hcloses).takes hs hbase htakes⟩
  | ended _ _ _ _ _ => exact .inl rfl
  | stopped _ _ _ => exact .inl rfl

theorem Adds.grammar_eq {parser : Parser} {kind : TokenKind} {token : Token} {label : Label}
    {outcome : Except ParseError Bool × Parser} (h : Adds parser kind token label outcome) :
    outcome.2.grammar = parser.grammar := by
  cases h <;> rfl

theorem Adds.eq_of_error {parser : Parser} {kind : TokenKind} {token : Token} {label : Label} {error : ParseError}
    {next : Parser} (h : Adds parser kind token label (.error error, next)) : next = parser := by
  cases h
  rfl

theorem pushToken_cases (parser : Parser) (token : Token) :
    (∃ label, parser.grammar.resolve? token.kind token.text = some label ∧
      parser.pushToken token = parser.addToken token.kind token label) ∨
    ∃ error, parser.pushToken token = (.error error, parser) := by
  unfold pushToken
  cases hresolve : parser.grammar.resolve? token.kind token.text with
  | none => exact .inr ⟨_, rfl⟩
  | some label => exact .inl ⟨label, rfl, rfl⟩

theorem pushToken_adds (hs : grammar.Sound) {parser : Parser} (hgrammar : parser.grammar = grammar)
    (hknown : Known grammar parser.stack) (token : Token) :
    (∃ label, grammar.resolve? token.kind token.text = some label ∧
      Adds parser token.kind token label (parser.pushToken token)) ∨
    ∃ error, parser.pushToken token = (.error error, parser) := by
  obtain rfl := hgrammar
  rcases parser.pushToken_cases token with ⟨label, hresolve, hpush⟩ | hrefused
  · rw [hpush]
    exact .inl ⟨label, hresolve, addToken_adds token.kind hs hknown token label⟩
  · exact .inr hrefused

/-- The parsers that can be had from a grammar by any calls in any order. -/
inductive Reachable (grammar : Grammar) : Parser → Prop where
  | new : Reachable grammar (.new grammar)
  | setup {parser started : Parser} {start : SymbolId} (h : Reachable grammar parser)
    (hstart : parser.setup start = .ok started) : Reachable grammar started
  | addToken {parser : Parser} (h : Reachable grammar parser) (kind : TokenKind) (token : Token) (label : Label) :
    Reachable grammar (parser.addToken kind token label).2
  | pushToken {parser : Parser} (h : Reachable grammar parser) (token : Token) :
    Reachable grammar (parser.pushToken token).2

theorem setup_grammar {parser started : Parser} {start : SymbolId} (h : parser.setup start = .ok started) :
    started.grammar = parser.grammar := by
  obtain ⟨automaton, -, rfl⟩ := exists_of_setup h
  rfl

theorem Reachable.consistent (hs : grammar.Sound) {parser : Parser} (h : Reachable grammar parser) :
    parser.grammar = grammar ∧ parser.Consistent := by
  -- A token that is pushed is added under the label that it resolves to, so one step covers both calls.
  have hadd : ∀ {parser : Parser} kind token label, parser.grammar = grammar → parser.Consistent →
      (parser.addToken kind token label).2.grammar = grammar ∧
        (parser.addToken kind token label).2.Consistent := by
    rintro parser kind token label rfl hconsistent
    have hadds := addToken_adds kind hs hconsistent.known token label
    exact ⟨hadds.grammar_eq, hadds.consistent hs hconsistent⟩
  induction h with
  | new => exact ⟨rfl, .inl rfl⟩
  | setup _ hstart ih =>
    obtain ⟨rfl, -⟩ := ih
    exact ⟨setup_grammar hstart, .setup hs hstart⟩
  | addToken _ kind token label ih => exact hadd kind token label ih.1 ih.2
  | @pushToken parser _ token ih =>
    rcases parser.pushToken_cases token with ⟨label, -, hpush⟩ | ⟨error, hpush⟩
    · rw [hpush]
      exact hadd token.kind token label ih.1 ih.2
    · rw [hpush]
      exact ih

/-- A parser that has been started on nested sentences. -/
def nested : Parser := ⟨.nested, [.start .nested 0], none⟩

theorem setup_nested : (new .nested).setup (.ofIndex 0) = .ok nested := rfl

end Pushdown.Parser
