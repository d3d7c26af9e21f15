import Pushdown.Proofs.Parser.Stack

/-!
The frames that one token opens. They are for distinct nonterminals, and the stack grows by no more frames than the
grammar has nonterminals.
-/

namespace Pushdown.Parser

variable {grammar : Grammar} {token : Token} {label : Label}

/-- A token is taken by opening frames until an arc carries its label. -/
theorem Takes.exists_opens {stack next : List Frame} (h : Takes grammar token label stack next) :
    ∃ opened top below arc, Opens grammar label stack opened (top :: below) ∧
      top.current.arcFor? label = some arc ∧ opened? grammar arc = none ∧
        next = { top.add (.leaf token) with state := arc.target } :: below := by
  induction h with
  | leaf hfind hopened => exact ⟨[], _, _, _, .done _, hfind, hopened, rfl⟩
  | through hfind hopened _ ih =>
    obtain ⟨opened, top, below, arc, hopens, hlast⟩ := ih
    exact ⟨_, top, below, arc, .frame hfind hopened hopens, hlast⟩

theorem Closes.length_le {ends : State → Prop} {stack rest : List Frame} (h : Closes ends stack rest) :
    rest.length ≤ stack.length := by
  induction h with
  | refl stack => exact Nat.le_refl _
  | close _ _ ih => exact Nat.le_succ_of_le ih

theorem Adds.depth_le {parser : Parser} (hs : parser.grammar.Sound) {kind : TokenKind}
    {outcome : Except ParseError Bool × Parser} (h : Adds parser kind token label outcome) :
    outcome.2.depth ≤ parser.depth + parser.grammar.automata.size := by
  cases h with
  | rejected error => exact Nat.le_add_right _ _
  | @taken stack next hcloses htakes _ =>
    obtain ⟨opened, top, below, arc, hopens, -, -, rfl⟩ := htakes.exists_opens
    have hlength : below.length + 1 = stack.length + opened.length := hopens.length_eq
    have hclosed := hcloses.length_le
    have hopened := hopens.length_le hs
    simp only [depth, List.length_cons]
    omega
  | ended _ _ _ _ _ => exact Nat.zero_le _
  | stopped _ _ _ => exact Nat.zero_le _

/--
Opening frames for a token ends. However far it has come, the nonterminals of the frames are distinct, so there are at
most as many as the grammar has. In the end an arc carries the label itself, whatever bound is put on the loop beyond
that. The stack of the loop is then that of the parser, unless an end marker has completed the start symbol, and it has
grown by no more than the number of nonterminals.
-/
theorem addToken_opens_distinct (hg : grammar.Compiled) {parser : Parser} (h : Reachable grammar parser)
    (kind : TokenKind) (token : Token) (label : Label) :
    (∀ closing, search label parser.stack = .found closing →
      (∀ opened stack, Opens grammar label (closeFrames closing parser.stack) opened stack →
        opened.length ≤ grammar.automata.size ∧ (opened.map (·.symbol)).Nodup ∧
          stack.map (·.automaton) = opened.reverse ++ (closeFrames closing parser.stack).map (·.automaton)) ∧
      ∃ opened top below arc next, Opens grammar label (closeFrames closing parser.stack) opened (top :: below) ∧
        top.current.arcFor? label = some arc ∧ opened? grammar arc = none ∧
        next = { top.add (.leaf token) with state := arc.target } :: below ∧
        (∀ bound, opened.length < bound →
          consume grammar token label bound (closeFrames closing parser.stack) = .ok next) ∧
        parser.addToken kind token label =
          if kind.isEndMarker && allAccepting next then (.ok true, { parser with stack := next }.finish)
          else (.ok false, { parser with stack := next })) ∧
    (parser.addToken kind token label).2.depth ≤ parser.depth + grammar.automata.size := by
  obtain ⟨rfl, hconsistent⟩ := h.consistent hg.sound
  have hs := hg.sound
  refine ⟨fun closing hsearch => ⟨fun opened stack hopens => ?_, ?_⟩, ?_⟩
  · exact ⟨hopens.length_le hs, hopens.nodup_symbols hs, hopens.automata_eq⟩
  · obtain ⟨stack, next, rfl, hcloses, hconsume⟩ := consume_of_search hs hconsistent.known token hsearch
    have htakes := takes_of_consume_eq_ok hconsume
    have hadd := addToken_of_takes kind hs hconsistent.known hcloses htakes
    obtain ⟨opened, top, below, arc, hopens, hfind, hlast, rfl⟩ := htakes.exists_opens
    refine ⟨opened, top, below, arc, _, hopens, hfind, hlast, rfl, fun bound hbound => ?_, hadd⟩
    -- What is left of the bound is enough for the last round, which opens nothing.
    obtain ⟨more, rfl⟩ := Nat.exists_eq_add_of_lt hbound
    have hrounds : opened.length + more + 1 = more + 1 + opened.length := by omega
    rw [hrounds, hopens.consume_eq, consume_leaf hfind hlast]
  · exact (addToken_adds kind hs hconsistent.known token label).depth_le hs

/-- After the `a` of `acb`, the `c` opens a frame for the inner sentence, and the stack grows by one. -/
theorem addToken_opens_distinct_nested :
    (∃ opened top below arc,
      Opens .nested ⟨2⟩ (nested.pushToken ⟨.name, "a", .empty 0⟩).2.stack opened (top :: below) ∧
      opened.length ≤ 1 ∧ top.current.arcFor? ⟨2⟩ = some arc ∧
      (nested.pushToken ⟨.name, "a", .empty 0⟩).2.addToken .name ⟨.name, "c", .empty 1⟩ ⟨2⟩ =
        (.ok false, { (nested.pushToken ⟨.name, "a", .empty 0⟩).2 with
          stack := { top.add (.leaf ⟨.name, "c", .empty 1⟩) with state := arc.target } :: below })) ∧
    ((nested.pushToken ⟨.name, "a", .empty 0⟩).2.addToken .name ⟨.name, "c", .empty 1⟩ ⟨2⟩).2.depth ≤ 1 + 1 := by
  have hreach := (Reachable.setup .new setup_nested).pushToken ⟨.name, "a", .empty 0⟩
  have hsearch : search ⟨2⟩ (nested.pushToken ⟨.name, "a", .empty 0⟩).2.stack = .found 0 := by cbv
  have hclose : closeFrames 0 (nested.pushToken ⟨.name, "a", .empty 0⟩).2.stack =
      (nested.pushToken ⟨.name, "a", .empty 0⟩).2.stack := by cbv
  have hdepth : (nested.pushToken ⟨.name, "a", .empty 0⟩).2.depth = 1 := by cbv
  obtain ⟨hloop, hgrown⟩ := addToken_opens_distinct (.ofTable .nested Table.ofTable_nested) hreach .name
    ⟨.name, "c", .empty 1⟩ ⟨2⟩
  obtain ⟨hdistinct, opened, top, below, arc, next, hopens, hfind, -, rfl, -, hadd⟩ := hloop 0 hsearch
  have hlength := (hdistinct opened (top :: below) hopens).1
  rw [hclose] at hopens
  rw [hdepth] at hgrown
  exact ⟨⟨opened, top, below, arc, hopens, hlength, hfind, hadd⟩, hgrown⟩

end Pushdown.Parser
