import Mathlib.Data.List.Nodup
import Mathlib.Data.List.Perm.Subperm
import Pushdown.Proofs.Grammar.Sound
import Pushdown.Proofs.Parser.Search

/-! What one token does to a parser. -/

namespace Pushdown.Parser

variable {grammar : Grammar} {token : Token} {label : Label}

/-- Frames are opened on top until the label is consumed by an arc of its own, and the token is added there. -/
inductive Takes (grammar : Grammar) (token : Token) (label : Label) : (stack next : List Frame) → Prop where
  | leaf {top : Frame} {below : List Frame} {arc : Arc} (hfind : top.current.arcFor? label = some arc)
    (hopened : opened? grammar arc = none) :
    Takes grammar token label (top :: below) ({ top.add (.leaf token) with state := arc.target } :: below)
  | through {top : Frame} {below next : List Frame} {arc : Arc} {automaton : Automaton}
    (hfind : top.current.arcFor? label = some arc) (hopened : opened? grammar arc = some automaton)
    (h : Takes grammar token label (.start automaton arc.target :: top :: below) next) :
    Takes grammar token label (top :: below) next

theorem Takes.unique {stack next next' : List Frame} (h : Takes grammar token label stack next)
    (h' : Takes grammar token label stack next') : next = next' := by
  -- The arc that is found decides whether a frame is opened.
  induction h with
  | leaf hfind hopened =>
    cases h' with
    | leaf hfind' _ =>
      cases hfind.symm.trans hfind'
      rfl
    | through hfind' hopened' _ =>
      cases hfind.symm.trans hfind'
      cases hopened.symm.trans hopened'
  | through hfind hopened _ ih =>
    cases h' with
    | leaf hfind' hopened' =>
      cases hfind.symm.trans hfind'
      cases hopened.symm.trans hopened'
    | through hfind' hopened' h' =>
      cases hfind.symm.trans hfind'
      cases hopened.symm.trans hopened'
      exact ih h'

theorem Takes.ne_nil {stack next : List Frame} (h : Takes grammar token label stack next) : next ≠ [] := by
  induction h with
  | leaf _ _ => exact List.cons_ne_nil _ _
  | through _ _ _ ih => exact ih

theorem Takes.exists_find {stack next : List Frame} (h : Takes grammar token label stack next) :
    ∃ top below, stack = top :: below ∧ (top.current.arcFor? label).isSome := by
  cases h with
  | leaf hfind _ => exact ⟨_, _, rfl, by rw [hfind, Option.isSome_some]⟩
  | through hfind _ _ => exact ⟨_, _, rfl, by rw [hfind, Option.isSome_some]⟩

theorem Takes.stack_ne_nil {stack next : List Frame} (h : Takes grammar token label stack next) : stack ≠ [] := by
  obtain ⟨top, below, rfl, -⟩ := h.exists_find
  exact List.cons_ne_nil top below

theorem Closes.mem_expected {parser : Parser} {stack next : List Frame}
    (hcloses : Closes (Passes label) parser.stack stack) (htakes : Takes grammar token label stack next) :
    label ∈ parser.expected := by
  obtain ⟨top, below, rfl, hfind⟩ := htakes.exists_find
  obtain ⟨closing, hsearch, -⟩ := hcloses.search_eq_found hfind
  exact (parser.mem_expected_iff label).2 ⟨closing, hsearch⟩

theorem consume_leaf {top : Frame} {arc : Arc} (hfind : top.current.arcFor? label = some arc)
    (hopened : opened? grammar arc = none) (fuel : Nat) (below : List Frame) :
    consume grammar token label (fuel + 1) (top :: below) =
      .ok ({ top.add (.leaf token) with state := arc.target } :: below) := by
  rw [Frame.current] at hfind
  simp only [consume, hfind, hopened]

theorem consume_through {top : Frame} {arc : Arc} {automaton : Automaton}
    (hfind : top.current.arcFor? label = some arc) (hopened : opened? grammar arc = some automaton) (fuel : Nat)
    (below : List Frame) :
    consume grammar token label (fuel + 1) (top :: below) =
      consume grammar token label fuel (.start automaton arc.target :: top :: below) := by
  rw [Frame.current] at hfind
  simp only [consume, hfind, hopened]

theorem takes_of_consume_eq_ok {fuel : Nat} {stack next : List Frame}
    (h : consume grammar token label fuel stack = .ok next) : Takes grammar token label stack next := by
  induction fuel generalizing stack with
  | zero => cases h
  | succ fuel ih =>
    match stack with
    | [] => cases h
    | top :: below =>
      rw [consume] at h
      split at h
      · cases h
      rename_i arc hfind
      split at h
      · rename_i automaton hopened
        exact .through hfind hopened (ih h)
      · rename_i hopened
        cases h
        exact .leaf hfind hopened

/-- Frames for the automata are opened on top one after another, each where the label leads through a nonterminal. -/
inductive Opens (grammar : Grammar) (label : Label) :
    (stack : List Frame) → (opened : List Automaton) → (next : List Frame) → Prop where
  | done (stack : List Frame) : Opens grammar label stack [] stack
  | frame {top : Frame} {below next : List Frame} {arc : Arc} {automaton : Automaton} {opened : List Automaton}
    (hfind : top.current.arcFor? label = some arc) (hopened : opened? grammar arc = some automaton)
    (h : Opens grammar label (.start automaton arc.target :: top :: below) opened next) :
    Opens grammar label (top :: below) (automaton :: opened) next

section Opens

variable {stack next : List Frame} {opened : List Automaton}

theorem Opens.automata_eq (h : Opens grammar label stack opened next) :
    next.map (·.automaton) = opened.reverse ++ stack.map (·.automaton) := by
  induction h with
  | done stack => rfl
  | @frame top below next arc automaton opened _ _ _ ih =>
    calc next.map (·.automaton)
        = opened.reverse ++ automaton :: (top :: below).map (·.automaton) := ih
      _ = (automaton :: opened).reverse ++ (top :: below).map (·.automaton) := by
        rw [List.reverse_cons, List.append_assoc, List.singleton_append]

theorem Opens.length_eq (h : Opens grammar label stack opened next) :
    next.length = stack.length + opened.length := by
  have hlength := congrArg List.length h.automata_eq
  rw [List.length_append, List.length_map, List.length_map, List.length_reverse] at hlength
  omega

theorem Opens.automaton_eq (hs : grammar.Sound) (h : Opens grammar label stack opened next) :
    ∀ automaton ∈ opened, grammar.automaton? automaton.symbol = some automaton := by
  induction h with
  | done stack => exact List.forall_mem_nil _
  | frame _ hopened _ ih => exact List.forall_mem_cons.2 ⟨(hs.labelOf?_of_opened? hopened).1, ih⟩

/-- A frame that has just been opened is in its initial state, so its nonterminal begins with all that follow. -/
theorem Opens.begins (hs : grammar.Sound) {automaton : Automaton} (hmem : automaton ∈ grammar.automata)
    {returnState : UInt32} {below : List Frame}
    (h : Opens grammar label (.start automaton returnState :: below) opened next) :
    ∀ later ∈ opened, Relation.TransGen grammar.Begins automaton later := by
  generalize hstack : Frame.start automaton returnState :: below = stack at h
  induction h generalizing automaton returnState below with
  | done stack => exact List.forall_mem_nil _
  | @frame top below' next arc first opened hfind hopened _ ih =>
    cases hstack
    obtain ⟨harc, -⟩ := (hs.arcFor?_iff automaton hmem 0 label arc).1 hfind
    have hbegins : grammar.Begins automaton first := ⟨arc, harc, hopened⟩
    refine List.forall_mem_cons.2 ⟨.single hbegins, fun later hlater => ?_⟩
    exact .head hbegins (ih (Grammar.mem_of_opened? hopened) rfl later hlater)

theorem Opens.nodup (hs : grammar.Sound) (h : Opens grammar label stack opened next) : opened.Nodup := by
  induction h with
  | done stack => exact List.nodup_nil
  | @frame _ _ _ _ automaton _ _ hopened h ih =>
    refine List.nodup_cons.2 ⟨fun hagain => ?_, ih⟩
    -- A nonterminal that is opened again begins itself.
    exact hs.acyclic automaton (h.begins hs (Grammar.mem_of_opened? hopened) automaton hagain)

theorem Opens.nodup_symbols (hs : grammar.Sound) (h : Opens grammar label stack opened next) :
    (opened.map (·.symbol)).Nodup := by
  refine (h.nodup hs).map_on fun a ha b hb hsymbol => ?_
  have hautomaton := h.automaton_eq hs a ha
  rw [hsymbol, h.automaton_eq hs b hb] at hautomaton
  exact (Option.some.inj hautomaton).symm

theorem Opens.length_le (hs : grammar.Sound) (h : Opens grammar label stack opened next) :
    opened.length ≤ grammar.automata.size := by
  have hsubset : opened ⊆ grammar.automata.toList := fun automaton hautomaton =>
    Array.mem_toList_iff.2 (Grammar.mem_of_automaton? (h.automaton_eq hs automaton hautomaton))
  exact ((h.nodup hs).subperm hsubset).length_le

/-- The bound of the loop only counts down while frames are opened. -/
theorem Opens.consume_eq (h : Opens grammar label stack opened next) (bound : Nat) :
    consume grammar token label (bound + opened.length) stack = consume grammar token label bound next := by
  induction h with
  | done stack => rfl
  | frame hfind hopened _ ih =>
    rw [List.length_cons, ← Nat.add_assoc, consume_through hfind hopened]
    exact ih

end Opens

/-- As long as its bound allows it, the loop opens frames until the token is taken. -/
theorem consume_eq_ok_or_opens (hs : grammar.Sound) (token : Token) (bound : Nat) {top : Frame} (below : List Frame)
    (hmem : top.automaton ∈ grammar.automata) (hfind : (top.current.arcFor? label).isSome) :
    (∃ next, consume grammar token label bound (top :: below) = .ok next) ∨
      ∃ opened next, Opens grammar label (top :: below) opened next ∧ opened.length = bound := by
  induction bound generalizing top below with
  | zero => exact .inr ⟨[], top :: below, .done (top :: below), rfl⟩
  | succ bound ih =>
    obtain ⟨arc, hfind⟩ := Option.isSome_iff_exists.1 hfind
    cases hopened : opened? grammar arc with
    | none => exact .inl ⟨_, consume_leaf hfind hopened bound below⟩
    | some automaton =>
      -- The label begins the nonterminal, so an initial arc of the new frame consumes it.
      have hconsumes := ((hs.arcFor?_iff top.automaton hmem top.state label arc).1 hfind).2
      rw [Grammar.Consumes, hopened] at hconsumes
      have hautomaton := Grammar.mem_of_opened? hopened
      obtain ⟨initial, hinitial⟩ := (hs.first_iff automaton hautomaton label).1 hconsumes
      have hnext : ((Frame.start automaton arc.target).current.arcFor? label).isSome :=
        Option.isSome_iff_exists.2 ⟨initial, (hs.arcFor?_iff automaton hautomaton 0 label initial).2 hinitial⟩
      rw [consume_through hfind hopened]
      rcases ih (top :: below) hautomaton hnext with htaken | ⟨opened, next, hopens, hlength⟩
      · exact .inl htaken
      · exact .inr ⟨automaton :: opened, next, .frame hfind hopened hopens, congrArg (· + 1) hlength⟩

/-- The bound on the loop is enough, as no more frames are opened than the grammar has nonterminals. -/
theorem consume_eq_ok (hs : grammar.Sound) (token : Token) {top : Frame} (below : List Frame)
    (hmem : top.automaton ∈ grammar.automata) (hfind : (top.current.arcFor? label).isSome) :
    ∃ next, consume grammar token label (grammar.automata.size + 1) (top :: below) = .ok next := by
  rcases consume_eq_ok_or_opens hs token (grammar.automata.size + 1) below hmem hfind with
    htaken | ⟨opened, next, hopens, hlength⟩
  · exact htaken
  · have hbounded := hopens.length_le hs
    omega

/-- The frames belong to automata of the grammar. -/
def Known (grammar : Grammar) (stack : List Frame) : Prop := ∀ frame ∈ stack, frame.automaton ∈ grammar.automata

theorem Closes.known {ends : State → Prop} {stack rest : List Frame} (h : Closes ends stack rest)
    (hknown : Known grammar stack) : Known grammar rest := by
  induction h with
  | refl stack => exact hknown
  | close _ _ ih =>
    obtain ⟨-, hparent, hbelow⟩ := List.forall_mem_cons.1 hknown |>.imp_right List.forall_mem_cons.1
    exact ih (List.forall_mem_cons.2 ⟨hparent, hbelow⟩)

/-- After a search has found a frame, the label is consumed there. -/
theorem consume_of_search (hs : grammar.Sound) {stack : List Frame} (hknown : Known grammar stack) (token : Token)
    {closing : Nat} (hsearch : search label stack = .found closing) :
    ∃ closed next, closeFrames closing stack = closed ∧ Closes (Passes label) stack closed ∧
      consume grammar token label (grammar.automata.size + 1) closed = .ok next := by
  obtain ⟨top, below, hclose, hfind, hcloses⟩ := closes_of_search_eq_found hsearch
  obtain ⟨next, hconsume⟩ := consume_eq_ok hs token below (hcloses.known hknown top List.mem_cons_self) hfind
  exact ⟨top :: below, next, hclose, hcloses, hconsume⟩

/-- The parser with its start symbol complete. -/
def completed (parser : Parser) (root : Frame) : Parser := { parser with stack := [], root := some root.node }

theorem finish_eq_completed {ends : State → Prop} (parser : Parser) {root : Frame}
    (h : Closes ends parser.stack [root]) : parser.finish = parser.completed root := by
  rw [finish, completed, h.closeFrames_eq]
  rfl

/-- All that a token can do, given its kind and label: the answer, and the parser afterwards. -/
inductive Adds (parser : Parser) (kind : TokenKind) (token : Token) (label : Label) :
    Except ParseError Bool × Parser → Prop where
  | rejected (error : ParseError) : Adds parser kind token label (.error error, parser)
  | taken {stack next : List Frame} (hcloses : Closes (Passes label) parser.stack stack)
    (htakes : Takes parser.grammar token label stack next)
    (hgoesOn : (kind.isEndMarker && allAccepting next) = false) :
    Adds parser kind token label (.ok false, { parser with stack := next })
  /-- An end marker is consumed by an arc. -/
  | ended {stack next : List Frame} {root : Frame} (hcloses : Closes (Passes label) parser.stack stack)
    (htakes : Takes parser.grammar token label stack next) (hkind : kind.isEndMarker = true)
    (hroot : root.current.accepting = true) (hends : Closes (fun state => state.accepting = true) next [root]) :
    Adds parser kind token label (.ok true, parser.completed root)
  /-- No arc consumes an end marker, and all frames may end. -/
  | stopped {root : Frame} (hkind : kind.isEndMarker = true) (hroot : Passes label root.current)
    (hcloses : Closes (Passes label) parser.stack [root]) :
    Adds parser kind token label (.ok true, parser.completed root)

section AddToken

variable {parser : Parser} (kind : TokenKind)

theorem addToken_of_takes (hs : parser.grammar.Sound) (hknown : Known parser.grammar parser.stack)
    {stack next : List Frame} (hcloses : Closes (Passes label) parser.stack stack)
    (htakes : Takes parser.grammar token label stack next) :
    parser.addToken kind token label =
      if kind.isEndMarker && allAccepting next then (.ok true, { parser with stack := next }.finish)
      else (.ok false, { parser with stack := next }) := by
  obtain ⟨top, below, rfl, hfind⟩ := htakes.exists_find
  obtain ⟨closing, hsearch, hclose⟩ := hcloses.search_eq_found hfind
  have hne : parser.stack.isEmpty = false := by
    cases hstack : parser.stack with
    | nil =>
      rw [hstack] at hsearch
      cases hsearch
    | cons _ _ => rfl
  have hconsume : consume parser.grammar token label (parser.grammar.automata.size + 1) (top :: below) =
      .ok next := by
    obtain ⟨next', hnext'⟩ := consume_eq_ok hs token below (hcloses.known hknown top List.mem_cons_self) hfind
    rwa [htakes.unique (takes_of_consume_eq_ok hnext')]
  simp only [addToken, hne, hsearch, hclose, hconsume, Bool.false_eq_true, if_false]

theorem addToken_of_search_eq_stuck (hne : parser.stack ≠ []) {accepting : Bool}
    (hsearch : search label parser.stack = .stuck accepting) :
    parser.addToken kind token label =
      if accepting && kind.isEndMarker then (.ok true, parser.finish)
      else (.error (parser.unexpected kind token accepting), parser) := by
  have hempty : parser.stack.isEmpty = false := by rwa [List.isEmpty_eq_false_iff]
  simp only [addToken, hempty, hsearch, Bool.false_eq_true, if_false]

theorem addToken_adds (hs : parser.grammar.Sound) (hknown : Known parser.grammar parser.stack) (token : Token)
    (label : Label) : Adds parser kind token label (parser.addToken kind token label) := by
  by_cases hempty : parser.stack = []
  · rw [addToken, hempty, List.isEmpty_nil, if_pos rfl]
    exact .rejected _
  cases hsearch : search label parser.stack with
  | found closing =>
    obtain ⟨stack, next, -, hcloses, hconsume⟩ := consume_of_search hs hknown token hsearch
    have htakes := takes_of_consume_eq_ok hconsume
    rw [addToken_of_takes kind hs hknown hcloses htakes]
    cases hend : kind.isEndMarker && allAccepting next with
    | false => exact .taken hcloses htakes hend
    | true =>
      -- The end marker has been consumed, and nothing keeps the frames open.
      obtain ⟨hkind, haccepting⟩ := Bool.and_eq_true_iff.1 hend
      obtain ⟨root, hroot, hends⟩ := closes_of_allAccepting htakes.ne_nil haccepting
      have hfinish : ({ parser with stack := next } : Parser).finish = parser.completed root :=
        finish_eq_completed { parser with stack := next } hends
      rw [if_pos rfl, hfinish]
      exact .ended hcloses htakes hkind hroot hends
  | stuck accepting =>
    rw [addToken_of_search_eq_stuck kind hempty hsearch]
    cases hend : accepting && kind.isEndMarker with
    | false => exact .rejected _
    | true =>
      -- The search has passed all frames.
      obtain ⟨rfl, hkind⟩ := Bool.and_eq_true_iff.1 hend
      obtain ⟨root, hroot, hcloses⟩ := closes_of_search_eq_stuck hempty hsearch
      rw [if_pos rfl, finish_eq_completed parser hcloses]
      exact .stopped hkind hroot hcloses

end AddToken

end Pushdown.Parser
