import Pushdown.Proofs.Parser.Stack

/-!
A parser that checks every index before it is used, and gives `none` where one is out of range. On the stacks that
can be reached it does what the parser does, so there the parser stays in range.
-/

namespace Pushdown

def Automaton.checkedState? (automaton : Automaton) (number : UInt32) : Option State :=
  automaton.states[number.toNat]?

/-- What the lookup finds has to be an arc of the state. -/
def State.checkedArcFor? (state : State) (label : Label) : Option (Option Arc) :=
  match state.arcFor? label with
  | none => some none
  | some arc => if arc ∈ state.arcs then some (some arc) else none

namespace Parser

def checkedStatesFrom? (current : UInt32) : List Frame → Option (List State)
  | [] => some []
  | frame :: below => do
    let state ← frame.automaton.checkedState? current
    return state :: (← checkedStatesFrom? frame.returnState below)

def checkedReachableStates? (stack : List Frame) : Option (List State) :=
  match stack with
  | [] => some []
  | top :: _ => checkedStatesFrom? top.state stack

def checkedSearchFrom? (label : Label) (closing : Nat) (current : UInt32) : List Frame → Option Search
  | [] => some (.stuck true)
  | frame :: below => do
    let state ← frame.automaton.checkedState? current
    if (← state.checkedArcFor? label).isSome then return .found closing
    else if state.accepting then checkedSearchFrom? label (closing + 1) frame.returnState below
    else return .stuck false

def checkedSearch? (label : Label) (stack : List Frame) : Option Search :=
  match stack with
  | [] => some (.stuck true)
  | top :: _ => checkedSearchFrom? label 0 top.state stack

/-- A frame is closed only if there is one below it. -/
def checkedCloseFrames? : Nat → List Frame → Option (List Frame)
  | 0, stack => some stack
  | n + 1, top :: parent :: below => checkedCloseFrames? n (parent.close top :: below)
  | _, _ => none

def checkedFinish? (parser : Parser) : Option Parser := do
  let closed ← checkedCloseFrames? (parser.stack.length - 1) parser.stack
  return { parser with stack := [], root := closed.head?.map (·.node) }

def checkedUnexpected? (parser : Parser) (kind : TokenKind) (token : Token) (accepting : Bool) :
    Option ParseError := do
  let states ← checkedReachableStates? parser.stack
  return {
    failure := if kind.isEndMarker then .incompleteInput else if accepting then .tooMuchInput else .badInput
    token
    expected := (expectedFrom .empty states).labels }

/-- There has to be a frame on top. -/
def checkedConsume? (grammar : Grammar) (token : Token) (label : Label) :
    (fuel : Nat) → List Frame → Option (Except (List Frame) (List Frame))
  | 0, stack => some (.error stack)
  | _, [] => none
  | fuel + 1, top :: below => do
    let state ← top.automaton.checkedState? top.state
    match ← state.checkedArcFor? label with
    | none => return .error (top :: below)
    | some arc =>
      match opened? grammar arc with
      | some automaton => checkedConsume? grammar token label fuel (.start automaton arc.target :: top :: below)
      | none => return .ok ({ top.add (.leaf token) with state := arc.target } :: below)

def checkedAddToken? (parser : Parser) (kind : TokenKind) (token : Token) (label : Label) :
    Option (Except ParseError Bool × Parser) :=
  if parser.stack.isEmpty then
    some (.error ⟨if parser.isDone then .tooMuchInput else .notStarted, token, []⟩, parser)
  else do
    match ← checkedSearch? label parser.stack with
    | .stuck accepting =>
      if accepting && kind.isEndMarker then return (.ok true, ← parser.checkedFinish?)
      else return (.error (← parser.checkedUnexpected? kind token accepting), parser)
    | .found closing =>
      let stack ← checkedCloseFrames? closing parser.stack
      match ← checkedConsume? parser.grammar token label (parser.grammar.automata.size + 1) stack with
      | .error stack =>
        let parser := { parser with stack }
        return (.error (← parser.checkedUnexpected? kind token false), parser)
      | .ok stack =>
        let parser := { parser with stack }
        let states ← checkedReachableStates? stack
        if kind.isEndMarker && states.all (·.accepting) then return (.ok true, ← parser.checkedFinish?)
        else return (.ok false, parser)

def checkedPushToken? (parser : Parser) (token : Token) : Option (Except ParseError Bool × Parser) :=
  match parser.grammar.resolve? token.kind token.text with
  | none => some (.error ⟨.unknownToken, token, []⟩, parser)
  | some label => parser.checkedAddToken? token.kind token label

end Parser

theorem Automaton.checkedState?_eq {automaton : Automaton} {number : UInt32}
    (h : number.toNat < automaton.states.size) : automaton.checkedState? number = some (automaton.state number) := by
  rw [checkedState?, state, Array.getElem?_eq_getElem h, Option.getD_some]

namespace Parser

variable {grammar : Grammar} {base : Automaton} {token : Token} {label : Label}

theorem checkedArcFor?_eq (hs : grammar.Sound) {automaton : Automaton} (hmem : automaton ∈ grammar.automata)
    (number : UInt32) (label : Label) :
    (automaton.state number).checkedArcFor? label = some ((automaton.state number).arcFor? label) := by
  unfold State.checkedArcFor?
  cases hfind : (automaton.state number).arcFor? label with
  | none => rfl
  | some arc => exact if_pos ((hs.arcFor?_iff automaton hmem number label arc).1 hfind).1

/-- The first frame may be in `current`, and every frame may return to the one below it. -/
def InRange (current : UInt32) : List Frame → Prop
  | [] => True
  | frame :: below => current.toNat < frame.automaton.states.size ∧ InRange frame.returnState below

theorem Linked.inRange (hs : grammar.Sound) (hbase : base ∈ grammar.automata) {top : Frame} {below : List Frame}
    (h : Linked grammar base (top :: below)) : InRange top.state (top :: below) := by
  generalize hstack : top :: below = stack at h
  induction h generalizing top below with
  | bottom _ hstate =>
    cases hstack
    exact ⟨hstate, trivial⟩
  | @link _ parent _ arc hstate harc _ hreturn h ih =>
    cases hstack
    have hparent := h.known hbase parent List.mem_cons_self
    -- The state to return to is the target of an arc of the frame below.
    refine ⟨hstate, ?_, (ih rfl).2⟩
    rw [hreturn]
    exact hs.target_lt parent.automaton hparent parent.state arc harc

theorem checkedStatesFrom?_eq {current : UInt32} {stack : List Frame} (h : InRange current stack) :
    checkedStatesFrom? current stack = some (statesFrom current stack) := by
  induction stack generalizing current with
  | nil => rfl
  | cons frame below ih =>
    rw [checkedStatesFrom?, Automaton.checkedState?_eq h.1, ih h.2]
    rfl

theorem checkedSearchFrom?_eq (hs : grammar.Sound) (closing : Nat) {current : UInt32} {stack : List Frame}
    (hknown : Known grammar stack) (h : InRange current stack) :
    checkedSearchFrom? label closing current stack = some (searchFrom label closing current stack) := by
  induction stack generalizing closing current with
  | nil => rfl
  | cons frame below ih =>
    obtain ⟨hframe, hbelow⟩ := List.forall_mem_cons.1 hknown
    simp only [checkedSearchFrom?, Automaton.checkedState?_eq h.1, checkedArcFor?_eq hs hframe, searchFrom,
      ih (closing + 1) hbelow h.2, Option.bind_eq_bind, Option.bind_some, Option.pure_def]
    split
    · rfl
    · split <;> rfl

theorem checkedReachableStates?_eq (hs : grammar.Sound) (hbase : base ∈ grammar.automata) {stack : List Frame}
    (h : Linked grammar base stack) : checkedReachableStates? stack = some (reachableStates stack) := by
  cases stack with
  | nil => rfl
  | cons top below => exact checkedStatesFrom?_eq (h.inRange hs hbase)

theorem checkedSearch?_eq (hs : grammar.Sound) (hbase : base ∈ grammar.automata) {stack : List Frame}
    (h : Linked grammar base stack) : checkedSearch? label stack = some (search label stack) := by
  cases stack with
  | nil => rfl
  | cons top below => exact checkedSearchFrom?_eq hs 0 (h.known hbase) (h.inRange hs hbase)

theorem checkedCloseFrames?_eq {n : Nat} {stack : List Frame} (h : n < stack.length) :
    checkedCloseFrames? n stack = some (closeFrames n stack) := by
  induction n generalizing stack with
  | zero => cases stack <;> rfl
  | succ n ih =>
    match stack with
    | [] => simp at h
    | [frame] => simp at h
    | top :: parent :: below =>
      apply ih
      simpa using h

theorem checkedConsume?_eq (hs : grammar.Sound) (hbase : base ∈ grammar.automata) (fuel : Nat) {stack : List Frame}
    (h : Linked grammar base stack) :
    checkedConsume? grammar token label fuel stack = some (consume grammar token label fuel stack) := by
  induction fuel generalizing stack with
  | zero => cases stack <;> rfl
  | succ fuel ih =>
    match stack with
    | top :: below =>
      have htop := h.known hbase top List.mem_cons_self
      simp only [checkedConsume?, Automaton.checkedState?_eq h.state_lt, checkedArcFor?_eq hs htop, consume,
        Option.bind_eq_bind, Option.bind_some, Option.pure_def]
      cases hfind : (top.automaton.state top.state).arcFor? label with
      | none => rfl
      | some arc =>
        cases hopened : opened? grammar arc with
        | none => simp only [hopened]
        | some automaton =>
          simp only [hopened]
          exact ih (h.through hs hbase hfind hopened)

theorem checkedFinish?_eq (parser : Parser) : parser.checkedFinish? = some parser.finish := by
  have hclose : checkedCloseFrames? (parser.stack.length - 1) parser.stack =
      some (closeFrames (parser.stack.length - 1) parser.stack) := by
    cases hstack : parser.stack with
    | nil => rfl
    | cons top below => exact checkedCloseFrames?_eq (by simp)
  rw [checkedFinish?, hclose]
  rfl

theorem checkedUnexpected?_eq {parser : Parser} (kind : TokenKind) (accepting : Bool)
    (h : checkedReachableStates? parser.stack = some (reachableStates parser.stack)) :
    parser.checkedUnexpected? kind token accepting = some (parser.unexpected kind token accepting) := by
  rw [checkedUnexpected?, h]
  rfl

theorem lt_length_of_search_eq_found {closing : Nat} {stack : List Frame}
    (h : search label stack = .found closing) : closing < stack.length := by
  induction stack using closing_induction generalizing closing with
  | nil => cases h
  | single frame =>
    rw [search_singleton] at h
    split at h
    · cases h
      exact Nat.one_pos
    · cases h
  | close top parent below ih =>
    rw [search_cons_cons] at h
    split at h
    · cases h
      exact Nat.succ_pos _
    split at h
    · obtain ⟨n, hsearch, rfl⟩ := (Search.next_eq_found_iff _ _).1 h
      exact Nat.succ_lt_succ (ih hsearch)
    · cases h

theorem checkedAddToken?_eq {parser : Parser} (hs : parser.grammar.Sound) (h : parser.Consistent)
    (kind : TokenKind) (token : Token) (label : Label) :
    parser.checkedAddToken? kind token label = some (parser.addToken kind token label) := by
  rcases h with hempty | ⟨base, hbase, hlinked⟩
  · simp [checkedAddToken?, addToken, hempty]
  have hne : parser.stack.isEmpty = false := List.isEmpty_eq_false_iff.2 hlinked.ne_nil
  have hstates := checkedReachableStates?_eq hs hbase hlinked
  simp only [checkedAddToken?, addToken, hne, checkedSearch?_eq hs hbase hlinked, Option.bind_eq_bind,
    Option.bind_some, Option.pure_def, Bool.false_eq_true, if_false]
  cases hsearch : search label parser.stack with
  | stuck accepting =>
    simp only [checkedFinish?_eq, checkedUnexpected?_eq kind accepting hstates, Option.bind_some]
    split <;> rfl
  | found closing =>
    -- The stack stays linked while frames are closed and opened, so every later lookup is in range too.
    obtain ⟨stack, next, hclose, hcloses, hconsume⟩ :=
      consume_of_search hs (hlinked.known hbase) token hsearch
    have hclosed := hlinked.closes hs hbase hcloses
    have hnext := hclosed.takes hs hbase (takes_of_consume_eq_ok hconsume)
    simp only [checkedCloseFrames?_eq (lt_length_of_search_eq_found hsearch), hclose,
      checkedConsume?_eq hs hbase _ hclosed, hconsume, checkedReachableStates?_eq hs hbase hnext,
      checkedFinish?_eq, Option.bind_some, allAccepting]
    exact (apply_ite some _ _ _).symm

theorem checkedPushToken?_eq {parser : Parser} (hs : parser.grammar.Sound) (h : parser.Consistent)
    (token : Token) : parser.checkedPushToken? token = some (parser.pushToken token) := by
  unfold checkedPushToken? pushToken
  cases parser.grammar.resolve? token.kind token.text with
  | none => rfl
  | some label => exact checkedAddToken?_eq hs h token.kind token label

/--
No call looks up a state, arc or frame that is not there, and a token that is rejected changes nothing. After a
search has found a frame, the token is consumed.
-/
theorem rejected_token_changes_nothing (hg : grammar.Compiled) {parser : Parser} (h : Reachable grammar parser) :
    (∀ kind token label,
      parser.checkedAddToken? kind token label = some (parser.addToken kind token label) ∧
      (∀ error next, parser.addToken kind token label = (.error error, next) → next = parser) ∧
      ∀ closing, search label parser.stack = .found closing →
        ∃ stack, consume parser.grammar token label (parser.grammar.automata.size + 1)
          (closeFrames closing parser.stack) = .ok stack) ∧
    ∀ token, parser.checkedPushToken? token = some (parser.pushToken token) ∧
      ∀ error next, parser.pushToken token = (.error error, next) → next = parser := by
  obtain ⟨rfl, hconsistent⟩ := h.consistent hg.sound
  have hs := hg.sound
  have hunchanged : ∀ kind token label error next,
      parser.addToken kind token label = (.error error, next) → next = parser := by
    intro kind token label error next hadd
    have hadds := addToken_adds kind hs hconsistent.known token label
    rw [hadd] at hadds
    exact hadds.eq_of_error
  refine ⟨fun kind token label => ⟨?_, ?_, ?_⟩, fun token => ⟨?_, ?_⟩⟩
  · exact checkedAddToken?_eq hs hconsistent kind token label
  · exact hunchanged kind token label
  · intro closing hsearch
    obtain ⟨stack, next, rfl, -, hconsume⟩ := consume_of_search hs hconsistent.known token hsearch
    exact ⟨next, hconsume⟩
  · exact checkedPushToken?_eq hs hconsistent token
  · intro error next hpush
    rcases parser.pushToken_cases token with ⟨label, -, hadd⟩ | ⟨error', herror⟩
    · exact hunchanged token.kind token label error next (hadd.symm.trans hpush)
    · cases herror.symm.trans hpush
      rfl

/-- The parser in front of the `b` of `acb`. The frame of the inner sentence is still open. -/
def nestedInside : Parser := ((nested.pushToken ⟨.name, "a", .empty 0⟩).2.pushToken ⟨.name, "c", .empty 1⟩).2

/-- A second `a` is rejected by the frame below, and the one above, which may end, is not closed for it. -/
theorem rejected_token_changes_nothing_nested :
    (reachableStates nestedInside.stack).map (·.accepting) = [true, false] ∧
      nestedInside.pushToken ⟨.name, "a", .empty 2⟩ =
        (.error ⟨.badInput, ⟨.name, "a", .empty 2⟩, [⟨1⟩]⟩, nestedInside) := by
  have hreach : Reachable .nested nestedInside :=
    ((Reachable.setup .new setup_nested).pushToken ⟨.name, "a", .empty 0⟩).pushToken ⟨.name, "c", .empty 1⟩
  have hunchanged := ((rejected_token_changes_nothing (.ofTable .nested Table.ofTable_nested) hreach).2
    ⟨.name, "a", .empty 2⟩).2
  have hanswer : (nestedInside.pushToken ⟨.name, "a", .empty 2⟩).1 =
      .error ⟨.badInput, ⟨.name, "a", .empty 2⟩, [⟨1⟩]⟩ := by cbv
  exact ⟨by cbv, Prod.ext hanswer (hunchanged _ _ (Prod.ext hanswer rfl))⟩

end Parser

end Pushdown
