import Pushdown.Proofs.Parser.Expected

/-!
The machine that takes one action at a time: it shifts the token, opens a frame, or closes one. Adding a token looks
ahead for the frame to go on with, and does in one go what this machine does in the end.
-/

namespace Pushdown

/-- What one action leads to. -/
inductive Turn where
  /-- The token is still to be consumed. -/
  | again (parser : Parser)
  /-- Nothing is left to do. The outcome is `none` if the token cannot be consumed. -/
  | ended (outcome : Option (Bool × Parser))

namespace Parser

/-- The frame may end, and so may each frame below it once the one above has been closed. -/
def endsAll (top : Frame) : List Frame → Bool
  | [] => top.current.accepting
  | parent :: below => top.current.accepting && endsAll (parent.close top) below

/-- The bottom frame, with all frames above it folded into it one after another. -/
def folded (top : Frame) : List Frame → Frame
  | [] => top
  | parent :: below => folded (parent.close top) below

/-- One action on the top frame. -/
def turn (parser : Parser) (kind : TokenKind) (token : Token) (label : Label) : Turn :=
  match parser.stack with
  | [] => .ended none
  | top :: below =>
    match top.current.arcFor? label with
    | some arc =>
      match opened? parser.grammar arc with
      | some automaton => .again { parser with stack := .start automaton arc.target :: top :: below }
      | none =>
        let shifted : Frame := { top.add (.leaf token) with state := arc.target }
        if kind.isEndMarker && endsAll shifted below then
          .ended (some (true, parser.completed (folded shifted below)))
        else .ended (some (false, { parser with stack := shifted :: below }))
    | none =>
      if top.current.accepting then
        match below with
        | parent :: rest => .again { parser with stack := parent.close top :: rest }
        | [] => if kind.isEndMarker then .ended (some (true, parser.completed top)) else .ended none
      else .ended none

/-- After finitely many actions the machine ends with the outcome. -/
inductive Acts (kind : TokenKind) (token : Token) (label : Label) : Parser → Option (Bool × Parser) → Prop where
  | last {parser : Parser} {outcome : Option (Bool × Parser)}
    (hturn : parser.turn kind token label = .ended outcome) : Acts kind token label parser outcome
  | more {parser next : Parser} {outcome : Option (Bool × Parser)}
    (hturn : parser.turn kind token label = .again next) (h : Acts kind token label next outcome) :
    Acts kind token label parser outcome

variable {grammar : Grammar} {kind : TokenKind} {token : Token} {label : Label}

theorem Acts.unique {parser : Parser} {outcome other : Option (Bool × Parser)}
    (h : Acts kind token label parser outcome) (h' : Acts kind token label parser other) : other = outcome := by
  induction h with
  | last hturn =>
    cases h' with
    | last hturn' =>
      cases hturn.symm.trans hturn'
      rfl
    | more hturn' _ => cases hturn.symm.trans hturn'
  | more hturn _ ih =>
    cases h' with
    | last hturn' => cases hturn.symm.trans hturn'
    | more hturn' h' =>
      cases hturn.symm.trans hturn'
      exact ih h'

section Folding

theorem endsAll_eq_allAccepting (top : Frame) (below : List Frame) :
    endsAll top below = allAccepting (top :: below) := by
  induction below generalizing top with
  | nil => exact (allAccepting_singleton top).symm
  | cons parent below ih => rw [endsAll, ih, allAccepting_cons_cons]

theorem closeFrames_length (top : Frame) (below : List Frame) :
    closeFrames below.length (top :: below) = [folded top below] := by
  induction below generalizing top with
  | nil => rfl
  | cons parent below ih => exact ih (parent.close top)

theorem finish_eq_completed_folded (parser : Parser) (top : Frame) (below : List Frame) :
    ({ parser with stack := top :: below } : Parser).finish = parser.completed (folded top below) := by
  have hlength : (top :: below).length - 1 = below.length := by simp
  simp only [finish, hlength, closeFrames_length]
  rfl

end Folding

section Actions

variable {parser : Parser}

theorem Acts.of_takes {stack next : List Frame} (h : Takes parser.grammar token label stack next) :
    Acts kind token label { parser with stack }
      (if kind.isEndMarker && allAccepting next then some (true, { parser with stack := next }.finish)
        else some (false, { parser with stack := next })) := by
  -- The induction is on the frames that are opened: each of them is one action, and the shift is the last.
  induction h with
  | @leaf top below arc hfind hopened =>
    apply Acts.last
    simp only [turn, hfind, hopened, endsAll_eq_allAccepting, finish_eq_completed_folded]
    split
    · rfl
    · rfl
  | @through top below next arc automaton hfind hopened _ ih =>
    have hturn : ({ parser with stack := top :: below } : Parser).turn kind token label =
        .again { parser with stack := .start automaton arc.target :: top :: below } := by
      simp only [turn, hfind, hopened]
    exact .more hturn ih

theorem Acts.of_closes (parser : Parser) {stack closed : List Frame} (hcloses : Closes (Passes label) stack closed)
    {outcome : Option (Bool × Parser)} (h : Acts kind token label { parser with stack := closed } outcome) :
    Acts kind token label { parser with stack } outcome := by
  induction hcloses with
  | refl _ => exact h
  | @close top parent below _ hpasses _ ih =>
    obtain ⟨hfind, haccepting⟩ := hpasses
    have hturn : ({ parser with stack := top :: parent :: below } : Parser).turn kind token label =
        .again { parser with stack := parent.close top :: below } := by
      simp only [turn, hfind, haccepting, if_true]
    exact .more hturn (ih h)

/-- A search that finds no frame stops at one that cannot consume the label. If it may end, it is the last. -/
theorem exists_closes_of_search_eq_stuck {stack : List Frame} (hne : stack ≠ []) {accepting : Bool}
    (h : search label stack = .stuck accepting) :
    ∃ top below, Closes (Passes label) stack (top :: below) ∧ top.current.arcFor? label = none ∧
      top.current.accepting = accepting ∧ (accepting = true → below = []) := by
  induction stack using closing_induction with
  | nil => exact absurd rfl hne
  | single frame =>
    rw [search_singleton] at h
    split at h
    · cases h
    · rename_i hfind
      cases h
      exact ⟨frame, [], .refl _, by simpa using hfind, rfl, fun _ => rfl⟩
  | close top parent below ih =>
    rw [search_cons_cons] at h
    split at h
    · cases h
    rename_i hfind
    have hnone : top.current.arcFor? label = none := by simpa using hfind
    split at h
    · rename_i haccepting
      obtain ⟨last, rest, hcloses, hlast⟩ := ih (List.cons_ne_nil _ _) ((Search.next_eq_stuck_iff _ _).1 h)
      exact ⟨last, rest, .close ⟨hnone, haccepting⟩ hcloses, hlast⟩
    · rename_i hrejecting
      cases h
      exact ⟨top, parent :: below, .refl _, hnone, by simpa using hrejecting, fun hend => by cases hend⟩

theorem Acts.of_search_eq_stuck (hne : parser.stack ≠ []) {accepting : Bool}
    (h : search label parser.stack = .stuck accepting) :
    Acts kind token label parser
      (if accepting && kind.isEndMarker then some (true, parser.finish) else none) := by
  obtain ⟨top, below, hcloses, hfind, haccepting, hbottom⟩ := exists_closes_of_search_eq_stuck hne h
  apply Acts.of_closes parser hcloses
  apply Acts.last
  cases accepting with
  | false => simp [turn, hfind, haccepting]
  | true =>
    obtain rfl := hbottom rfl
    have hfinish : parser.finish = parser.completed top := finish_eq_completed parser hcloses
    simp only [turn, hfind, haccepting, if_true, Bool.true_and, hfinish]
    cases kind.isEndMarker with
    | false => rfl
    | true => rfl

end Actions

/-- The outcome that an answer stands for. -/
def outcomeOf : Except ParseError Bool × Parser → Option (Bool × Parser)
  | (.ok complete, next) => some (complete, next)
  | (.error _, _) => none

theorem acts_outcomeOf_addToken {parser : Parser} (hs : parser.grammar.Sound)
    (hknown : Known parser.grammar parser.stack) (hne : parser.stack ≠ []) (kind : TokenKind) (token : Token)
    (label : Label) : Acts kind token label parser (outcomeOf (parser.addToken kind token label)) := by
  cases hsearch : search label parser.stack with
  | found closing =>
    -- The frames that the search has passed are closed one after another, then others are opened.
    obtain ⟨stack, next, -, hcloses, hconsume⟩ := consume_of_search hs hknown token hsearch
    have htakes := takes_of_consume_eq_ok hconsume
    rw [addToken_of_takes kind hs hknown hcloses htakes, apply_ite outcomeOf]
    exact .of_closes parser hcloses (.of_takes htakes)
  | stuck accepting =>
    rw [addToken_of_search_eq_stuck kind hne hsearch, apply_ite outcomeOf]
    exact .of_search_eq_stuck hne hsearch

/--
Taking one action at a time ends, in failure if and only if the token is rejected. Otherwise both give the same answer
and leave the same parser.
-/
theorem addToken_refines_turns (hg : grammar.Compiled) {parser : Parser} (h : Reachable grammar parser)
    (hprogress : parser.stack ≠ []) (kind : TokenKind) (token : Token) (label : Label) :
    ∃ outcome, Acts kind token label parser outcome ∧
      (∀ other, Acts kind token label parser other → other = outcome) ∧
      (outcome = none ↔ ∃ error next, parser.addToken kind token label = (.error error, next)) ∧
      ∀ complete next, outcome = some (complete, next) →
        parser.addToken kind token label = (.ok complete, next) := by
  obtain ⟨rfl, hconsistent⟩ := h.consistent hg.sound
  have hacts := acts_outcomeOf_addToken hg.sound hconsistent.known hprogress kind token label
  refine ⟨_, hacts, fun other => hacts.unique, ?_, ?_⟩
  · rcases parser.addToken kind token label with ⟨error | complete, next⟩
    · simp [outcomeOf]
    · simp [outcomeOf]
  · intro complete next heq
    rcases hadd : parser.addToken kind token label with ⟨error | complete', next'⟩
    · rw [hadd] at heq
      cases heq
    · rw [hadd] at heq
      cases heq
      rfl

/-- After `ac` the machine closes the frame of the inner sentence and then shifts the `b`. -/
theorem addToken_refines_turns_nested :
    ∃ next, Acts .name ⟨.name, "b", .empty 2⟩ ⟨1⟩
        ((nested.pushToken ⟨.name, "a", .empty 0⟩).2.pushToken ⟨.name, "c", .empty 1⟩).2 (some (false, next)) ∧
      next.depth = 1 := by
  have hreach := ((Reachable.setup .new setup_nested).pushToken ⟨.name, "a", .empty 0⟩).pushToken
    ⟨.name, "c", .empty 1⟩
  have hstack : ((nested.pushToken ⟨.name, "a", .empty 0⟩).2.pushToken ⟨.name, "c", .empty 1⟩).2.stack ≠ [] := by
    rw [← List.isEmpty_eq_false_iff]
    cbv
  have hanswer : (((nested.pushToken ⟨.name, "a", .empty 0⟩).2.pushToken ⟨.name, "c", .empty 1⟩).2.addToken .name
      ⟨.name, "b", .empty 2⟩ ⟨1⟩).1 = .ok false := by cbv
  have hdepth : (((nested.pushToken ⟨.name, "a", .empty 0⟩).2.pushToken ⟨.name, "c", .empty 1⟩).2.addToken .name
      ⟨.name, "b", .empty 2⟩ ⟨1⟩).2.depth = 1 := by cbv
  obtain ⟨outcome, hacts, -, hfail, hagree⟩ :=
    addToken_refines_turns (.ofTable .nested Table.ofTable_nested) hreach hstack .name ⟨.name, "b", .empty 2⟩ ⟨1⟩
  cases outcome with
  | none =>
    obtain ⟨error, next, hadd⟩ := hfail.1 rfl
    rw [hadd] at hanswer
    cases hanswer
  | some result =>
    have hadd := hagree result.1 result.2 rfl
    rw [hadd] at hanswer hdepth
    obtain ⟨complete, next⟩ := result
    cases hanswer
    exact ⟨next, hacts, hdepth⟩

end Parser

end Pushdown
