import Pushdown.Parser.Error

/-!
The pushdown parser. It keeps one frame for each nonterminal that is open, the innermost on top, and takes one
token at a time.

For a token with a given label, the frames are searched from the top for one that can consume the label. Frames
above it must be accepting; they are closed, and their nodes become children of the frames below. Then frames are
opened as long as the label is consumed through a nonterminal, and the token becomes a leaf of the last one.
-/

namespace Pushdown

/-- An open nonterminal. -/
structure Frame where
  automaton : Automaton
  state : UInt32
  /-- The children so far, in reverse order. -/
  children : List Tree
  /-- The state of the frame below once this one is closed. -/
  returnState : UInt32

namespace Frame

def start (automaton : Automaton) (returnState : UInt32) : Frame := ⟨automaton, 0, [], returnState⟩

/-- The node of the nonterminal, with the children so far. -/
def node (frame : Frame) : Tree := .node frame.automaton.symbol frame.children.reverse

def add (frame : Frame) (child : Tree) : Frame := { frame with children := child :: frame.children }

/-- The frame after the one on top of it has been closed. -/
def close (frame top : Frame) : Frame := { frame.add top.node with state := top.returnState }

end Frame

/-- The outcome of a search for a frame. -/
inductive Search where
  /-- So many frames have to be closed until one can consume the label. -/
  | found (closing : Nat)
  /-- No frame can; `accepting` says whether all frames may end. -/
  | stuck (accepting : Bool)
deriving DecidableEq, Repr

/-- A parser over a grammar. -/
structure Parser where
  grammar : Grammar
  /-- The open nonterminals, innermost first. -/
  stack : List Frame
  /-- The tree of the start symbol, once it is complete. -/
  root : Option Tree

namespace Parser

/-- A parser that has not been started. -/
def new (grammar : Grammar) : Parser := ⟨grammar, [], none⟩

/-- Starts a parse of a nonterminal, whatever has been parsed before. -/
def setup (parser : Parser) (start : SymbolId) : Except UndefinedSymbol Parser :=
  match parser.grammar.automaton? start with
  | none => .error ⟨start⟩
  | some automaton => .ok { parser with stack := [.start automaton 0], root := none }

def depth (parser : Parser) : Nat := parser.stack.length

def isDone (parser : Parser) : Bool := parser.root.isSome

/-- The states of frames, if the first is in `current` and every other one has had the one above it closed. -/
def statesFrom (current : UInt32) : List Frame → List State
  | [] => []
  | frame :: below => frame.automaton.state current :: statesFrom frame.returnState below

/-- The state of each frame once all frames above it have been closed, from the top. -/
def reachableStates (stack : List Frame) : List State :=
  match stack with
  | [] => []
  | top :: _ => statesFrom top.state stack

/--
Looks for the first frame that can consume the label, past accepting ones only. The first frame is in `current`,
and every other one has had the one above it closed; `closing` frames have been passed.
-/
def searchFrom (label : Label) (closing : Nat) (current : UInt32) : List Frame → Search
  | [] => .stuck true
  | frame :: below =>
    let state := frame.automaton.state current
    if (state.arcFor? label).isSome then .found closing
    else if state.accepting then searchFrom label (closing + 1) frame.returnState below
    else .stuck false

/-- Looks for the frame that can consume the label. -/
def search (label : Label) (stack : List Frame) : Search :=
  match stack with
  | [] => .stuck true
  | top :: _ => searchFrom label 0 top.state stack

/-- Whether all frames may end. -/
def allAccepting (stack : List Frame) : Bool := (reachableStates stack).all (·.accepting)

/-- The labels that the states can consume, up to the first that is not accepting. -/
def expectedFrom (found : LabelSet) : List State → LabelSet
  | [] => found
  | state :: below =>
    let found := state.expected.foldl LabelSet.insert found
    if state.accepting then expectedFrom found below else found

/-- The labels that the next token may have, ascending. -/
def expected (parser : Parser) : List Label := (expectedFrom .empty (reachableStates parser.stack)).labels

/-- Closes so many frames from the top. The bottom frame stays. -/
def closeFrames : Nat → List Frame → List Frame
  | n + 1, top :: parent :: below => closeFrames n (parent.close top :: below)
  | _, stack => stack

/-- Closes all frames and keeps the tree of the start symbol. -/
def finish (parser : Parser) : Parser :=
  { parser with
    stack := []
    root := (closeFrames (parser.stack.length - 1) parser.stack).head?.map (·.node) }

/-- The error of a token that no frame can consume. -/
def unexpected (parser : Parser) (kind : TokenKind) (token : Token) (accepting : Bool) : ParseError where
  failure := if kind.isEndMarker then .incompleteInput else if accepting then .tooMuchInput else .badInput
  token := token
  expected := parser.expected

/-- The automaton of the nonterminal that an arc leads through, if it does. -/
def opened? (grammar : Grammar) (arc : Arc) : Option Automaton :=
  match grammar.entry? arc.label with
  | some (.symbol id) => grammar.automaton? id
  | _ => none

/--
Opens frames until the label is consumed by an arc of its own, and adds the token there. The error holds the stack
at which no arc was found or `fuel` ran out; neither happens to a frame that a search has found, since frames are
opened for distinct nonterminals only.
-/
def consume (grammar : Grammar) (token : Token) (label : Label) :
    (fuel : Nat) → List Frame → Except (List Frame) (List Frame)
  | 0, stack => .error stack
  | _, [] => .error []
  | fuel + 1, top :: below =>
    match (top.automaton.state top.state).arcFor? label with
    | none => .error (top :: below)
    | some arc =>
      match opened? grammar arc with
      | some automaton => consume grammar token label fuel (.start automaton arc.target :: top :: below)
      | none => .ok ({ top.add (.leaf token) with state := arc.target } :: below)

/--
Takes a token with a given label. The kind decides whether it ends the input. The answer is `true` once the start
symbol is complete. A token that cannot be consumed leaves the parser as it was.
-/
def addToken (parser : Parser) (kind : TokenKind) (token : Token) (label : Label) :
    Except ParseError Bool × Parser :=
  if parser.stack.isEmpty then
    -- Without open nonterminals nothing can be expected.
    (.error ⟨if parser.isDone then .tooMuchInput else .notStarted, token, []⟩, parser)
  else match search label parser.stack with
    | .stuck accepting =>
      if accepting && kind.isEndMarker then (.ok true, parser.finish)
      else (.error (parser.unexpected kind token accepting), parser)
    | .found closing =>
      -- The search has passed accepting frames only, so all of them may be closed.
      let stack := closeFrames closing parser.stack
      match consume parser.grammar token label (parser.grammar.automata.size + 1) stack with
      | .error stack =>
        let parser := { parser with stack }
        (.error (parser.unexpected kind token false), parser)
      | .ok stack =>
        let parser := { parser with stack }
        -- An end marker that is consumed by an arc may complete the start symbol as well.
        if kind.isEndMarker && allAccepting stack then (.ok true, parser.finish) else (.ok false, parser)

/-- Takes a token with the label that the grammar gives it. -/
def pushToken (parser : Parser) (token : Token) : Except ParseError Bool × Parser :=
  match parser.grammar.resolve? token.kind token.text with
  | none => (.error ⟨.unknownToken, token, []⟩, parser)
  | some label => parser.addToken token.kind token label

end Parser

end Pushdown
