import Pushdown.Tree.Events

/-!
Lexeme trees: what is left of a parse tree when only codes and lexemes are kept. Offsets count the bytes of the
lexemes themselves, one after the other, and not those of the source.
-/

namespace Pushdown

/-- A tree of codes and lexemes. -/
inductive LexemeTree where
  | token (code : UInt16) (text : String)
  | node (code : UInt16) (children : List LexemeTree)
deriving Repr

/-- A token or inner node of a lexeme tree, with its place in the tree. -/
structure Element where
  code : UInt16
  span : Span
  /-- The code of the node around it. The root has none. -/
  parent : Option UInt16
  /-- The position among the children of the node around it. -/
  index : Nat
  /-- The lexeme of a token. -/
  text : Option String
deriving DecidableEq, Repr

namespace LexemeTree

/-- A node that has not been finished, with its children so far in reverse order. -/
structure Unfinished where
  code : UInt16
  children : List LexemeTree
deriving Repr

/-- The nodes that have not been finished, innermost first, and the finished trees outside of them. -/
structure Nesting where
  unfinished : List Unfinished
  finished : List LexemeTree
deriving Repr

namespace Nesting

/-- Puts a tree into the innermost unfinished node. -/
def add (nesting : Nesting) (tree : LexemeTree) : Nesting :=
  match nesting.unfinished with
  | [] => { nesting with finished := tree :: nesting.finished }
  | parent :: outer => { nesting with unfinished := { parent with children := tree :: parent.children } :: outer }

/-- Takes an event. A node can be finished only if one has been started. -/
def step (nesting : Nesting) : Event → Option Nesting
  | .start code => some { nesting with unfinished := ⟨code, []⟩ :: nesting.unfinished }
  | .token code text => some (nesting.add (.token code text))
  | .finish =>
    match nesting.unfinished with
    | [] => none
    -- The finished node is a child of the one around it.
    | top :: outer => some ({ nesting with unfinished := outer }.add (.node top.code top.children.reverse))

end Nesting

/-- The one tree that the events describe, if they are balanced. -/
def ofEvents? (events : List Event) : Option LexemeTree := do
  match ← events.foldlM Nesting.step ⟨[], []⟩ with
  | ⟨[], [tree]⟩ => some tree
  | _ => none

mutual

/-- The lexemes, one after the other. -/
def text : LexemeTree → String
  | token _ text => text
  | node _ children => textAll children

def textAll : List LexemeTree → String
  | [] => ""
  | tree :: trees => tree.text ++ textAll trees

end

/-- The size of the lexemes in bytes. -/
def width (tree : LexemeTree) : Nat := tree.text.utf8ByteSize

mutual

/-- The tree and all below it, each before its children. `offset` is where its first lexeme starts. -/
def elementsAt (offset : Nat) (parent : Option UInt16) (index : Nat) : LexemeTree → List Element
  | token code text => [⟨code, { start := offset, stop := offset + text.utf8ByteSize }, parent, index, some text⟩]
  | node code children =>
    ⟨code, { start := offset, stop := offset + (node code children).width }, parent, index, none⟩ ::
      elementsOfAll offset code 0 children

def elementsOfAll (offset : Nat) (parent : UInt16) (index : Nat) : List LexemeTree → List Element
  | [] => []
  | tree :: trees =>
    elementsAt offset (some parent) index tree ++ elementsOfAll (offset + tree.width) parent (index + 1) trees

end

/-- The tree and all below it, each before its children. -/
def elements (tree : LexemeTree) : List Element := tree.elementsAt 0 none 0

end LexemeTree

/-- The lexeme tree with the nodes and tokens of a parse tree. -/
def Tree.lexemeTree? (tree : Tree) : Option LexemeTree := LexemeTree.ofEvents? tree.events

end Pushdown
