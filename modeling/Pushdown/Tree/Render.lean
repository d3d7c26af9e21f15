import Pushdown.Grammar.Basic
import Pushdown.Json.Writer
import Pushdown.Text.Quoted
import Pushdown.Tree.Traversal

/-!
Parse trees as indented text, one line for each node, and in JSON form.
-/

namespace Pushdown

/-- A stretch of the source, for people to read. -/
def Span.describe (span : Span) : String := s!"{span.start}..{span.stop}"

def Span.toJson (span : Span) : Json := .array [.ofNat span.start, .ofNat span.stop]

def Token.toJson (token : Token) : Json :=
  .ofFields [
    ("kind", .ofNat token.kind.code.toNat), ("text", .ofText token.text), ("range", token.span.toJson)]

def NodeKind.toJson : NodeKind → Json
  | token kind => .ofFields [("token", .ofNat kind.code.toNat)]
  | symbol id => .ofFields [("symbol", .ofNat id.code.toNat)]

namespace Tree

/-- The place of a node after its name, if places are shown and there is one. -/
def place (places : Bool) (span : Option Span) : String :=
  match places, span with
  | true, some span => "@" ++ span.describe
  | _, _ => ""

/-- What is shown of a node itself: its name, its place and, for a leaf, its lexeme. -/
def headline (grammar : Grammar) (places : Bool) : Tree → String
  | leaf token =>
    grammar.tokenName token.kind ++ place places (some token.span) ++ " " ++ Text.quoted token.text
  | node symbol children =>
    (grammar.symbolName? symbol).getD "?" ++ place places (node symbol children).span?

/-- The line of a node at a depth. -/
def line (grammar : Grammar) (places : Bool) (depth : Nat) (tree : Tree) : String :=
  String.ofList (List.replicate (2 * depth) ' ') ++ tree.headline grammar places ++ "\n"

/-- All lines of a tree, each node before its children and two blanks further left. -/
def render (grammar : Grammar) (places : Bool) (tree : Tree) : String :=
  String.join (tree.preorder.map fun (depth, tree) => tree.line grammar places depth)

/-- The tree with the places of its nodes. -/
def dump (grammar : Grammar) (tree : Tree) : String := tree.render grammar true

/-- The tree without places. -/
def outline (grammar : Grammar) (tree : Tree) : String := tree.render grammar false

mutual

/-- A leaf shows its token, an inner node its children unless it has none. -/
def toJson : Tree → Json
  | leaf token => .ofFields [("kind", (NodeKind.token token.kind).toJson), ("token", token.toJson)]
  | node symbol children =>
    .ofFields <|
      ("kind", (NodeKind.symbol symbol).toJson) ::
        (if children.isEmpty then [] else [("children", .array (toJsonAll children))])

def toJsonAll : List Tree → List Json
  | [] => []
  | tree :: trees => tree.toJson :: toJsonAll trees

end

end Tree

end Pushdown
