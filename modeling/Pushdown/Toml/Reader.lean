import Pushdown.Toml.Basic
import Pushdown.Toml.Lexeme
import Pushdown.Toml.Scalar

/-!
Reading TOML documents. The lexemes drive a machine that keeps the document so far, a stack of the values that are
still open, and what may come next. Keys are added as soon as their values are complete, so a key that is given
twice is refused where it stands.
-/

namespace Pushdown.Toml

/-- A value that is still open. -/
inductive Open where
  /-- The value of a key of the current table. Paths are in reverse order. -/
  | pair (path : List String)
  /-- An array, with its items so far in reverse order. -/
  | array (items : List Toml)
  /-- A table between braces that waits for the value of a key. -/
  | field (fields : Fields) (path : List String)
deriving Repr

/-- Where a key stands. -/
inductive KeyPlace where
  | pair
  | header
  | arrayHeader
  | inline (fields : Fields)
deriving Repr

/-- What may come next. -/
inductive Mode where
  /-- Anything that can begin a line. -/
  | line
  | lineEnd
  /-- The rest of a header after its first bracket. -/
  | header
  /-- The second closing bracket of a header. -/
  | headerEnd (path : List String)
  /-- A part of a key. -/
  | key (place : KeyPlace) (path : List String)
  /-- A dot and a further part, or the end of the key. -/
  | keyEnd (place : KeyPlace) (path : List String)
  /-- The equals sign of a key between braces, on a later line than the key. -/
  | equals (fields : Fields) (path : List String)
  | value
  | itemOrEnd
  | itemEnd
  | fieldOrEnd (fields : Fields)
  | fieldEnd (fields : Fields)
  /-- More of a plain value. The blanks after it are part of it if more follows. -/
  | scalar (written blanks : String)
deriving Repr

/-- A document that is being read. -/
structure Reading where
  root : Fields
  /-- The path of the table that lines add to. -/
  current : List String
  /-- The open values, innermost first. -/
  stack : List Open
  mode : Mode
deriving Repr

namespace Reading

/-- Before the first lexeme. -/
def start : Reading := ⟨[], [], [], .line⟩

/-- Values may be nested this deep, and keys may have this many parts. -/
def maxDepth : Nat := 80

/-- Puts a value below the path, which is in reverse order, of a table. -/
def define (path : List String) (value : Toml) (fields : Fields) : Option Fields :=
  match path with
  | [] => none
  | key :: outer => Fields.changeAt true (Fields.add key value) outer.reverse fields

/-- Hands a complete value to what it belongs to. -/
def complete (reading : Reading) (value : Toml) : Option Reading :=
  match reading.stack with
  | [] => none
  | .pair path :: stack => do
    let root ← Fields.changeAt false (define path value) reading.current reading.root
    return { reading with root, stack, mode := .lineEnd }
  | .array items :: stack => some { reading with stack := .array (value :: items) :: stack, mode := .itemEnd }
  | .field fields path :: stack => do
    return { reading with stack, mode := .fieldEnd (← define path value fields) }

/-- Completes a plain value. -/
def completeScalar (reading : Reading) (written : String) : Option Reading :=
  if written = "true" then reading.complete (.bool true)
  else if written = "false" then reading.complete (.bool false)
  else if isScalar written.toList then reading.complete (.scalar written)
  else none

/-- Takes a lexeme where a value has to start. -/
def beginValue (reading : Reading) : Lexeme → Option Reading
  | .line text => reading.complete (.string text)
  | .lines text => reading.complete (.string text)
  | .atom written => some { reading with mode := .scalar written "" }
  | .openBracket =>
    if reading.stack.length ≤ maxDepth then
      some { reading with stack := .array [] :: reading.stack, mode := .itemOrEnd }
    else none
  | .openBrace => if reading.stack.length ≤ maxDepth then some { reading with mode := .fieldOrEnd [] } else none
  | _ => none

/-- The characters of keys without quotes. -/
def isBareKeyChar (c : Char) : Bool := c.isAlphanum || c = '-' || c = '_'

/-- The part of a key that a lexeme is. -/
def keyPart? : Lexeme → Option String
  | .line text => some text
  | .atom written => if written.toList.all isBareKeyChar then some written else none
  | _ => none

/-- Takes a lexeme where a part of a key has to come. -/
def addKeyPart (reading : Reading) (place : KeyPlace) (path : List String) (lexeme : Lexeme) :
    Option Reading := do
  if maxDepth ≤ path.length then none
  return { reading with mode := .keyEnd place ((← keyPart? lexeme) :: path) }

/-- Makes the table of a header the current one. -/
def openHeader (reading : Reading) (path : List String) (change : String → Fields → Option Fields) :
    Option Reading := do
  match path with
  | [] => none
  | key :: outer =>
    let root ← Fields.changeAt false (change key) outer.reverse reading.root
    return { reading with root, current := path.reverse, mode := .lineEnd }

/-- Waits for the value of a key between braces. -/
def beginField (reading : Reading) (fields : Fields) (path : List String) : Reading :=
  { reading with stack := .field fields path :: reading.stack, mode := .value }

/-- Whether the next value belongs to a key between braces. -/
def inField (reading : Reading) : Bool :=
  match reading.stack with
  | .field _ _ :: _ => true
  | _ => false

/-- Takes a lexeme after a key. -/
def endKey (reading : Reading) (path : List String) : KeyPlace → Lexeme → Option Reading
  | .pair, .equals => some { reading with stack := [.pair path], mode := .value }
  | .inline fields, .equals => some (reading.beginField fields path)
  | .inline fields, .newline => some { reading with mode := .equals fields path }
  | .header, .closeBracket => reading.openHeader path Fields.openTable
  | .arrayHeader, .closeBracket => some { reading with mode := .headerEnd path }
  | place, .dot => some { reading with mode := .key place path }
  | place, .blank _ => some { reading with mode := .keyEnd place path }
  | _, _ => none

/-- Closes the innermost array. -/
def endArray (reading : Reading) : Option Reading :=
  match reading.stack with
  | .array items :: stack => { reading with stack }.complete (.array false items.reverse)
  | _ => none

/-- Takes a lexeme that does not continue a plain value. -/
def stepPlain (reading : Reading) (lexeme : Lexeme) : Option Reading :=
  match reading.mode, lexeme with
  | .line, .blank _ => some reading
  | .line, .newline => some reading
  | .line, .openBracket => some { reading with mode := .header }
  | .line, lexeme => reading.addKeyPart .pair [] lexeme
  | .lineEnd, .blank _ => some reading
  | .lineEnd, .newline => some { reading with mode := .line }
  | .header, .blank _ => some { reading with mode := .key .header [] }
  | .header, .openBracket => some { reading with mode := .key .arrayHeader [] }
  | .header, lexeme => reading.addKeyPart .header [] lexeme
  | .headerEnd path, .closeBracket => reading.openHeader path Fields.openElement
  | .key _ _, .blank _ => some reading
  | .key place path, lexeme => reading.addKeyPart place path lexeme
  | .keyEnd place path, lexeme => reading.endKey path place lexeme
  | .equals _ _, .blank _ => some reading
  | .equals _ _, .newline => some reading
  | .equals fields path, .equals => some (reading.beginField fields path)
  | .value, .blank _ => some reading
  -- Line ends count for nothing between braces, but elsewhere a value begins on the line of its key.
  | .value, .newline => if reading.inField then some reading else none
  | .value, lexeme => reading.beginValue lexeme
  | .itemOrEnd, .blank _ => some reading
  | .itemOrEnd, .newline => some reading
  | .itemOrEnd, .closeBracket => reading.endArray
  | .itemOrEnd, lexeme => reading.beginValue lexeme
  | .itemEnd, .blank _ => some reading
  | .itemEnd, .newline => some reading
  | .itemEnd, .comma => some { reading with mode := .itemOrEnd }
  | .itemEnd, .closeBracket => reading.endArray
  | .fieldOrEnd _, .blank _ => some reading
  | .fieldOrEnd _, .newline => some reading
  | .fieldOrEnd fields, .closeBrace => reading.complete (.table .inline fields)
  | .fieldOrEnd fields, lexeme => reading.addKeyPart (.inline fields) [] lexeme
  | .fieldEnd _, .blank _ => some reading
  | .fieldEnd _, .newline => some reading
  | .fieldEnd fields, .comma => some { reading with mode := .fieldOrEnd fields }
  | .fieldEnd fields, .closeBrace => reading.complete (.table .inline fields)
  | _, _ => none

/-- Takes one lexeme. -/
def step (reading : Reading) (lexeme : Lexeme) : Option Reading :=
  match reading.mode, lexeme with
  | .scalar written blanks, .blank c => some { reading with mode := .scalar written (blanks.push c) }
  | .scalar written blanks, .dot => some { reading with mode := .scalar (written ++ blanks ++ ".") "" }
  | .scalar written blanks, .atom more => some { reading with mode := .scalar (written ++ blanks ++ more) "" }
  | .scalar written _, lexeme => do (← reading.completeScalar written).stepPlain lexeme
  | _, lexeme => reading.stepPlain lexeme

/-- The document, if it may end here. -/
def result? (reading : Reading) : Option Fields := do
  let reading ← match reading.mode with
    | .scalar written _ => reading.completeScalar written
    | _ => some reading
  match reading.mode with
  | .line => some reading.root
  | .lineEnd => some reading.root
  | _ => none

end Reading

/-- The text without a byte order mark at its start. -/
def dropMark : List Char → List Char
  | '\ufeff' :: rest => rest
  | text => text

/-- Reads a document. -/
def read? (text : String) : Option Fields := do
  let lexemes ← lexemes? [] (dropMark text.toList)
  let reading ← lexemes.foldlM Reading.step Reading.start
  reading.result?

end Pushdown.Toml
