import Pushdown.Text.Pattern
import Pushdown.Json.Basic

/-!
Reading JSON. A text is cut into lexemes, and the lexemes drive a machine with a stack of the containers that
are still open. Both are loops, so nesting may be as deep as the text is long.
-/

namespace Pushdown.Json

/-- A smallest part of a JSON text. -/
inductive Lexeme where
  | openArray
  | closeArray
  | openObject
  | closeObject
  | comma
  | colon
  | null
  | bool (value : Bool)
  | number (written : String)
  | string (written : String)
deriving DecidableEq, Repr

/-- The blanks that may stand between lexemes. -/
def isBlank (c : Char) : Bool := c = ' ' || c = '\t' || c = '\n' || c = '\r'

/-- The characters that numbers are made of. -/
def isNumberChar (c : Char) : Bool := c.isDigit || c = '-' || c = '+' || c = '.' || c = 'e' || c = 'E'

open Pattern in
/-- A whole number without superfluous zeros. -/
def naturalPattern : Pattern :=
  .alt (one '0') (.seq (.char fun c => c.isDigit && c ≠ '0') (.star (.char Char.isDigit)))

open Pattern in
/-- A number with optional sign, fraction and exponent. -/
def numberPattern : Pattern :=
  let digits : Pattern := plus (.char Char.isDigit)
  .seq (optional (one '-')) (.seq naturalPattern (.seq
    (optional (.seq (one '.') digits))
    (optional (.seq (.char fun c => c = 'e' || c = 'E')
      (.seq (optional (.char fun c => c = '+' || c = '-')) digits)))))

/--
The characters of a string up to its closing quote, as written, and the text after the quote. Control
characters have to be escaped, and only the escapes of JSON may be used.
-/
def stringBody? : List Char → Option (List Char × List Char)
  | '"' :: rest => some ([], rest)
  | '\\' :: 'u' :: a :: b :: c :: d :: rest =>
    if (Text.hexNumber? [a, b, c, d]).isSome then
      (stringBody? rest).map fun (body, rest) => ('\\' :: 'u' :: a :: b :: c :: d :: body, rest)
    else none
  | '\\' :: c :: rest =>
    if (escaped? c).isSome then (stringBody? rest).map fun (body, rest) => ('\\' :: c :: body, rest)
    else none
  | c :: rest =>
    if c < ' ' || c = '\\' then none
    else (stringBody? rest).map fun (body, rest) => (c :: body, rest)
  | [] => none

/-- A string takes at least its closing quote. -/
theorem length_lt_of_stringBody? {text body rest : List Char} (h : stringBody? text = some (body, rest)) :
    rest.length < text.length := by
  fun_induction stringBody? text generalizing body <;>
    simp_all only [Option.map_eq_some_iff, Prod.mk.injEq, List.length_cons, Option.some.injEq, reduceCtorEq]
  · omega
  all_goals
    obtain ⟨⟨_, _⟩, h, _, rfl⟩ := h
    rename_i ih
    have := ih h
    omega

/-- Cuts a text into its lexemes, after those in `found`, which are in reverse order. -/
def lexemes? (found : List Lexeme) : List Char → Option (List Lexeme)
  | [] => some found.reverse
  | 'n' :: 'u' :: 'l' :: 'l' :: rest => lexemes? (.null :: found) rest
  | 't' :: 'r' :: 'u' :: 'e' :: rest => lexemes? (.bool true :: found) rest
  | 'f' :: 'a' :: 'l' :: 's' :: 'e' :: rest => lexemes? (.bool false :: found) rest
  | c :: cs =>
    if isBlank c then lexemes? found cs
    else if c = '[' then lexemes? (.openArray :: found) cs
    else if c = ']' then lexemes? (.closeArray :: found) cs
    else if c = '\x7b' then lexemes? (.openObject :: found) cs
    else if c = '\x7d' then lexemes? (.closeObject :: found) cs
    else if c = ',' then lexemes? (.comma :: found) cs
    else if c = ':' then lexemes? (.colon :: found) cs
    else if c = '"' then
      match _h : stringBody? cs with
      | none => none
      | some (body, rest) => lexemes? (.string (String.ofList body) :: found) rest
    else
      let written := c :: cs.takeWhile isNumberChar
      if numberPattern.accepts written then
        lexemes? (.number (String.ofList written) :: found) (cs.dropWhile isNumberChar)
      else none
termination_by text => text.length
decreasing_by
  all_goals simp only [List.length_cons]
  all_goals try omega
  · have := length_lt_of_stringBody? _h
    omega
  · have := (List.dropWhile_suffix (p := isNumberChar) (l := cs)).length_le
    omega

/-- A container that is still open, with the values read so far in reverse order. -/
inductive Open where
  | array (items : List Json)
  /-- An object that waits for the value of `key`. -/
  | object (fields : List (String × Json)) (key : String)
deriving Repr

/-- What may come next. -/
inductive Expecting where
  | value
  | itemOrEnd
  | keyOrEnd
  | key (fields : List (String × Json))
  | colon (fields : List (String × Json)) (key : String)
  /-- A value is complete; what follows belongs to its container. -/
  | more (value : Json)
deriving Repr

/-- The containers that are open, innermost first, and what may come next. -/
structure Reading where
  stack : List Open
  expecting : Expecting
deriving Repr

namespace Reading

/-- Before the first lexeme. -/
def start : Reading := ⟨[], .value⟩

/-- Takes a lexeme where a value has to start. -/
def beginValue (stack : List Open) : Lexeme → Option Reading
  | .null => some ⟨stack, .more .null⟩
  | .bool value => some ⟨stack, .more (.bool value)⟩
  | .number written => some ⟨stack, .more (.number written)⟩
  | .string written => some ⟨stack, .more (.string written)⟩
  | .openArray => some ⟨.array [] :: stack, .itemOrEnd⟩
  | .openObject => some ⟨stack, .keyOrEnd⟩
  | _ => none

/-- Takes one lexeme. -/
def step : Reading → Lexeme → Option Reading
  | ⟨stack, .value⟩, lexeme => beginValue stack lexeme
  | ⟨.array items :: stack, .itemOrEnd⟩, .closeArray => some ⟨stack, .more (.array items.reverse)⟩
  | ⟨stack, .itemOrEnd⟩, lexeme => beginValue stack lexeme
  | ⟨stack, .keyOrEnd⟩, .closeObject => some ⟨stack, .more (.object [])⟩
  | ⟨stack, .keyOrEnd⟩, .string key => some ⟨stack, .colon [] key⟩
  | ⟨stack, .key fields⟩, .string key => some ⟨stack, .colon fields key⟩
  | ⟨stack, .colon fields key⟩, .colon => some ⟨.object fields key :: stack, .value⟩
  | ⟨.array items :: stack, .more value⟩, .comma => some ⟨.array (value :: items) :: stack, .value⟩
  | ⟨.array items :: stack, .more value⟩, .closeArray =>
    some ⟨stack, .more (.array (value :: items).reverse)⟩
  | ⟨.object fields key :: stack, .more value⟩, .comma => some ⟨stack, .key ((key, value) :: fields)⟩
  | ⟨.object fields key :: stack, .more value⟩, .closeObject =>
    some ⟨stack, .more (.object ((key, value) :: fields).reverse)⟩
  | _, _ => none

/-- The value that was read, once no container is open. -/
def result? : Reading → Option Json
  | ⟨[], .more value⟩ => some value
  | _ => none

end Reading

/-- Reads a text that holds one value and nothing else but blanks. -/
def read? (text : String) : Option Json := do
  let lexemes ← lexemes? [] text.toList
  let reading ← lexemes.foldlM Reading.step Reading.start
  reading.result?

end Pushdown.Json
