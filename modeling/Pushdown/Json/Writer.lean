import Pushdown.Json.Basic

/-!
Writing JSON, either without any blanks (`compact`) or with one item per line (`pretty`).
-/

namespace Pushdown.Json

/-- The string value of a text. -/
def ofText (text : String) : Json := .string (String.ofList (encode text.toList))

/-- An object with the texts as its keys. -/
def ofFields (fields : List (String × Json)) : Json :=
  .object (fields.map fun (key, value) => (String.ofList (encode key.toList), value))

/-- Puts a written text between quotes. -/
def quoted (written : String) : String := "\"" ++ written ++ "\""

mutual

/-- The text of a value without blanks. -/
def compact : Json → String
  | null => "null"
  | bool value => if value then "true" else "false"
  | number written => written
  | string written => quoted written
  | array items => "[" ++ ",".intercalate (compactItems items) ++ "]"
  | object fields => "\x7b" ++ ",".intercalate (compactFields fields) ++ "\x7d"

def compactItems : List Json → List String
  | [] => []
  | item :: items => compact item :: compactItems items

def compactFields : List (String × Json) → List String
  | [] => []
  | (key, value) :: fields => (quoted key ++ ":" ++ compact value) :: compactFields fields

end

/-- A line break and two blanks for each level. -/
def newLine (level : Nat) : String := String.ofList ('\n' :: List.replicate (2 * level) ' ')

/-- Puts entries on lines of their own, one level deeper than their brackets. -/
def block (level : Nat) (opening closing : String) (entries : List String) : String :=
  if entries.isEmpty then opening ++ closing
  else opening ++ newLine (level + 1) ++ ("," ++ newLine (level + 1)).intercalate entries ++ newLine level ++
    closing

mutual

/-- The text of a value that starts at a level, with one item per line. -/
def prettyAt (level : Nat) : Json → String
  | null => "null"
  | bool value => if value then "true" else "false"
  | number written => written
  | string written => quoted written
  | array items => block level "[" "]" (prettyItems (level + 1) items)
  | object fields => block level "\x7b" "\x7d" (prettyFields (level + 1) fields)

def prettyItems (level : Nat) : List Json → List String
  | [] => []
  | item :: items => prettyAt level item :: prettyItems level items

def prettyFields (level : Nat) : List (String × Json) → List String
  | [] => []
  | (key, value) :: fields => (quoted key ++ ": " ++ prettyAt level value) :: prettyFields level fields

end

/-- The text of a value with one item per line. -/
def pretty (value : Json) : String := prettyAt 0 value

mutual

/-- The value with the keys of every object in ascending order. -/
def sortKeys : Json → Json
  | null => null
  | bool value => bool value
  | number written => number written
  | string written => string written
  | array items => array (sortItems items)
  | object fields => object ((sortFields fields).mergeSort fun a b => a.1 ≤ b.1)

def sortItems : List Json → List Json
  | [] => []
  | item :: items => sortKeys item :: sortItems items

def sortFields : List (String × Json) → List (String × Json)
  | [] => []
  | (key, value) :: fields => (key, sortKeys value) :: sortFields fields

end

end Pushdown.Json
