import Pushdown.Json.Escape

/-!
Data in JSON form. Numbers and strings are kept as they are written, so that a reader can tell `1` from `1.0`
and text that nobody asks for is never decoded.

Every function that takes data out of a value gives `none` for a value of another shape.
-/

namespace Pushdown

/-- A JSON value. -/
inductive Json where
  | null
  | bool (value : Bool)
  /-- A number, as written. -/
  | number (written : String)
  /-- A string, as written between its quotes. -/
  | string (written : String)
  | array (items : List Json)
  /-- An object: keys, as written between their quotes, with their values. -/
  | object (fields : List (String × Json))
deriving BEq, Repr

namespace Json

/-- A number without fraction, exponent or sign. -/
def ofNat (n : Nat) : Json := number (toString n)

/-- The number that decimal digits stand for. -/
def digitsValue (digits : List Char) : Nat := digits.foldl (fun n c => 10 * n + (c.toNat - 48)) 0

/-- The number below `bound` that is written as digits only. -/
def digits? (bound : Nat) (written : String) : Option Nat :=
  let digits := written.toList
  if digits.all Char.isDigit && digitsValue digits < bound then some (digitsValue digits) else none

/-- A number below `bound` without sign, fraction or exponent. -/
def natural? (bound : Nat) : Json → Option Nat
  | number written => digits? bound written
  | _ => none

def uint16? (value : Json) : Option UInt16 := (value.natural? 65536).map Nat.toUInt16

def uint32? (value : Json) : Option UInt32 := (value.natural? 4294967296).map Nat.toUInt32

/-- The text of a string as written. -/
def decodeText (written : String) : Option String := (decode written.toList).map String.ofList

def text? : Json → Option String
  | string written => decodeText written
  | _ => none

def bool? : Json → Option Bool
  | bool value => some value
  | _ => none

def items? : Json → Option (List Json)
  | array items => some items
  | _ => none

/-- The values of an array, each taken out by `item?`. -/
def listOf? {α : Type} (item? : Json → Option α) (value : Json) : Option (List α) := do
  (← value.items?).mapM item?

/-- The fields of an object, with the texts of their keys. -/
def fields? : Json → Option (List (String × Json))
  | object fields => fields.mapM fun (key, value) => (decodeText key).map (·, value)
  | _ => none

/-- The only value of the key. There may be none, but not two. -/
def single? (fields : List (String × Json)) (key : String) : Option (Option Json) :=
  match fields.filter (·.1 = key) with
  | [] => some none
  | [(_, value)] => some (some value)
  | _ => none

/--
A record with the given field names: for each name its value, if there is one. An object may hold further
fields. An array gives the values in the order of the names and may leave out the last ones.
-/
def record? (names : List String) : Json → Option (List (Option Json))
  | array items =>
    if items.length ≤ names.length then
      some (items.map some ++ List.replicate (names.length - items.length) none)
    else none
  | object fields => do
    let fields ← (object fields).fields?
    names.mapM (single? fields)
  | _ => none

end Json

end Pushdown
