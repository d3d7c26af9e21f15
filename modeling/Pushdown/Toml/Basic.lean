/-!
Configuration data in TOML form, and how tables grow while a document is read.

A table remembers where it comes from, since that decides what may still be added to it: a table of its own header
is closed to dotted keys, a table between braces is closed for good, and a table that a longer header only
mentions may still get a header of its own.
-/

namespace Pushdown

namespace Toml

/-- Where a table comes from. -/
inductive Origin where
  /-- Its own header, or the document as a whole. -/
  | header
  /-- The header of a table inside it. -/
  | implied
  /-- A dotted key. -/
  | dotted
  /-- Braces. -/
  | inline
deriving DecidableEq, Repr

end Toml

/-- A TOML value. -/
inductive Toml where
  | string (text : String)
  | bool (value : Bool)
  /-- A number, date or time, as written. -/
  | scalar (written : String)
  /-- An array; `ofTables` says that its items come from headers between double brackets. -/
  | array (ofTables : Bool) (items : List Toml)
  | table (origin : Toml.Origin) (fields : List (String × Toml))
deriving Repr

namespace Toml

/-- The entries of a table, in the order in which their keys were first given. -/
abbrev Fields := List (String × Toml)

namespace Fields

/-- Puts a value over the one of the same key, or last. -/
def put (key : String) (value : Toml) : Fields → Fields
  | [] => [(key, value)]
  | entry :: rest => if entry.1 = key then (key, value) :: rest else entry :: put key value rest

/-- Adds a new key. -/
def add (key : String) (value : Toml) (fields : Fields) : Option Fields :=
  if (fields.lookup key).isSome then none else some (fields ++ [(key, value)])

/--
Changes the table that a path of keys leads to. Tables that are missing on the way are created. A header path
enters the last table of an array of tables; a dotted path enters no table that has a header.
-/
def changeAt (dotted : Bool) (change : Fields → Option Fields) : List String → Fields → Option Fields
  | [], fields => change fields
  | key :: path, fields =>
    match fields.lookup key with
    | none => do
      let inner ← changeAt dotted change path []
      return fields.put key (.table (if dotted then .dotted else .implied) inner)
    | some (.table origin inner) => do
      -- Dotted keys stay out of tables with a header, and nothing enters a table between braces.
      if origin = .inline ∨ dotted ∧ origin = .header then none
      let inner ← changeAt dotted change path inner
      return fields.put key (.table origin inner)
    | some (.array true items) => do
      if dotted then none
      match items.getLast? with
      | some (.table origin inner) =>
        let inner ← changeAt dotted change path inner
        return fields.put key (.array true (items.dropLast ++ [.table origin inner]))
      | _ => none
    | some _ => none

/-- Gives a table its own header. It may have one already only in the headers of tables inside it. -/
def openTable (key : String) (fields : Fields) : Option Fields :=
  match fields.lookup key with
  | none => some (fields.put key (.table .header []))
  | some (.table .implied inner) => some (fields.put key (.table .header inner))
  | some _ => none

/-- Adds an empty table to an array of tables, which may be new. -/
def openElement (key : String) (fields : Fields) : Option Fields :=
  match fields.lookup key with
  | none => some (fields.put key (.array true [.table .header []]))
  | some (.array true items) => some (fields.put key (.array true (items ++ [.table .header []])))
  | some _ => none

end Fields

end Toml

end Pushdown
