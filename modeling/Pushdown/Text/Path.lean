/-!
Paths of files, as texts with slashes between their parts. Nothing is tidied up: a path that is not changed is shown
as it was given.
-/

namespace Pushdown.Text.Path

def isAbsolute (path : String) : Bool := path.toList.head? = some '/'

/-- A path that is relative to a folder. An absolute one stands for itself. -/
def join (folder path : String) : String :=
  if isAbsolute path || folder.isEmpty then path
  else if folder.toList.getLast? = some '/' then folder ++ path
  else folder ++ "/" ++ path

/-- What stands between the slashes of a path. -/
def parts (path : String) : List String := (path.toList.splitOn '/').map String.ofList

/-- The beginning of a path that is no part of it like the others: the root, or a dot for the current folder. -/
def headLength : List Char → Nat
  | '/' :: _ => 1
  | ['.'] => 1
  | '.' :: '/' :: _ => 1
  | _ => 0

/-- Takes the last part off a path, which is in reverse order, with the slash before it. -/
def dropPart (path : List Char) : List Char := (path.dropWhile (· ≠ '/')).drop 1

theorem length_dropPart_lt {path : List Char} (h : path ≠ []) : (dropPart path).length < path.length := by
  have hle := (List.dropWhile_suffix (l := path) (· ≠ '/')).length_le
  rw [dropPart, List.length_drop]
  have hpos := List.length_pos_iff.2 h
  omega

/-- Takes off the end of a path, which is in reverse order, what names no part: slashes and dots. -/
def trim (path : List Char) : List Char :=
  if path = [] then []
  else
    let part := path.takeWhile (· ≠ '/')
    if part = [] ∨ part = ['.'] then trim (dropPart path) else path
termination_by path.length
decreasing_by exact length_dropPart_lt ‹_›

/-- The folder of what a path leads to. There is none for the root and for an empty path. -/
def parent? (path : String) : Option String :=
  let head := path.toList.take (headLength path.toList)
  match trim (path.toList.drop (headLength path.toList)).reverse with
  | [] => if head = ['.'] then some "" else none
  | body => some (String.ofList (head ++ (trim (dropPart body)).reverse))

end Pushdown.Text.Path
