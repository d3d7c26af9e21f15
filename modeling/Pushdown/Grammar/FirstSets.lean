import Pushdown.Grammar.LabelSet
import Pushdown.Table.Defect

/-!
First sets: for each nonterminal the terminal labels that can begin it.

They are found by a walk along the arcs that leave initial states. A nonterminal that is met again while its own
set is still being found is left recursive.

They tell which arc of a state consumes which terminal label, and no two arcs may consume the same one.
-/

namespace Pushdown.Table

/-- The first sets found so far, by position of the nonterminal. -/
abbrev FirstMemo := Array (Option LabelSet)

/-- The arcs that leave the initial state of the nonterminal at position `i`. -/
def initialArcs (table : Table) (i : Nat) : List Arc :=
  match table.symbols[i]? with
  | some symbol => (symbol.states[0]?.map (·.arcs)).getD []
  | none => []

/-- The name of the nonterminal at position `i`. -/
def nameAt (table : Table) (i : Nat) : String := (table.symbols[i]?.map (·.name)).getD ""

/-- The set found for the nonterminal at position `i`. -/
def FirstMemo.get? (memo : FirstMemo) (i : Nat) : Option LabelSet := memo[i]?.join

/--
Adds the first set of the nonterminal at position `i`, and of all that it depends on. `path` holds the
nonterminals whose sets are being found. They are distinct, so a path as long as the table holds every
nonterminal, and at depth 0 the next one must be among them.
-/
def visitFirst (table : Table) (depth : Nat) (path : List Nat) (i : Nat) (memo : FirstMemo) :
    Except Defect FirstMemo :=
  if (memo.get? i).isSome then .ok memo
  else if path.contains i then .error (.leftRecursion (table.nameAt i))
  else match depth with
    | 0 => .error (.leftRecursion (table.nameAt i))
    | depth + 1 => do
      let (memo, first) ← (table.initialArcs i).foldlM
        (fun (memo, first) arc => do
          match table.labels[arc.label.index]? with
          | some (.symbol id) =>
            -- The initial state of a nonterminal is never accepting, so nothing behind it can come first.
            let memo ← visitFirst table depth (i :: path) id.index memo
            return (memo, first.union ((memo.get? id.index).getD .empty))
          | _ => return (memo, first.insert arc.label))
        (memo, LabelSet.empty)
      return memo.setIfInBounds i (some first)

/-- The first sets of all nonterminals, by position. -/
def firstSets (table : Table) : Except Defect (Array LabelSet) := do
  let count := table.symbols.size
  let memo ← (List.range count).foldlM (fun memo i => table.visitFirst count [] i memo)
    (Array.replicate count none)
  return memo.map (·.getD .empty)

/-- The terminal labels that an arc can consume: its own, or those that begin its nonterminal. -/
def consumable (table : Table) (first : Array LabelSet) (arc : Arc) : List Label :=
  match table.labels[arc.label.index]? with
  | some (.symbol id) => (first[id.index]?.map (·.labels)).getD []
  | _ => [arc.label]

/-- Puts a label at its place in an ascending lookup, unless it is there already. -/
def claim? (label : Label) (arc : Arc) : List (Label × Arc) → Option (List (Label × Arc))
  | [] => some [(label, arc)]
  | entry :: rest =>
    if label < entry.1 then some ((label, arc) :: entry :: rest)
    else if label = entry.1 then none
    else (claim? label arc rest).map (entry :: ·)

/-- The lookup of a state with the given arcs, or the first label that two of them consume. -/
def lookupOf (table : Table) (first : Array LabelSet) (arcs : List Arc) :
    Except Label (List (Label × Arc)) :=
  (arcs.flatMap fun arc => (table.consumable first arc).map (·, arc)).foldlM
    (fun lookup (label, arc) =>
      match claim? label arc lookup with
      | some lookup => .ok lookup
      | none => .error label)
    []

end Pushdown.Table
