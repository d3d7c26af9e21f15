import Mathlib.Data.List.Induction
import Mathlib.Data.Prod.Lex
import Pushdown.Proofs.Lexer.Scanned
import Pushdown.Text.Position

/-!
Places in a source. The place at an offset between two characters says in which line the offset lies and how many
characters of the line are before it, so the offset can be found again.
-/

namespace Pushdown.Text

open Lexer (byteLength byteLength_append byteLength_cons byteLength_eq_utf8ByteSize byteLength_toList)

/-- The lines of a source, without the line feeds between them. -/
def lines (source : String) : List (List Char) := source.toList.splitOn '\n'

/-- The size of lines in bytes, each with the line feed behind it. -/
def byteLengthOfLines (lines : List (List Char)) : Nat := total (fun line => byteLength (line ++ ['\n'])) lines

theorem byteLengthOfLines_cons (line : List Char) (lines : List (List Char)) :
    byteLengthOfLines (line :: lines) = byteLength line + 1 + byteLengthOfLines lines := by
  rw [byteLengthOfLines, total_cons, byteLength_append]
  rfl

namespace Position

/-- The line exists and has so many characters, and those before the place take up `offset` bytes. -/
structure Locates (source : String) (position : Position) (offset : Nat) : Prop where
  line_pos : 1 ≤ position.line
  column_pos : 1 ≤ position.column
  exists_line : ∃ line, (lines source)[position.line - 1]? = some line ∧ position.column - 1 ≤ line.length ∧
    offset = byteLengthOfLines ((lines source).take (position.line - 1)) + byteLength (line.take (position.column - 1))

/-- A place by its line first, and then by its column. -/
def key (position : Position) : ℕ ×ₗ ℕ := toLex (position.line, position.column)

section Advance

variable {position : Position}

theorem advance?_append (position : Position) (before behind : List Char) :
    position.advance? (byteLength before) (before ++ behind) = some (before.foldl after position) := by
  induction before generalizing position with
  | nil => cases behind <;> rfl
  | cons c cs ih =>
    -- The character fits into what is left of the way, since `cs` has still to be passed.
    have hpos := c.utf8Size_pos
    rw [byteLength_cons, List.cons_append, advance?, if_neg (by omega), if_pos (by omega), Nat.add_sub_cancel_left, ih,
      List.foldl_cons]

/-- The line counts the line feeds before the place, and the column the characters behind the last of them. -/
theorem foldl_after_first (before : List Char) :
    before.foldl after first = ⟨before.count '\n' + 1, (before.reverse.takeWhile (· ≠ '\n')).length + 1⟩ := by
  induction before using List.reverseRecOn with
  | nil => rfl
  | append_singleton cs c ih =>
    rw [List.foldl_append, ih, List.foldl_cons, List.foldl_nil, after]
    by_cases hc : c = '\n'
    · simp [hc]
    · simp [hc]

theorem key_lt_key_after (position : Position) (c : Char) : position.key < (position.after c).key := by
  rw [key, key, Prod.Lex.toLex_lt_toLex, after]
  split
  · exact .inl (Nat.lt_succ_self _)
  · exact .inr ⟨rfl, Nat.lt_succ_self _⟩

/-- Every character leads to a later place. -/
theorem key_lt_key_foldl_after (position : Position) {text : List Char} (h : text ≠ []) :
    position.key < (text.foldl after position).key := by
  induction text generalizing position with
  | nil => exact absurd rfl h
  | cons c cs ih =>
    have hfirst := position.key_lt_key_after c
    rw [List.foldl_cons]
    cases cs with
    | nil => exact hfirst
    | cons d ds => exact hfirst.trans (ih (position.after c) (List.cons_ne_nil d ds))

end Advance

section Lines

theorem splitOn_lineFeed_cons (c : Char) (text : List Char) :
    (c :: text).splitOn '\n' =
      if c = '\n' then [] :: text.splitOn '\n' else (text.splitOn '\n').modifyHead (c :: ·) := by
  rw [List.splitOn, List.splitOnP_cons_eq_if_modifyHead]
  simp only [beq_iff_eq]
  rfl

theorem exists_splitOn_lineFeed (text : List Char) : ∃ line rest, text.splitOn '\n' = line :: rest :=
  List.exists_cons_of_ne_nil (List.splitOnP_ne_nil _ text)

/--
Line `l` of the text has `c` characters before the place that is reached behind `before`. Columns of the first line are
counted on from where the text starts.
-/
theorem exists_line_of_append (position : Position) (before behind : List Char) :
    ∃ l c line, before.foldl after position =
        (if l = 0 then ⟨position.line, position.column + c⟩ else ⟨position.line + l, c + 1⟩) ∧
      ((before ++ behind).splitOn '\n')[l]? = some line ∧ c ≤ line.length ∧
      byteLength before =
        byteLengthOfLines (((before ++ behind).splitOn '\n').take l) + byteLength (line.take c) := by
  induction before generalizing position with
  | nil =>
    obtain ⟨line, rest, hlines⟩ := exists_splitOn_lineFeed behind
    refine ⟨0, 0, line, rfl, ?_, Nat.zero_le _, rfl⟩
    rw [List.nil_append, hlines, List.getElem?_cons_zero]
  | cons x xs ih =>
    obtain ⟨l, c, line, hfold, hline, hc, hbytes⟩ := ih (position.after x)
    rw [List.foldl_cons, List.cons_append, splitOn_lineFeed_cons, byteLength_cons, hbytes, hfold]
    by_cases hx : x = '\n'
    · -- A line ends, so all others move on by one.
      subst hx
      refine ⟨l + 1, c, line, ?_, ?_, hc, ?_⟩
      · simp only [after, if_true, Nat.succ_ne_zero, if_false]
        split
        · subst l
          simp [Nat.add_comm]
        · simp only [mk.injEq, and_true]
          omega
      · rwa [if_pos rfl, List.getElem?_cons_succ]
      · have hsize : '\n'.utf8Size = 1 := by decide
        have hempty : byteLength [] = 0 := rfl
        rw [if_pos rfl, List.take_succ_cons, byteLengthOfLines_cons]
        omega
    · obtain ⟨first, rest, hlines⟩ := exists_splitOn_lineFeed (xs ++ behind)
      rw [hlines] at hline hbytes ⊢
      rw [if_neg hx, List.modifyHead_cons]
      have hafter : position.after x = ⟨position.line, position.column + 1⟩ := if_neg hx
      rw [hafter]
      cases l with
      | zero =>
        -- The character belongs to the same line.
        obtain rfl := Option.some.inj hline
        refine ⟨0, c + 1, x :: first, ?_, rfl, Nat.succ_le_succ hc, ?_⟩
        · simp only [if_true, mk.injEq, true_and]
          omega
        · rw [List.take_zero, List.take_zero, List.take_succ_cons, byteLength_cons]
          exact Nat.add_left_comm _ _ _
      | succ l =>
        -- It belongs to the first line, which is counted as a whole.
        refine ⟨l + 1, c, line, rfl, hline, hc, ?_⟩
        rw [List.take_succ_cons, List.take_succ_cons, byteLengthOfLines_cons, byteLengthOfLines_cons, byteLength_cons]
        omega

end Lines

section Offset

variable {source : String} {before behind : List Char}

theorem isValid_of_toList (h : source.toList = before ++ behind) :
    String.Pos.Raw.IsValid source ⟨byteLength before⟩ := by
  refine String.Pos.Raw.isValid_iff_exists_append.2 ⟨String.ofList before, String.ofList behind, ?_, ?_⟩
  · rw [← String.ofList_append, ← h, String.ofList_toList]
  · rw [byteLength_eq_utf8ByteSize]
    rfl

theorem exists_toList_of_isValid {offset : Nat} (h : String.Pos.Raw.IsValid source ⟨offset⟩) :
    ∃ before behind, source.toList = before ++ behind ∧ byteLength before = offset := by
  obtain ⟨a, b, rfl, hoffset⟩ := String.Pos.Raw.isValid_iff_exists_append.1 h
  refine ⟨a.toList, b.toList, String.toList_append, ?_⟩
  rw [byteLength_toList]
  exact (congrArg String.Pos.Raw.byteIdx hoffset).symm

theorem advance?_of_toList (h : source.toList = before ++ behind) :
    first.advance? (byteLength before) source.toList = some (before.foldl after first) := by
  rw [h, advance?_append]

theorem ofOffset_of_toList (h : source.toList = before ++ behind) :
    ofOffset source (byteLength before) = before.foldl after first := by
  rw [ofOffset, advance?_of_toList h, Option.getD_some]

/-- Between two characters, the fallback to the end of the source is not needed. -/
theorem advance?_of_isValid {offset : Nat} (h : String.Pos.Raw.IsValid source ⟨offset⟩) :
    first.advance? offset source.toList = some (ofOffset source offset) := by
  obtain ⟨before, behind, hsource, rfl⟩ := exists_toList_of_isValid h
  rw [ofOffset_of_toList hsource, advance?_of_toList hsource]

theorem locates_ofOffset {offset : Nat} (h : String.Pos.Raw.IsValid source ⟨offset⟩) :
    (ofOffset source offset).Locates source offset := by
  obtain ⟨before, behind, hsource, rfl⟩ := exists_toList_of_isValid h
  obtain ⟨l, c, line, hfold, hline, hc, hbytes⟩ := exists_line_of_append first before behind
  rw [← hsource] at hline hbytes
  -- From the beginning of a source, columns are counted from 1 in the first line as well.
  have hposition : ofOffset source (byteLength before) = ⟨l + 1, c + 1⟩ := by
    rw [ofOffset_of_toList hsource, hfold]
    split
    · subst l
      simp [first, Nat.add_comm]
    · simp [first, Nat.add_comm]
  rw [hposition]
  exact ⟨Nat.succ_pos l, Nat.succ_pos c, line, hline, hc, hbytes⟩

theorem key_ofOffset_lt {offset offset' : Nat} (h : String.Pos.Raw.IsValid source ⟨offset⟩)
    (h' : String.Pos.Raw.IsValid source ⟨offset'⟩) (hlt : offset < offset') :
    (ofOffset source offset).key < (ofOffset source offset').key := by
  obtain ⟨before, behind, hsource, rfl⟩ := exists_toList_of_isValid h
  obtain ⟨before', behind', hsource', rfl⟩ := exists_toList_of_isValid h'
  rw [ofOffset_of_toList hsource, ofOffset_of_toList hsource']
  -- Both are beginnings of the source, so the shorter one begins the longer one.
  rcases List.append_eq_append_iff.1 (hsource.symm.trans hsource') with ⟨more, rfl, -⟩ | ⟨more, rfl, -⟩
  · have hmore : more ≠ [] := by
      rintro rfl
      rw [List.append_nil] at hlt
      exact Nat.lt_irrefl _ hlt
    rw [List.foldl_append]
    exact key_lt_key_foldl_after _ hmore
  · rw [byteLength_append] at hlt
    omega

end Offset

end Position

end Pushdown.Text
