import Pushdown.Json.Escape

/-!
The lexemes of TOML documents: punctuation, strings, and atoms, which are bare keys or parts of plain values.
-/

namespace Pushdown.Toml

/-- A smallest part of a TOML document. -/
inductive Lexeme where
  | openBracket
  | closeBracket
  | openBrace
  | closeBrace
  | comma
  | equals
  | dot
  /-- A space or a tab. -/
  | blank (c : Char)
  | newline
  /-- A string on one line, which may also be a key. -/
  | line (text : String)
  /-- A string that may have several lines. -/
  | lines (text : String)
  | atom (written : String)
deriving DecidableEq, Repr

/-- The characters of strings and comments: all but controls, tabs excepted. -/
def isTextChar (c : Char) : Bool := c = '\t' || (' ' ≤ c && c ≠ '\x7f')

/-- What a comment is made of: all up to the end of the line. -/
def isCommentChar (c : Char) : Bool := c ≠ '\n' && c ≠ '\r'

/-- The characters of atoms: all but punctuation. Quotes count as punctuation only where an atom could begin. -/
def isAtomChar (c : Char) : Bool :=
  !([' ', '\t', '\r', '\n', '.', '=', ',', '[', ']', '\x7b', '\x7d', '#'].contains c)

/-- The character that a backslash and `c` stand for. -/
def shortEscape? (c : Char) : Option Char :=
  if c = 'b' then some '\x08'
  else if c = 't' then some '\t'
  else if c = 'n' then some '\n'
  else if c = 'f' then some '\x0c'
  else if c = 'r' then some '\r'
  else if c = 'e' then some '\x1b'
  else if c = '"' then some '"'
  else if c = '\\' then some '\\'
  else none

/-- The number of hexadecimal digits that an escape takes. -/
def escapeDigits? (c : Char) : Option Nat :=
  if c = 'x' then some 2 else if c = 'u' then some 4 else if c = 'U' then some 8 else none

/-- The character of a code point. Surrogates and numbers past the last code point have none. -/
def scalar? (code : Nat) : Option Char := if code.isValidChar then some (Char.ofNat code) else none

/-- The character of an escape whose backslash has been read, and the text after it. -/
def escape? : List Char → Option (Char × List Char)
  | [] => none
  | c :: rest =>
    match escapeDigits? c with
    | some count =>
      if (rest.take count).length = count then
        ((Text.hexNumber? (rest.take count)).bind scalar?).map (·, rest.drop count)
      else none
    | none => (shortEscape? c).map (·, rest)

theorem length_lt_of_escape? {text rest : List Char} {c : Char} (h : escape? text = some (c, rest)) :
    rest.length < text.length := by
  cases text with
  | nil => simp [escape?] at h
  | cons head tail =>
    rw [escape?] at h
    split at h
    · split at h
      · simp only [Option.map_eq_some_iff, Prod.mk.injEq] at h
        obtain ⟨_, _, _, rfl⟩ := h
        simp only [List.length_drop, List.length_cons]
        omega
      · simp at h
    · simp only [Option.map_eq_some_iff, Prod.mk.injEq] at h
      obtain ⟨_, _, _, rfl⟩ := h
      simp

/-- The characters of a string up to its closing quote, after those in `found`, and the text after the quote. -/
def lineString? (found : List Char) : List Char → Option (List Char × List Char)
  | [] => none
  | c :: rest =>
    if c = '"' then some (found.reverse, rest)
    else if c = '\\' then
      match _h : escape? rest with
      | some (plain, rest) => lineString? (plain :: found) rest
      | none => none
    else if isTextChar c then lineString? (c :: found) rest
    else none
termination_by text => text.length
decreasing_by
  · have := length_lt_of_escape? _h
    simp only [List.length_cons]
    omega
  · simp

/-- The text after blanks and line ends. -/
def skipBlank : List Char → List Char
  | '\r' :: '\n' :: rest => skipBlank rest
  | c :: rest => if c = ' ' || c = '\t' || c = '\n' then skipBlank rest else c :: rest
  | [] => []

theorem length_skipBlank_le (text : List Char) : (skipBlank text).length ≤ text.length := by
  fun_induction skipBlank text <;> simp_all only [List.length_cons, List.length_nil] <;> omega

/-- Whether a line ends here, blanks aside. -/
def atLineEnd (text : List Char) : Bool :=
  match text.dropWhile fun c => c = ' ' || c = '\t' with
  | '\n' :: _ => true
  | '\r' :: '\n' :: _ => true
  | _ => false

/--
The characters of a string up to three closing quotes, after those in `found`, and the text after the quotes. Two
more quotes may stand before the closing ones. A backslash at the end of a line joins it with the next text.
-/
def linesString? (found : List Char) : List Char → Option (List Char × List Char)
  | '"' :: '"' :: '"' :: '"' :: '"' :: rest => some (('"' :: '"' :: found).reverse, rest)
  | '"' :: '"' :: '"' :: '"' :: rest => some (('"' :: found).reverse, rest)
  | '"' :: '"' :: '"' :: rest => some (found.reverse, rest)
  | '\r' :: '\n' :: rest => linesString? ('\n' :: '\r' :: found) rest
  | '\\' :: rest =>
    if atLineEnd rest then linesString? found (skipBlank rest)
    else match _h : escape? rest with
      | some (plain, rest) => linesString? (plain :: found) rest
      | none => none
  | c :: rest => if isTextChar c || c = '\n' then linesString? (c :: found) rest else none
  | [] => none
termination_by text => text.length
decreasing_by
  · simp only [List.length_cons]
    omega
  · have := length_skipBlank_le rest
    simp only [List.length_cons]
    omega
  · have := length_lt_of_escape? _h
    simp only [List.length_cons]
    omega
  · simp

/-- The characters of a raw string up to its closing quote, after those in `found`, and the text after it. -/
def rawLine? (found : List Char) : List Char → Option (List Char × List Char)
  | [] => none
  | c :: rest =>
    if c = '\'' then some (found.reverse, rest)
    else if isTextChar c then rawLine? (c :: found) rest
    else none

/-- The characters of a raw string up to three closing quotes, as for `linesString?` but without escapes. -/
def rawLines? (found : List Char) : List Char → Option (List Char × List Char)
  | '\'' :: '\'' :: '\'' :: '\'' :: '\'' :: rest => some (('\'' :: '\'' :: found).reverse, rest)
  | '\'' :: '\'' :: '\'' :: '\'' :: rest => some (('\'' :: found).reverse, rest)
  | '\'' :: '\'' :: '\'' :: rest => some (found.reverse, rest)
  | '\r' :: '\n' :: rest => rawLines? ('\n' :: '\r' :: found) rest
  | c :: rest => if isTextChar c || c = '\n' then rawLines? (c :: found) rest else none
  | [] => none

/-- The text after a line end, if it starts with one. -/
def dropNewline : List Char → List Char
  | '\n' :: rest => rest
  | '\r' :: '\n' :: rest => rest
  | text => text

theorem length_dropNewline_le (text : List Char) : (dropNewline text).length ≤ text.length := by
  unfold dropNewline
  split <;> grind

/-- The string whose first quote `quote` has been read, and the text after it. -/
def string? (quote : Char) (text : List Char) : Option (Lexeme × List Char) :=
  match text with
  | a :: b :: rest =>
    if a = quote ∧ b = quote then
      let body := dropNewline rest
      (if quote = '"' then linesString? [] body else rawLines? [] body).map fun (found, rest) =>
        (.lines (String.ofList found), rest)
    else oneLine
  | _ => oneLine
where
  oneLine : Option (Lexeme × List Char) :=
    (if quote = '"' then lineString? [] text else rawLine? [] text).map fun (found, rest) =>
      (.line (String.ofList found), rest)

theorem length_lt_of_lineString? {found text body rest : List Char}
    (h : lineString? found text = some (body, rest)) : rest.length < text.length := by
  fun_induction lineString? found text with
  | case1 => simp at h
  | case2 found rest' =>
    obtain ⟨-, rfl⟩ := Prod.mk.inj (Option.some.inj h)
    simp
  | case3 found rest' plain rest'' hescape hne ih =>
    have := ih h
    have := length_lt_of_escape? hescape
    simp only [List.length_cons]
    omega
  | case4 => simp at h
  | case5 found c rest' _ _ _ ih =>
    have := ih h
    simp only [List.length_cons]
    omega
  | case6 => simp at h

theorem length_lt_of_linesString? {found text body rest : List Char}
    (h : linesString? found text = some (body, rest)) : rest.length < text.length := by
  fun_induction linesString? found text with
  | case1 | case2 | case3 =>
    obtain ⟨-, rfl⟩ := Prod.mk.inj (Option.some.inj h)
    simp only [List.length_cons]
    omega
  | case4 found rest' ih =>
    have := ih h
    simp only [List.length_cons]
    omega
  | case5 found rest' _ ih =>
    have := ih h
    have := length_skipBlank_le rest'
    simp only [List.length_cons]
    omega
  | case6 found rest' _ plain rest'' hescape ih =>
    have := ih h
    have := length_lt_of_escape? hescape
    simp only [List.length_cons]
    omega
  | case7 => simp at h
  | case8 found c rest' _ _ _ _ _ _ ih =>
    have := ih h
    simp only [List.length_cons]
    omega
  | case9 => simp at h
  | case10 => simp at h

theorem length_lt_of_rawLine? {found text body rest : List Char}
    (h : rawLine? found text = some (body, rest)) : rest.length < text.length := by
  induction text generalizing found with
  | nil => simp [rawLine?] at h
  | cons c tail ih =>
    rw [rawLine?] at h
    split at h
    · obtain ⟨-, rfl⟩ := Prod.mk.inj (Option.some.inj h)
      simp
    · split at h
      · have := ih h
        simp only [List.length_cons]
        omega
      · simp at h

theorem length_lt_of_rawLines? {found text body rest : List Char}
    (h : rawLines? found text = some (body, rest)) : rest.length < text.length := by
  fun_induction rawLines? found text with
  | case1 | case2 | case3 =>
    obtain ⟨-, rfl⟩ := Prod.mk.inj (Option.some.inj h)
    simp only [List.length_cons]
    omega
  | case4 found rest' ih =>
    have := ih h
    simp only [List.length_cons]
    omega
  | case5 found c rest' _ _ _ _ _ ih =>
    have := ih h
    simp only [List.length_cons]
    omega
  | case6 => simp at h
  | case7 => simp at h

/-- A string takes at least its closing quote. -/
theorem length_lt_of_string? {quote : Char} {text rest : List Char} {lexeme : Lexeme}
    (h : string? quote text = some (lexeme, rest)) : rest.length < text.length := by
  have oneLine {text rest : List Char} {lexeme : Lexeme}
      (h : string?.oneLine quote text = some (lexeme, rest)) : rest.length < text.length := by
    rw [string?.oneLine, Option.map_eq_some_iff] at h
    obtain ⟨⟨found, rest'⟩, h, heq⟩ := h
    obtain ⟨-, rfl⟩ := Prod.mk.inj heq
    split at h
    · exact length_lt_of_lineString? h
    · exact length_lt_of_rawLine? h
  rw [string?.eq_def] at h
  split at h
  · split at h
    · rename_i a b tail _
      have hle := length_dropNewline_le tail
      simp only [Option.map_eq_some_iff] at h
      obtain ⟨⟨found, rest'⟩, h, heq⟩ := h
      obtain ⟨-, rfl⟩ := Prod.mk.inj heq
      have : rest'.length < (dropNewline tail).length := by
        split at h
        · exact length_lt_of_linesString? h
        · exact length_lt_of_rawLines? h
      simp only [List.length_cons]
      omega
    · exact oneLine h
  · exact oneLine h

/-- The punctuation mark of a character. -/
def mark? (c : Char) : Option Lexeme :=
  if c = '\n' then some .newline
  else if c = ' ' || c = '\t' then some (.blank c)
  else if c = '[' then some .openBracket
  else if c = ']' then some .closeBracket
  else if c = '\x7b' then some .openBrace
  else if c = '\x7d' then some .closeBrace
  else if c = ',' then some .comma
  else if c = '=' then some .equals
  else if c = '.' then some .dot
  else none

/-- Cuts a document into its lexemes, after those in `found`, which are in reverse order. -/
def lexemes? (found : List Lexeme) : List Char → Option (List Lexeme)
  | [] => some found.reverse
  | '\r' :: '\n' :: rest => lexemes? (.newline :: found) rest
  | c :: rest =>
    match mark? c with
    | some lexeme => lexemes? (lexeme :: found) rest
    | none =>
      if c = '#' then
        if (rest.takeWhile isCommentChar).all isTextChar then lexemes? found (rest.dropWhile isCommentChar)
        else none
      else if c = '"' || c = '\'' then
        match _h : string? c rest with
        | some (lexeme, rest) => lexemes? (lexeme :: found) rest
        | none => none
      else if isAtomChar c then
        lexemes? (.atom (String.ofList (c :: rest.takeWhile isAtomChar)) :: found) (rest.dropWhile isAtomChar)
      else none
termination_by text => text.length
decreasing_by
  all_goals simp only [List.length_cons]
  · omega
  · omega
  · have := (List.dropWhile_suffix (l := rest) isCommentChar).length_le
    omega
  · have := length_lt_of_string? _h
    omega
  · have := (List.dropWhile_suffix (l := rest) isAtomChar).length_le
    omega

end Pushdown.Toml
