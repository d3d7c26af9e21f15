import Pushdown.Json.Writer
import Pushdown.Proofs.Json.Digits
import Pushdown.Proofs.Json.Escape

/-!
What is written is read back. A text in the layout of `pretty` or `compact` is cut into the lexemes of its value, and
these lexemes build the value again.
-/

namespace Pushdown.Json

/-- The values that are made of truth values, numbers and texts. -/
inductive Made : Json → Prop where
  | bool (value : Bool) : Made (.bool value)
  | number (n : Nat) : Made (.ofNat n)
  | text (text : String) : Made (.ofText text)
  | array {items : List Json} (h : ∀ item ∈ items, Made item) : Made (.array items)
  | fields {fields : List (String × Json)} (h : ∀ field ∈ fields, Made field.2) : Made (.ofFields fields)

mutual

/-- The lexemes of a value, in whatever layout it is written. -/
def lexemes : Json → List Lexeme
  | null => [.null]
  | bool value => [.bool value]
  | number written => [.number written]
  | string written => [.string written]
  | array items => .openArray :: ([.comma].intercalate (itemLexemes items) ++ [.closeArray])
  | object fields => .openObject :: ([.comma].intercalate (fieldLexemes fields) ++ [.closeObject])

def itemLexemes : List Json → List (List Lexeme)
  | [] => []
  | item :: items => lexemes item :: itemLexemes items

def fieldLexemes : List (String × Json) → List (List Lexeme)
  | [] => []
  | (key, value) :: fields => (.string key :: .colon :: lexemes value) :: fieldLexemes fields

end

theorem itemLexemes_eq_map (items : List Json) : itemLexemes items = items.map lexemes := by
  induction items with
  | nil => rfl
  | cons item items ih => rw [itemLexemes, ih, List.map_cons]

theorem fieldLexemes_eq_map (fields : List (String × Json)) :
    fieldLexemes fields = fields.map fun field => .string field.1 :: .colon :: lexemes field.2 := by
  induction fields with
  | nil => rfl
  | cons field fields ih => rw [fieldLexemes, ih, List.map_cons]

theorem prettyItems_eq_map (level : Nat) (items : List Json) :
    prettyItems level items = items.map (prettyAt level) := by
  induction items with
  | nil => rfl
  | cons item items ih => rw [prettyItems, ih, List.map_cons]

theorem prettyFields_eq_map (level : Nat) (fields : List (String × Json)) :
    prettyFields level fields = fields.map fun field => quoted field.1 ++ ": " ++ prettyAt level field.2 := by
  induction fields with
  | nil => rfl
  | cons field fields ih => rw [prettyFields, ih, List.map_cons]

theorem compactItems_eq_map (items : List Json) : compactItems items = items.map compact := by
  induction items with
  | nil => rfl
  | cons item items ih => rw [compactItems, ih, List.map_cons]

theorem compactFields_eq_map (fields : List (String × Json)) :
    compactFields fields = fields.map fun field => quoted field.1 ++ ":" ++ compact field.2 := by
  induction fields with
  | nil => rfl
  | cons field fields ih => rw [compactFields, ih, List.map_cons]

section Cutting

/-- A number that stands before the text is at its end. -/
def Apart (text : List Char) : Prop := ∀ c ∈ text.head?, isNumberChar c = false

/-- The text is cut into the parts, whatever comes behind it that does not go on with a number. -/
def Cuts (text : List Char) (parts : List Lexeme) : Prop :=
  ∀ found rest, Apart rest → lexemes? found (text ++ rest) = lexemes? (parts.reverse ++ found) rest

/-- The lexemes of one character. -/
def mark? (c : Char) : Option Lexeme :=
  if c = '[' then some .openArray
  else if c = ']' then some .closeArray
  else if c = '\x7b' then some .openObject
  else if c = '\x7d' then some .closeObject
  else if c = ',' then some .comma
  else if c = ':' then some .colon
  else none

variable {text behind : List Char} {parts more : List Lexeme}

theorem apart_nil : Apart [] := by
  intro c hc
  cases hc

theorem apart_cons {c : Char} (h : isNumberChar c = false) (text : List Char) : Apart (c :: text) := by
  intro d hd
  cases hd
  exact h

theorem Apart.append (h : Apart text) (hbehind : Apart behind) : Apart (text ++ behind) := by
  cases text with
  | nil => exact hbehind
  | cons c text => exact h

theorem Apart.takeWhile_dropWhile (h : Apart behind) (htext : ∀ c ∈ text, isNumberChar c = true) :
    (text ++ behind).takeWhile isNumberChar = text ∧ (text ++ behind).dropWhile isNumberChar = behind := by
  rw [List.takeWhile_append_of_pos htext, List.dropWhile_append_of_pos htext]
  cases behind with
  | nil => exact ⟨List.append_nil text, rfl⟩
  | cons c behind =>
    have hc : isNumberChar c = false := h c rfl
    simp [hc]

theorem Cuts.nil : Cuts [] [] := fun _ _ _ => rfl

theorem Cuts.append (h : Cuts text parts) (hmore : Cuts behind more) (hapart : Apart behind) :
    Cuts (text ++ behind) (parts ++ more) := by
  intro found rest hrest
  rw [List.append_assoc, h found (behind ++ rest) (hapart.append hrest), hmore _ rest hrest, List.reverse_append,
    List.append_assoc]

theorem isBlank_cases {c : Char} (h : isBlank c = true) : c = ' ' ∨ c = '\t' ∨ c = '\n' ∨ c = '\r' := by
  simpa [isBlank, or_assoc] using h

theorem Cuts.blank {c : Char} (hblank : isBlank c = true) (h : Cuts text parts) : Cuts (c :: text) parts := by
  intro found rest hrest
  rw [List.cons_append, ← h found rest hrest]
  rcases isBlank_cases hblank with rfl | rfl | rfl | rfl
  all_goals simp [lexemes?, isBlank]

theorem Cuts.blanks {blanks : List Char} (hblanks : ∀ c ∈ blanks, isBlank c = true) (h : Cuts text parts) :
    Cuts (blanks ++ text) parts := by
  induction blanks with
  | nil => exact h
  | cons c blanks ih =>
    obtain ⟨hc, hrest⟩ := List.forall_mem_cons.1 hblanks
    exact .blank hc (ih hrest)

theorem Cuts.mark {c : Char} {lexeme : Lexeme} (hmark : mark? c = some lexeme) (h : Cuts text parts) :
    Cuts (c :: text) (lexeme :: parts) := by
  intro found rest hrest
  have hfound : lexemes? found (c :: (text ++ rest)) = lexemes? (lexeme :: found) (text ++ rest) := by
    unfold mark? at hmark
    -- One case for each mark, after which no character is left.
    iterate 6
      split at hmark
      · rename_i hc
        cases hmark
        subst hc
        simp [lexemes?, isBlank]
    cases hmark
  rw [List.cons_append, hfound, h _ rest hrest, List.reverse_cons, List.append_assoc, List.singleton_append]

theorem cuts_bool (value : Bool) : Cuts (if value then "true" else "false").toList [.bool value] := by
  intro found rest _
  cases value with
  | true => simp [lexemes?]
  | false => simp [lexemes?]

theorem cuts_number (n : Nat) : Cuts (toString n).toList [.number (toString n)] := by
  intro found rest hrest
  have hall : ∀ c ∈ (toString n).toList, c.isDigit = true := fun _ => isDigit_of_mem_toString
  have haccepts := numberPattern_accepts_toString n
  have hwritten : String.ofList (toString n).toList = toString n := String.ofList_toList
  generalize (toString n).toList = digits at hall haccepts hwritten
  cases digits with
  | nil => exact absurd haccepts (by decide)
  | cons c digits =>
    obtain ⟨hc, hdigits⟩ := List.forall_mem_cons.1 hall
    -- The first digit is no other lexeme, and the number ends with its last.
    have hne : ∀ d : Char, d.isDigit = false → c ≠ d := fun _ => ne_of_isDigit hc
    obtain ⟨htake, hdrop⟩ := hrest.takeWhile_dropWhile fun d hd => isNumberChar_of_isDigit (hdigits d hd)
    simp [lexemes?, isBlank, hne, htake, hdrop, haccepts, hwritten]

theorem cuts_string (written : List Char) :
    Cuts ('"' :: (encode written ++ ['"'])) [.string (String.ofList (encode written))] := by
  intro found rest _
  have hbody := stringBody?_encode written rest
  have htext : '"' :: (encode written ++ ['"']) ++ rest = '"' :: (encode written ++ '"' :: rest) := by simp
  rw [htext]
  simp only [lexemes?, isBlank, Char.reduceEq, imp_false, false_implies, implies_true, decide_false, Bool.or_self,
    Bool.false_eq_true, if_false, if_true]
  split
  · rename_i hnone
    cases hnone.symm.trans hbody
  · rename_i hsome
    cases hsome.symm.trans hbody
    rfl

end Cutting

section Layout

theorem blank_newLine (level : Nat) : ∀ c ∈ (newLine level).toList, isBlank c = true := by
  intro c hc
  rw [newLine, String.toList_ofList] at hc
  rcases List.mem_cons.1 hc with rfl | hc
  · rfl
  · obtain rfl := (List.mem_replicate.1 hc).2
    rfl

theorem isNumberChar_of_isBlank {c : Char} (h : isBlank c = true) : isNumberChar c = false := by
  rcases isBlank_cases h with rfl | rfl | rfl | rfl
  all_goals rfl

theorem isNumberChar_of_mark {c : Char} {lexeme : Lexeme} (h : mark? c = some lexeme) : isNumberChar c = false := by
  unfold mark? at h
  iterate 6
    split at h
    · rename_i hc
      rw [hc]
      rfl
  cases h

theorem Apart.blanks {blanks : List Char} (hblanks : ∀ c ∈ blanks, isBlank c = true) (h : Apart text) :
    Apart (blanks ++ text) := by
  cases blanks with
  | nil => exact h
  | cons c blanks => exact apart_cons (isNumberChar_of_isBlank (hblanks c List.mem_cons_self)) _

variable {α : Type} (write : α → String) (cut : α → List Lexeme)

/-- Entries between commas and blanks are cut into their lexemes between commas. -/
theorem cuts_entries {gap : String} (hgap : ∀ c ∈ gap.toList, isBlank c = true) {entries : List α} (hne : entries ≠ [])
    (h : ∀ entry ∈ entries, Cuts (write entry).toList (cut entry)) {text : List Char} {parts : List Lexeme}
    (htext : Cuts text parts) (hapart : Apart text) :
    Cuts ((("," ++ gap).intercalate (entries.map write)).toList ++ text)
      ([.comma].intercalate (entries.map cut) ++ parts) := by
  induction entries with
  | nil => exact absurd rfl hne
  | cons entry entries ih =>
    obtain ⟨hentry, hentries⟩ := List.forall_mem_cons.1 h
    cases entries with
    | nil => simpa using hentry.append htext hapart
    | cons next entries =>
      -- A comma ends the entry even if it is a number.
      have hnext := ih (List.cons_ne_nil next entries) hentries
      have hcomma : Cuts (',' :: (gap.toList ++ _)) (.comma :: _) := .mark rfl (hnext.blanks hgap)
      have hall := hentry.append hcomma (apart_cons rfl _)
      simpa using hall

/-- Entries in brackets, with blanks behind the opening one and before the closing one. -/
theorem cuts_bracketed (opening closing : Char) {first last : Lexeme} (hfirst : mark? opening = some first)
    (hlast : mark? closing = some last) {gap behind : String} (hgap : ∀ c ∈ gap.toList, isBlank c = true)
    (hbehind : ∀ c ∈ behind.toList, isBlank c = true) {entries : List α}
    (h : ∀ entry ∈ entries, Cuts (write entry).toList (cut entry)) :
    Cuts (String.singleton opening ++ gap ++ ("," ++ gap).intercalate (entries.map write) ++ behind ++
        String.singleton closing).toList
      (first :: ([.comma].intercalate (entries.map cut) ++ [last])) := by
  have hclose : Cuts [closing] [last] := .mark hlast .nil
  have hapart : Apart [closing] := apart_cons (isNumberChar_of_mark hlast) []
  have hend := hclose.blanks hbehind
  have hentries : Cuts ((("," ++ gap).intercalate (entries.map write)).toList ++ (behind.toList ++ [closing]))
      ([.comma].intercalate (entries.map cut) ++ [last]) := by
    by_cases hempty : entries = []
    · subst hempty
      simpa using hend
    · exact cuts_entries write cut hgap hempty h hend (hapart.blanks hbehind)
  have hall := (hentries.blanks hgap).mark hfirst
  simpa using hall

theorem cuts_block (level : Nat) (opening closing : Char) {first last : Lexeme} (hfirst : mark? opening = some first)
    (hlast : mark? closing = some last) {entries : List α}
    (h : ∀ entry ∈ entries, Cuts (write entry).toList (cut entry)) :
    Cuts (block level (.singleton opening) (.singleton closing) (entries.map write)).toList
      (first :: ([.comma].intercalate (entries.map cut) ++ [last])) := by
  by_cases hempty : entries = []
  · subst hempty
    have hend : Cuts [closing] [last] := .mark hlast .nil
    simpa [block] using hend.mark hfirst
  have hall := cuts_bracketed write cut opening closing hfirst hlast (blank_newLine (level + 1)) (blank_newLine level) h
  simpa [block, hempty] using hall

theorem cuts_field (key : String) {text : List Char} {parts : List Lexeme} (h : Cuts text parts) :
    Cuts ((quoted (String.ofList (encode key.toList))).toList ++ ':' :: text)
      (.string (String.ofList (encode key.toList)) :: .colon :: parts) := by
  have hcolon : Cuts (':' :: text) (.colon :: parts) := .mark rfl h
  have hall := (cuts_string key.toList).append hcolon (apart_cons rfl _)
  simpa [quoted] using hall

/-- The text of a value is cut into the lexemes of the value. -/
theorem Made.cuts {value : Json} (h : value.Made) (level : Nat) :
    Cuts (prettyAt level value).toList value.lexemes := by
  induction h generalizing level with
  | bool value => exact cuts_bool value
  | number n => exact cuts_number n
  | text text =>
    have hstring := cuts_string text.toList
    simpa [ofText, prettyAt, quoted, lexemes] using hstring
  | @array items _ ih =>
    rw [prettyAt, prettyItems_eq_map, lexemes, itemLexemes_eq_map]
    apply cuts_block _ _ level '[' ']' rfl rfl
    intro item hitem
    exact ih item hitem (level + 1)
  | @fields fields _ ih =>
    rw [ofFields, prettyAt, prettyFields_eq_map, lexemes, fieldLexemes_eq_map]
    apply cuts_block _ _ level '\x7b' '\x7d' rfl rfl
    intro field hfield
    obtain ⟨⟨key, value⟩, hmem, rfl⟩ := List.mem_map.1 hfield
    have hvalue : Cuts (' ' :: (prettyAt (level + 1) value).toList) value.lexemes :=
      .blank rfl (ih (key, value) hmem (level + 1))
    have hfield := cuts_field key hvalue
    simpa using hfield

/-- Without blanks it is cut in the same way. -/
theorem Made.cuts_compact {value : Json} (h : value.Made) : Cuts (compact value).toList value.lexemes := by
  have hgap : ∀ c ∈ "".toList, isBlank c = true := by
    intro c hc
    cases hc
  induction h with
  | bool value => exact cuts_bool value
  | number n => exact cuts_number n
  | text text =>
    have hstring := cuts_string text.toList
    simpa [ofText, compact, quoted, lexemes] using hstring
  | @array items _ ih =>
    rw [compact, compactItems_eq_map, lexemes, itemLexemes_eq_map]
    have hall := cuts_bracketed compact lexemes '[' ']' rfl rfl hgap hgap ih
    simpa using hall
  | @fields fields _ ih =>
    rw [ofFields, compact, compactFields_eq_map, lexemes, fieldLexemes_eq_map]
    generalize hwritten : List.map _ fields = written
    have hfields : ∀ field ∈ written,
        Cuts (quoted field.1 ++ ":" ++ compact field.2).toList (.string field.1 :: .colon :: field.2.lexemes) := by
      intro field hfield
      rw [← hwritten] at hfield
      obtain ⟨⟨key, value⟩, hmem, rfl⟩ := List.mem_map.1 hfield
      have hfield := cuts_field key (ih (key, value) hmem)
      simpa using hfield
    have hall := cuts_bracketed _ _ '\x7b' '\x7d' rfl rfl hgap hgap hfields
    simpa using hall

end Layout

section Reading

/-- From where a value is awaited, the lexemes of the value lead to where it is complete. -/
def Builds (value : Json) : Prop :=
  ∀ stack, value.lexemes.foldlM Reading.step ⟨stack, .value⟩ = some ⟨stack, .more value⟩

/-- A value is read as the first of an array as it is anywhere else. -/
theorem foldlM_step_itemOrEnd (value : Json) (stack : List Open) (rest : List Lexeme) :
    (value.lexemes ++ rest).foldlM Reading.step ⟨.array [] :: stack, .itemOrEnd⟩ =
      (value.lexemes ++ rest).foldlM Reading.step ⟨.array [] :: stack, .value⟩ := by
  cases value
  all_goals simp [lexemes, Reading.step]

theorem builds_items {items : List Json} (hne : items ≠ []) (h : ∀ item ∈ items, item.Builds) (done : List Json)
    (stack : List Open) :
    List.foldlM Reading.step ⟨.array done :: stack, .value⟩
      ([.comma].intercalate (items.map lexemes) ++ [.closeArray]) =
        some ⟨stack, .more (.array (done.reverse ++ items))⟩ := by
  -- The items before those that are left have been put on the open array.
  induction items generalizing done with
  | nil => exact absurd rfl hne
  | cons item items ih =>
    obtain ⟨hitem, hitems⟩ := List.forall_mem_cons.1 h
    have hread := hitem (.array done :: stack)
    cases items with
    | nil => simp [hread, Reading.step]
    | cons next items =>
      have hrest := ih (List.cons_ne_nil next items) hitems (item :: done)
      simpa [hread, Reading.step] using hrest

theorem builds_fields {fields : List (String × Json)} (hne : fields ≠ []) (h : ∀ field ∈ fields, field.2.Builds)
    (done : List (String × Json)) (stack : List Open) :
    List.foldlM Reading.step ⟨stack, .key done⟩
      ([.comma].intercalate (fields.map fun field => .string field.1 :: .colon :: field.2.lexemes) ++
        [.closeObject]) = some ⟨stack, .more (.object (done.reverse ++ fields))⟩ := by
  induction fields generalizing done with
  | nil => exact absurd rfl hne
  | cons field fields ih =>
    obtain ⟨hfield, hfields⟩ := List.forall_mem_cons.1 h
    have hread := hfield (.object done field.1 :: stack)
    cases fields with
    | nil => simp [hread, Reading.step]
    | cons next fields =>
      have hrest := ih (List.cons_ne_nil next fields) hfields (field :: done)
      simpa [hread, Reading.step] using hrest

theorem exists_intercalate_cons_eq (first : List Lexeme) (rest : List (List Lexeme)) :
    ∃ behind, [Lexeme.comma].intercalate (first :: rest) = first ++ behind := by
  cases rest with
  | nil => exact ⟨[], by simp⟩
  | cons next rest => exact ⟨_, by rw [List.intercalate_cons_cons, List.append_assoc]⟩

theorem Builds.array {items : List Json} (h : ∀ item ∈ items, item.Builds) : (Json.array items).Builds := by
  intro stack
  rw [lexemes, itemLexemes_eq_map]
  cases items with
  | nil => rfl
  | cons item items =>
    have hitems := builds_items (List.cons_ne_nil item items) h [] stack
    -- The first item stands where the array might have ended.
    obtain ⟨behind, hbehind⟩ := exists_intercalate_cons_eq item.lexemes (items.map lexemes)
    rw [List.map_cons, hbehind, List.append_assoc] at hitems ⊢
    rw [List.foldlM_cons]
    exact (foldlM_step_itemOrEnd item stack _).trans hitems

theorem Builds.object {fields : List (String × Json)} (h : ∀ field ∈ fields, field.2.Builds) :
    (Json.object fields).Builds := by
  intro stack
  rw [lexemes, fieldLexemes_eq_map]
  cases fields with
  | nil => rfl
  | cons field fields =>
    have hfields := builds_fields (List.cons_ne_nil field fields) h [] stack
    -- The first key stands where the object might have ended.
    obtain ⟨behind, hbehind⟩ := exists_intercalate_cons_eq (.string field.1 :: .colon :: field.2.lexemes)
      (fields.map fun field => .string field.1 :: .colon :: field.2.lexemes)
    rw [List.map_cons, hbehind, List.append_assoc] at hfields ⊢
    exact hfields

theorem Made.builds {value : Json} (h : value.Made) : value.Builds := by
  induction h with
  | bool value => exact fun _ => rfl
  | number n => exact fun _ => rfl
  | text text => exact fun _ => rfl
  | array _ ih => exact .array ih
  | fields _ ih =>
    apply Builds.object
    intro field hfield
    obtain ⟨⟨key, value⟩, hmem, rfl⟩ := List.mem_map.1 hfield
    exact ih (key, value) hmem

/-- The text of a value is read as the value, in whatever layout it is cut into its lexemes. -/
theorem Made.read?_of_cuts {value : Json} (h : value.Made) {text : String} (hcuts : Cuts text.toList value.lexemes) :
    read? text = some value := by
  have hcut := hcuts [] [] apart_nil
  rw [List.append_nil, List.append_nil] at hcut
  have hlexemes : lexemes? [] text.toList = some value.lexemes := by
    rw [hcut, lexemes?, List.reverse_reverse]
  have hbuild := h.builds []
  rw [read?, hlexemes]
  show (value.lexemes.foldlM Reading.step Reading.start).bind Reading.result? = some value
  rw [Reading.start, hbuild]
  rfl

theorem Made.read?_pretty {value : Json} (h : value.Made) : read? value.pretty = some value :=
  h.read?_of_cuts (h.cuts 0)

theorem Made.read?_compact {value : Json} (h : value.Made) : read? value.compact = some value :=
  h.read?_of_cuts h.cuts_compact

end Reading

end Pushdown.Json
