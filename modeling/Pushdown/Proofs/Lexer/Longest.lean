import Mathlib.Data.List.Basic
import Pushdown.Lexer.Scan
import Pushdown.Proofs.Text.Pattern

/-! The piece at the start of a text is the longest one that belongs to a class, or else an error run. -/

namespace Pushdown

namespace LexClass

open Pattern

theorem mem_all (cls : LexClass) : cls ∈ all := by
  cases cls <;> decide

theorem quotedBy_completable (quote : Char) : (quotedBy quote).Completable :=
  ⟨trivial, ⟨⟨trivial, trivial, trivial, ['a'], .char (by decide)⟩, trivial, one_inhabited quote⟩,
    (star_inhabited _).seq (one_inhabited quote)⟩

theorem digits_completable_inhabited :
    (plus (.char Char.isDigit)).Completable ∧ (plus (.char Char.isDigit)).Inhabited :=
  ⟨⟨trivial, trivial, star_inhabited _⟩, Inhabited.plus ⟨['0'], .char (by decide)⟩⟩

theorem completable (cls : LexClass) : cls.pattern.Completable := by
  cases cls with
  | name => exact ⟨trivial, trivial, star_inhabited _⟩
  | number =>
    obtain ⟨hdigits, hinhabited⟩ := digits_completable_inhabited
    have hsigned : (seq (optional (.char fun c => c = '+' || c = '-')) (plus (.char Char.isDigit))).Inhabited :=
      (optional_inhabited _).seq hinhabited
    have hfraction : (optional (seq (one '.') (plus (.char Char.isDigit)))).Completable :=
      ⟨⟨trivial, hdigits, hinhabited⟩, trivial⟩
    exact ⟨hdigits, ⟨hfraction, ⟨⟨trivial, ⟨⟨trivial, trivial⟩, hdigits, hinhabited⟩, hsigned⟩, trivial⟩,
      optional_inhabited _⟩, (optional_inhabited _).seq (optional_inhabited _)⟩
  | string => exact ⟨quotedBy_completable '"', quotedBy_completable '\''⟩
  | operator =>
    refine ⟨anyOf_completable fun a ha => ?_, trivial⟩
    obtain ⟨s, -, rfl⟩ := List.mem_map.1 ha
    exact (text_completable_inhabited s.toList).1
  | blank => exact ⟨trivial, trivial, star_inhabited _⟩
  | comment => exact ⟨trivial, trivial, star_inhabited _⟩

end LexClass

namespace Lexer

/-- A text of some class. -/
def Lexeme (text : List Char) : Prop := ∃ cls : LexClass, cls.pattern.Matches text

/-- A text that some text of a class begins with. -/
def Viable (text : List Char) : Prop := ∃ rest, Lexeme (text ++ rest)

theorem Viable.of_begin {start text : List Char} (h : Viable text) (hstart : start <+: text) : Viable start := by
  obtain ⟨rest, hlexeme⟩ := h
  obtain ⟨middle, rfl⟩ := hstart
  rw [List.append_assoc] at hlexeme
  exact ⟨middle ++ rest, hlexeme⟩

theorem Lexeme.viable {text : List Char} (h : Lexeme text) : Viable text :=
  ⟨[], by rwa [List.append_nil]⟩

section Tracks

/-- The candidates are the classes that can still be completed, each with what is to be read of it. -/
structure Tracks (read : List Char) (candidates : List Candidate) : Prop where
  matches_iff : ∀ cls rest, (cls, rest) ∈ candidates → ∀ s, rest.Matches s ↔ cls.pattern.Matches (read ++ s)
  completable : ∀ cls rest, (cls, rest) ∈ candidates → rest.Completable
  complete : ∀ (cls : LexClass) s, cls.pattern.Matches (read ++ s) → ∃ rest, (cls, rest) ∈ candidates

variable {read : List Char} {remaining : List Candidate}

theorem tracks_candidates : Tracks [] candidates where
  matches_iff := by
    intro cls rest hmem s
    obtain ⟨cls', -, heq⟩ := List.mem_map.1 hmem
    cases heq
    rfl
  completable := by
    intro cls rest hmem
    obtain ⟨cls', -, heq⟩ := List.mem_map.1 hmem
    cases heq
    exact cls.completable
  complete := fun cls _ _ => ⟨cls.pattern, List.mem_map.2 ⟨cls, cls.mem_all, rfl⟩⟩

theorem mem_advance_iff (c : Char) (cls : LexClass) (next : Pattern) :
    (cls, next) ∈ advance c remaining ↔ ∃ rest, (cls, rest) ∈ remaining ∧ next = rest.after c ∧ next ≠ .never := by
  rw [advance, List.mem_filterMap]
  constructor
  · rintro ⟨⟨cls', rest⟩, hmem, hsome⟩
    dsimp only at hsome
    split at hsome
    · cases hsome
    · rename_i hnever
      cases hsome
      exact ⟨rest, hmem, rfl, fun heq => hnever ((Pattern.isNever_iff _).2 heq)⟩
  · rintro ⟨rest, hmem, rfl, hne⟩
    exact ⟨(cls, rest), hmem, if_neg fun hnever => hne ((Pattern.isNever_iff _).1 hnever)⟩

theorem Tracks.advance (h : Tracks read remaining) (c : Char) : Tracks (read ++ [c]) (advance c remaining) where
  matches_iff := by
    intro cls next hmem s
    obtain ⟨rest, hrest, rfl, -⟩ := (mem_advance_iff c cls next).1 hmem
    rw [Pattern.matches_after_iff, h.matches_iff cls rest hrest, List.append_cons]
  completable := by
    intro cls next hmem
    obtain ⟨rest, hrest, rfl, -⟩ := (mem_advance_iff c cls next).1 hmem
    exact (h.completable cls rest hrest).after c
  complete := by
    intro cls s hmatches
    rw [← List.append_cons] at hmatches
    obtain ⟨rest, hrest⟩ := h.complete cls (c :: s) hmatches
    refine ⟨rest.after c, (mem_advance_iff c cls _).2 ⟨rest, hrest, rfl, fun hnever => ?_⟩⟩
    -- A class that the text completes is not dropped.
    have hafter : (rest.after c).Matches s :=
      (Pattern.matches_after_iff rest c s).2 ((h.matches_iff cls rest hrest (c :: s)).2 hmatches)
    rw [hnever] at hafter
    exact Pattern.not_matches_never hafter

theorem Tracks.not_viable (h : Tracks read []) : ¬ Viable read := by
  rintro ⟨rest, cls, hmatches⟩
  obtain ⟨pattern, hmem⟩ := h.complete cls rest hmatches
  exact List.not_mem_nil hmem

theorem Tracks.viable_of_mem_advance (h : Tracks read remaining) {c : Char} {candidate : Candidate}
    (hmem : candidate ∈ Lexer.advance c remaining) : Viable (read ++ [c]) := by
  obtain ⟨cls, next⟩ := candidate
  obtain ⟨rest, hrest, rfl, hne⟩ := (mem_advance_iff c cls next).1 hmem
  -- What is not `never` can be completed.
  obtain ⟨s, hs⟩ := ((h.completable cls rest hrest).after_eq_never_or_inhabited c).resolve_left hne
  exact ⟨s, cls, ((h.advance c).matches_iff cls _ hmem s).1 hs⟩

theorem Tracks.matches_of_completed (h : Tracks read remaining) {cls : LexClass}
    (hcompleted : completed remaining = some cls) : cls.pattern.Matches read := by
  obtain ⟨⟨cls', rest⟩, hfind, rfl⟩ := Option.map_eq_some_iff.1 hcompleted
  have hempty : rest.acceptsEmpty = true := List.find?_some (p := fun entry : Candidate => entry.2.acceptsEmpty) hfind
  have hmatches := (Pattern.acceptsEmpty_iff rest).1 hempty
  rw [h.matches_iff cls' rest (List.mem_of_find?_eq_some hfind), List.append_nil] at hmatches
  exact hmatches

theorem Tracks.not_lexeme_of_completed (h : Tracks read remaining) (hcompleted : completed remaining = none) :
    ¬ Lexeme read := by
  rintro ⟨cls, hmatches⟩
  rw [← List.append_nil read] at hmatches
  obtain ⟨rest, hrest⟩ := h.complete cls [] hmatches
  have hnone := List.find?_eq_none.1 (Option.map_eq_none_iff.1 hcompleted) (cls, rest) hrest
  exact hnone ((Pattern.acceptsEmpty_iff rest).2 ((h.matches_iff cls rest hrest []).2 hmatches))

end Tracks

section Longest

/-- The longest text of a class at the start of `text`, with its class and length. -/
def IsLongest (text : List Char) : Option (LexClass × Nat) → Prop
  | some (cls, length) =>
    ∃ lexeme, lexeme <+: text ∧ lexeme ≠ [] ∧ lexeme.length = length ∧ cls.pattern.Matches lexeme ∧
      ∀ longer, longer <+: text → length < longer.length → ¬ Lexeme longer
  | none => ∀ start, start <+: text → start ≠ [] → ¬ Lexeme start

/-- `start` is the longest start of `text` that can be completed to a text of a class. -/
def IsRun (text start : List Char) : Prop :=
  start <+: text ∧ (start ≠ [] → Viable start) ∧
    ∀ longer, longer <+: text → start.length < longer.length → ¬ Viable longer

variable {read text : List Char}

/-- The longest match stays the longest as long as no more matches are met. -/
theorem IsLongest.extend {longest : Option (LexClass × Nat)} (h : IsLongest read longest) (hread : read <+: text)
    (hmore : ∀ start, start <+: text → ¬ start <+: read → ¬ Lexeme start) : IsLongest text longest := by
  match longest with
  | some (cls, length) =>
    obtain ⟨lexeme, hlexeme, hne, hlength, hmatches, hlonger⟩ := h
    refine ⟨lexeme, hlexeme.trans hread, hne, hlength, hmatches, fun longer hbegin hlt => ?_⟩
    by_cases hold : longer <+: read
    · exact hlonger longer hold hlt
    · exact hmore longer hbegin hold
  | none =>
    intro start hbegin hne
    by_cases hold : start <+: read
    · exact h start hold hne
    · exact hmore start hbegin hold

/-- A start of the text that goes beyond what has been read begins with the next character. -/
theorem prefix_next_of_new {c : Char} {rest start : List Char} (hbegin : start <+: read ++ c :: rest)
    (hnew : ¬ start <+: read) : read ++ [c] <+: start := by
  have hnext : read ++ [c] <+: read ++ c :: rest := ⟨rest, (List.append_cons read c rest).symm⟩
  rcases List.prefix_or_prefix_of_prefix hbegin hnext with hstart | hstart
  · rcases List.prefix_concat_iff.1 hstart with rfl | hold
    · exact List.prefix_rfl
    · exact absurd hold hnew
  · exact hstart

theorem IsLongest.step {remaining : List Candidate} (htracks : Tracks read remaining)
    {longest : Option (LexClass × Nat)} (h : IsLongest read longest) (c : Char) :
    IsLongest (read ++ [c]) (match completed (advance c remaining) with
      | some cls => some (cls, read.length + 1)
      | none => longest) := by
  have hnext := htracks.advance c
  cases hcompleted : completed (advance c remaining) with
  | some cls =>
    refine ⟨read ++ [c], List.prefix_rfl, by simp, by simp, hnext.matches_of_completed hcompleted, ?_⟩
    intro longer hbegin hlt
    have hle := hbegin.length_le
    rw [List.length_append, List.length_singleton] at hle
    omega
  | none =>
    refine h.extend (List.prefix_append read [c]) fun start hbegin hnew => ?_
    obtain rfl : start = read ++ [c] := (List.prefix_concat_iff.1 hbegin).resolve_right hnew
    exact hnext.not_lexeme_of_completed hcompleted

theorem reach_spec {remaining : List Candidate} (htracks : Tracks read remaining)
    {longest : Option (LexClass × Nat)} (hlongest : IsLongest read longest) (hviable : read ≠ [] → Viable read)
    (ahead : List Char) :
    IsLongest (read ++ ahead) (reach remaining longest read.length ahead).longest ∧
      ∃ start, IsRun (read ++ ahead) start ∧
        start.length = (reach remaining longest read.length ahead).viable := by
  -- The induction is on the text ahead; what is known of the text that has been read grows with it.
  induction ahead generalizing read remaining longest with
  | nil =>
    rw [List.append_nil]
    refine ⟨hlongest, read, ⟨List.prefix_rfl, hviable, fun longer hbegin hlt => ?_⟩, rfl⟩
    have hle := hbegin.length_le
    omega
  | cons c ahead ih =>
    have hnext := htracks.advance c
    cases halive : advance c remaining with
    | nil =>
      rw [halive] at hnext
      have hdead : ∀ start, start <+: read ++ c :: ahead → ¬ start <+: read → ¬ Viable start :=
        fun start hbegin hnew hstart => hnext.not_viable (hstart.of_begin (prefix_next_of_new hbegin hnew))
      have hreach : reach remaining longest read.length (c :: ahead) = ⟨longest, read.length⟩ := by
        rw [reach, halive]
      have hread : read <+: read ++ c :: ahead := List.prefix_append read (c :: ahead)
      rw [hreach]
      refine ⟨?_, read, ⟨hread, hviable, ?_⟩, rfl⟩
      · exact hlongest.extend hread fun start hbegin hnew hlexeme => hdead start hbegin hnew hlexeme.viable
      · intro longer hbegin hlt
        refine hdead longer hbegin fun hold => ?_
        have hle := hold.length_le
        omega
    | cons next others =>
      have hmem : next ∈ advance c remaining := halive ▸ List.mem_cons_self
      have hstep := hlongest.step htracks c
      have hlength : (read ++ [c]).length = read.length + 1 := by simp
      have hih := ih hnext hstep fun _ => htracks.viable_of_mem_advance hmem
      rw [reach, halive]
      rw [halive, hlength, ← List.append_cons] at hih
      exact hih

end Longest

section Piece

/-- The piece `lexeme` is cut off the text `lexeme ++ rest`. -/
inductive Piece : Option LexClass → (lexeme rest : List Char) → Prop where
  /-- The longest text of a class. -/
  | lexeme {cls : LexClass} {lexeme rest : List Char} (hne : lexeme ≠ []) (hmatches : cls.pattern.Matches lexeme)
    (hlongest : ∀ longer, longer <+: lexeme ++ rest → lexeme.length < longer.length → ¬ Lexeme longer) :
    Piece (some cls) lexeme rest
  /-- No text of a class, but one that could have become one, as long as possible. -/
  | run {lexeme rest : List Char} (hne : lexeme ≠ [])
    (hnone : ∀ start, start <+: lexeme ++ rest → start ≠ [] → ¬ Lexeme start) (hviable : Viable lexeme)
    (hlongest : ∀ longer, longer <+: lexeme ++ rest → lexeme.length < longer.length → ¬ Viable longer) :
    Piece none lexeme rest
  /-- A character that no text of a class begins with. -/
  | stray {c : Char} {rest : List Char} (hnone : ∀ start, start <+: c :: rest → start ≠ [] → ¬ Viable start) :
    Piece none [c] rest

theorem Piece.ne_nil {cls : Option LexClass} {lexeme rest : List Char} (h : Piece cls lexeme rest) :
    lexeme ≠ [] := by
  cases h with
  | lexeme hne _ _ => exact hne
  | run hne _ _ _ => exact hne
  | stray _ => exact List.cons_ne_nil _ _

/-- A start of the text that is not empty is cut off by its length. -/
theorem exists_rest_of_begin {c : Char} {cs start : List Char} (hbegin : start <+: c :: cs) (hne : start ≠ []) :
    start = c :: cs.take (start.length - 1) ∧ c :: cs = start ++ cs.drop (start.length - 1) := by
  obtain ⟨rest, happend⟩ := hbegin
  cases start with
  | nil => exact absurd rfl hne
  | cons d start =>
    obtain ⟨rfl, rfl⟩ := List.cons_eq_cons.1 happend
    simp

theorem piece_cut (c : Char) (cs : List Char) :
    Piece (piece (c :: cs)).1 (c :: cs.take ((piece (c :: cs)).2 - 1)) (cs.drop ((piece (c :: cs)).2 - 1)) := by
  have hnothing : IsLongest [] none := fun start hbegin hne => absurd (List.prefix_nil.1 hbegin) hne
  obtain ⟨hlongest, start, ⟨hbegin, hviable, hmore⟩, hlength⟩ :=
    reach_spec tracks_candidates hnothing (fun hne => absurd rfl hne) (c :: cs)
  rw [List.nil_append, List.length_nil] at hlongest
  rw [List.length_nil] at hlength
  rw [List.nil_append] at hbegin hmore
  rw [piece]
  cases hfound : (reach candidates none 0 (c :: cs)).longest with
  | some found =>
    obtain ⟨cls, length⟩ := found
    rw [hfound] at hlongest
    obtain ⟨lexeme, hlexeme, hne, rfl, hmatches, hlonger⟩ := hlongest
    obtain ⟨htake, hdrop⟩ := exists_rest_of_begin hlexeme hne
    dsimp only
    rw [← htake]
    rw [hdrop] at hlonger
    exact .lexeme hne hmatches hlonger
  | none =>
    rw [hfound] at hlongest
    simp only [← hlength]
    by_cases hne : start = []
    · -- Nothing can be completed, so the run is the first character.
      subst hne
      refine .stray fun start hbegin hne => hmore start hbegin ?_
      exact List.length_pos_iff.2 hne
    · obtain ⟨htake, hdrop⟩ := exists_rest_of_begin hbegin hne
      rw [← htake]
      rw [hdrop] at hlongest hmore
      exact .run hne hlongest (hviable hne) hmore

end Piece

end Lexer

end Pushdown
