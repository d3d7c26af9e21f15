import Pushdown.Text.Pattern

/-! Reading a pattern one character at a time: what remains of it, and when nothing can complete it any more. -/

namespace Pushdown.Pattern

section Constructors

variable {a b : Pattern} {s : List Char}

@[simp] theorem not_matches_never : ¬ Matches never s := by
  intro h
  cases h

@[simp] theorem matches_empty_iff : Matches empty s ↔ s = [] := by
  constructor
  · intro h
    cases h
    rfl
  · rintro rfl
    exact .empty

theorem matches_char_iff {member : Char → Bool} : Matches (char member) s ↔ ∃ c, member c = true ∧ s = [c] := by
  constructor
  · intro h
    cases h with
    | char hmember => exact ⟨_, hmember, rfl⟩
  · rintro ⟨c, hmember, rfl⟩
    exact .char hmember

theorem matches_seq_iff :
    Matches (seq a b) s ↔ ∃ first second, s = first ++ second ∧ Matches a first ∧ Matches b second := by
  constructor
  · intro h
    cases h with
    | seq hfirst hsecond => exact ⟨_, _, rfl, hfirst, hsecond⟩
  · rintro ⟨first, second, rfl, hfirst, hsecond⟩
    exact .seq hfirst hsecond

theorem matches_alt_iff : Matches (alt a b) s ↔ Matches a s ∨ Matches b s := by
  constructor
  · intro h
    cases h with
    | left h => exact .inl h
    | right h => exact .inr h
  · rintro (h | h)
    · exact .left h
    · exact .right h

theorem acceptsEmpty_iff (a : Pattern) : a.acceptsEmpty = true ↔ Matches a [] := by
  induction a with
  | never => simp [acceptsEmpty]
  | empty => simp [acceptsEmpty]
  | char member => simp [acceptsEmpty, matches_char_iff]
  | seq a b iha ihb =>
    rw [acceptsEmpty, Bool.and_eq_true, iha, ihb, matches_seq_iff]
    constructor
    · rintro ⟨ha, hb⟩
      exact ⟨[], [], rfl, ha, hb⟩
    · rintro ⟨first, second, happend, ha, hb⟩
      obtain ⟨rfl, rfl⟩ := List.append_eq_nil_iff.1 happend.symm
      exact ⟨ha, hb⟩
  | alt a b iha ihb => rw [acceptsEmpty, Bool.or_eq_true, iha, ihb, matches_alt_iff]
  | star a _ => exact iff_of_true rfl .done

end Constructors

section FirstCharacter

variable {a b : Pattern} {c : Char} {s : List Char}

/-- The character is read by the first pattern, or by the second if the first reads nothing. -/
theorem matches_seq_cons_iff :
    Matches (seq a b) (c :: s) ↔
      (∃ first second, s = first ++ second ∧ Matches a (c :: first) ∧ Matches b second) ∨
      Matches a [] ∧ Matches b (c :: s) := by
  rw [matches_seq_iff]
  constructor
  · rintro ⟨first, second, happend, ha, hb⟩
    cases first with
    | nil =>
      rw [List.nil_append] at happend
      exact .inr ⟨ha, happend ▸ hb⟩
    | cons _ first =>
      obtain ⟨rfl, rfl⟩ := List.cons_eq_cons.1 happend
      exact .inl ⟨first, second, rfl, ha, hb⟩
  · rintro (⟨first, second, rfl, ha, hb⟩ | ⟨ha, hb⟩)
    · exact ⟨c :: first, second, rfl, ha, hb⟩
    · exact ⟨[], c :: s, rfl, ha, hb⟩

/-- The character is read by the first text of the repetition that is not empty. -/
theorem matches_star_cons_iff :
    Matches (star a) (c :: s) ↔
      ∃ first second, s = first ++ second ∧ Matches a (c :: first) ∧ Matches (star a) second := by
  constructor
  · intro h
    generalize hpattern : star a = pattern at h
    generalize htext : c :: s = text at h
    -- The induction is on the number of texts that are repeated.
    induction h with
    | empty => cases hpattern
    | char _ => cases hpattern
    | seq _ _ _ _ => cases hpattern
    | left _ _ => cases hpattern
    | right _ _ => cases hpattern
    | done => cases htext
    | @more _ first second hfirst hsecond _ ih =>
      cases hpattern
      cases first with
      | nil => exact ih rfl htext
      | cons _ first =>
        obtain ⟨rfl, rfl⟩ := List.cons_eq_cons.1 htext
        exact ⟨first, second, rfl, hfirst, hsecond⟩
  · rintro ⟨first, second, rfl, hfirst, hsecond⟩
    exact .more hfirst hsecond

end FirstCharacter

section After

variable {a b : Pattern} {s : List Char}

theorem matches_thenPattern_iff : Matches (thenPattern a b) s ↔ Matches (seq a b) s := by
  cases a with
  | never => simp [thenPattern, matches_seq_iff]
  | empty =>
    rw [thenPattern, matches_seq_iff]
    constructor
    · exact fun h => ⟨[], s, rfl, .empty, h⟩
    · rintro ⟨first, second, rfl, hfirst, hsecond⟩
      rwa [matches_empty_iff.1 hfirst]
  | _ => rfl

theorem matches_orPattern_iff : Matches (orPattern a b) s ↔ Matches a s ∨ Matches b s := by
  unfold orPattern
  split
  · simp
  · simp
  · exact matches_alt_iff

/-- What remains of a pattern are the texts that complete the character to a text of the pattern. -/
theorem matches_after_iff (a : Pattern) (c : Char) (s : List Char) : Matches (a.after c) s ↔ Matches a (c :: s) := by
  induction a generalizing s with
  | never => simp [after]
  | empty => simp [after]
  | char member =>
    rw [after, matches_char_iff]
    split
    · rename_i hmember
      rw [matches_empty_iff]
      constructor
      · rintro rfl
        exact ⟨c, hmember, rfl⟩
      · rintro ⟨d, -, heq⟩
        exact (List.cons_eq_cons.1 heq).2
    · rename_i hmember
      refine iff_of_false not_matches_never ?_
      rintro ⟨d, hd, heq⟩
      obtain rfl := (List.cons_eq_cons.1 heq).1
      exact hmember hd
  | seq a b iha ihb =>
    have hfirst : Matches (thenPattern (a.after c) b) s ↔
        ∃ first second, s = first ++ second ∧ Matches a (c :: first) ∧ Matches b second := by
      simp only [matches_thenPattern_iff, matches_seq_iff, iha]
    rw [after, matches_seq_cons_iff, ← acceptsEmpty_iff a]
    split
    · rename_i hempty
      rw [matches_orPattern_iff, hfirst, ihb, and_iff_right hempty]
    · rename_i hempty
      rw [hfirst, or_iff_left fun h => hempty h.1]
  | alt a b iha ihb => rw [after, matches_orPattern_iff, iha, ihb, matches_alt_iff]
  | star a ih =>
    rw [after, matches_thenPattern_iff, matches_seq_iff, matches_star_cons_iff]
    simp only [ih]

theorem accepts_iff (a : Pattern) (s : List Char) : a.accepts s = true ↔ Matches a s := by
  induction s generalizing a with
  | nil => exact acceptsEmpty_iff a
  | cons c s ih =>
    have hcons : a.accepts (c :: s) = (a.after c).accepts s := rfl
    rw [hcons, ih, matches_after_iff]

end After

section Completion

/-- Some text can be read. -/
def Inhabited (a : Pattern) : Prop := ∃ s, Matches a s

/-- Whatever has been read of a sequence, its second part can complete it. -/
def Completable : Pattern → Prop
  | never => True
  | empty => True
  | char _ => True
  | seq a b => a.Completable ∧ b.Completable ∧ b.Inhabited
  | alt a b => a.Completable ∧ b.Completable
  | star a => a.Completable

variable {a b : Pattern}

theorem star_inhabited (a : Pattern) : (star a).Inhabited := ⟨[], .done⟩

theorem Inhabited.seq (ha : a.Inhabited) (hb : b.Inhabited) : (seq a b).Inhabited := by
  obtain ⟨s, hs⟩ := ha
  obtain ⟨t, ht⟩ := hb
  exact ⟨s ++ t, .seq hs ht⟩

theorem Inhabited.left (h : a.Inhabited) : (alt a b).Inhabited := by
  obtain ⟨s, hs⟩ := h
  exact ⟨s, .left hs⟩

theorem isNever_iff (a : Pattern) : a.isNever = true ↔ a = never := by
  cases a <;> simp [isNever]

theorem Completable.thenPattern (ha : a.Completable) (hb : b.Completable) (hinhabited : b.Inhabited) :
    (thenPattern a b).Completable := by
  cases a with
  | never => exact trivial
  | empty => exact hb
  | _ => exact ⟨ha, hb, hinhabited⟩

theorem Completable.orPattern (ha : a.Completable) (hb : b.Completable) : (orPattern a b).Completable := by
  unfold Pattern.orPattern
  split
  · exact hb
  · exact ha
  · exact ⟨ha, hb⟩

theorem Completable.after (h : a.Completable) (c : Char) : (a.after c).Completable := by
  induction a with
  | never => exact trivial
  | empty => exact trivial
  | char member =>
    rw [Pattern.after]
    split <;> exact trivial
  | seq a b iha ihb =>
    obtain ⟨ha, hb, hinhabited⟩ := h
    have hthen := (iha ha).thenPattern hb hinhabited
    rw [Pattern.after]
    split
    · exact hthen.orPattern (ihb hb)
    · exact hthen
  | alt a b iha ihb => exact (iha h.1).orPattern (ihb h.2)
  | star a ih => exact (ih h).thenPattern h (star_inhabited a)

theorem thenPattern_eq_never_or_inhabited (ha : a = never ∨ a.Inhabited) (hb : b.Inhabited) :
    thenPattern a b = never ∨ (thenPattern a b).Inhabited := by
  rcases ha with rfl | ha
  · exact .inl rfl
  · obtain ⟨s, hs⟩ := ha.seq hb
    exact .inr ⟨s, matches_thenPattern_iff.2 hs⟩

theorem orPattern_eq_never_or_inhabited (ha : a = never ∨ a.Inhabited) (hb : b = never ∨ b.Inhabited) :
    orPattern a b = never ∨ (orPattern a b).Inhabited := by
  rcases ha with rfl | ⟨s, hs⟩
  · exact hb
  · exact .inr ⟨s, matches_orPattern_iff.2 (.inl hs)⟩

/-- A dead end shows at once: what remains is `never` or can be completed. -/
theorem Completable.after_eq_never_or_inhabited (h : a.Completable) (c : Char) :
    a.after c = never ∨ (a.after c).Inhabited := by
  induction a with
  | never => exact .inl rfl
  | empty => exact .inl rfl
  | char member =>
    rw [Pattern.after]
    split
    · exact .inr ⟨[], .empty⟩
    · exact .inl rfl
  | seq a b iha ihb =>
    obtain ⟨ha, hb, hinhabited⟩ := h
    have hthen := thenPattern_eq_never_or_inhabited (iha ha) hinhabited
    rw [Pattern.after]
    split
    · exact orPattern_eq_never_or_inhabited hthen (ihb hb)
    · exact hthen
  | alt a b iha ihb => exact orPattern_eq_never_or_inhabited (iha h.1) (ihb h.2)
  | star a ih => exact thenPattern_eq_never_or_inhabited (ih h) (star_inhabited a)

end Completion

section Derived

variable {a : Pattern} {s : List Char}

theorem matches_one_iff {c : Char} : Matches (one c) s ↔ s = [c] := by
  rw [one, matches_char_iff]
  simp

theorem matches_optional_iff : Matches (optional a) s ↔ Matches a s ∨ s = [] := by
  rw [optional, matches_alt_iff, matches_empty_iff]

theorem matches_star_char_iff {member : Char → Bool} :
    Matches (star (char member)) s ↔ ∀ c ∈ s, member c = true := by
  induction s with
  | nil => exact iff_of_true .done fun _ hmem => absurd hmem List.not_mem_nil
  | cons c s ih =>
    rw [matches_star_cons_iff, List.forall_mem_cons, ← ih]
    constructor
    · rintro ⟨first, second, rfl, hfirst, hsecond⟩
      obtain ⟨d, hmember, heq⟩ := matches_char_iff.1 hfirst
      obtain ⟨rfl, rfl⟩ := List.cons_eq_cons.1 heq
      exact ⟨hmember, hsecond⟩
    · rintro ⟨hmember, hs⟩
      exact ⟨[], s, rfl, .char hmember, hs⟩

theorem matches_plus_char_iff {member : Char → Bool} :
    Matches (plus (char member)) s ↔ s ≠ [] ∧ ∀ c ∈ s, member c = true := by
  cases s with
  | nil =>
    rw [plus, ← acceptsEmpty_iff]
    simp [acceptsEmpty]
  | cons c s =>
    rw [plus, ← matches_star_char_iff, matches_seq_cons_iff, matches_star_cons_iff]
    simp [matches_char_iff]

theorem one_inhabited (c : Char) : (one c).Inhabited := ⟨[c], matches_one_iff.2 rfl⟩

theorem optional_inhabited (a : Pattern) : (optional a).Inhabited := ⟨[], matches_optional_iff.2 (.inr rfl)⟩

theorem Inhabited.plus (h : a.Inhabited) : (plus a).Inhabited := h.seq (star_inhabited a)

theorem text_completable_inhabited (s : List Char) : (text s).Completable ∧ (text s).Inhabited := by
  induction s with
  | nil => exact ⟨trivial, [], .empty⟩
  | cons c s ih => exact ⟨⟨trivial, ih⟩, (one_inhabited c).seq ih.2⟩

theorem anyOf_completable {as : List Pattern} (h : ∀ a ∈ as, a.Completable) : (anyOf as).Completable := by
  induction as with
  | nil => exact trivial
  | cons a as ih =>
    obtain ⟨ha, has⟩ := List.forall_mem_cons.1 h
    exact ⟨ha, ih has⟩

end Derived

section Characters

/-- Whether the character has a place in the pattern. -/
def admits (c : Char) : Pattern → Bool
  | never => false
  | empty => false
  | char member => member c
  | seq a b => a.admits c || b.admits c
  | alt a b => a.admits c || b.admits c
  | star a => a.admits c

/-- Whether the character has a place at the beginning of the pattern. -/
def canBegin (c : Char) : Pattern → Bool
  | never => false
  | empty => false
  | char member => member c
  | seq a b => a.canBegin c || (a.acceptsEmpty && b.canBegin c)
  | alt a b => a.canBegin c || b.canBegin c
  | star a => a.canBegin c

variable {a : Pattern} {c : Char} {s : List Char}

theorem admits_of_mem (h : Matches a s) (hc : c ∈ s) : a.admits c = true := by
  induction h with
  | empty => exact absurd hc List.not_mem_nil
  | char hmember => exact List.mem_singleton.1 hc ▸ hmember
  | seq _ _ iha ihb => exact Bool.or_eq_true_iff.2 ((List.mem_append.1 hc).imp iha ihb)
  | left _ ih => exact Bool.or_eq_true_iff.2 (.inl (ih hc))
  | right _ ih => exact Bool.or_eq_true_iff.2 (.inr (ih hc))
  | done => exact absurd hc List.not_mem_nil
  | more _ _ iha ihs => exact (List.mem_append.1 hc).elim iha ihs

theorem canBegin_of_matches (h : Matches a (c :: s)) : a.canBegin c = true := by
  induction a generalizing s with
  | never => exact absurd h not_matches_never
  | empty => cases h
  | char member =>
    obtain ⟨d, hmember, heq⟩ := matches_char_iff.1 h
    exact (List.cons_eq_cons.1 heq).1 ▸ hmember
  | seq a b iha ihb =>
    rw [canBegin, Bool.or_eq_true, Bool.and_eq_true, acceptsEmpty_iff]
    rcases matches_seq_cons_iff.1 h with ⟨first, second, -, hfirst, -⟩ | ⟨hempty, hsecond⟩
    · exact .inl (iha hfirst)
    · exact .inr ⟨hempty, ihb hsecond⟩
  | alt a b iha ihb => exact Bool.or_eq_true_iff.2 ((matches_alt_iff.1 h).imp iha ihb)
  | star a ih =>
    obtain ⟨first, second, -, hfirst, -⟩ := matches_star_cons_iff.1 h
    exact ih hfirst

theorem canBegin_anyOf_iff {as : List Pattern} :
    (anyOf as).canBegin c = true ↔ ∃ a ∈ as, a.canBegin c = true := by
  induction as with
  | nil => simp [anyOf, canBegin]
  | cons a as ih =>
    have hcons : anyOf (a :: as) = alt a (anyOf as) := rfl
    rw [hcons, canBegin, Bool.or_eq_true, ih]
    simp

theorem canBegin_text_iff : (text s).canBegin c = true ↔ s.head? = some c := by
  cases s with
  | nil => simp [text, canBegin]
  | cons d s => simp [text, canBegin, one, acceptsEmpty, eq_comm]

end Characters

end Pushdown.Pattern
