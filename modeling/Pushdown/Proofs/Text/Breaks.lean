import Pushdown.Text.Quoted

/-!
Texts on one line. What is put together from parts breaks where one of the parts does. Digits do not break, and neither
does what stands between quotes, whatever text it is written for.
-/

namespace Pushdown.Text

/-- The text does not stand on one line. -/
def Breaks (text : String) : Prop := '\n' ∈ text.toList

instance (text : String) : Decidable (Breaks text) := inferInstanceAs (Decidable ('\n' ∈ text.toList))

theorem breaks_append (s t : String) : Breaks (s ++ t) ↔ Breaks s ∨ Breaks t := by
  show '\n' ∈ (s ++ t).toList ↔ '\n' ∈ s.toList ∨ '\n' ∈ t.toList
  rw [String.toList_append, List.mem_append]

theorem breaks_intercalate {separator : String} (h : ¬ Breaks separator) (parts : List String) :
    Breaks (separator.intercalate parts) ↔ ∃ part ∈ parts, Breaks part := by
  induction parts with
  | nil => simp [Breaks]
  | cons part rest ih =>
    cases rest with
    | nil => simp
    | cons next rest =>
      rw [String.intercalate_cons_cons, breaks_append, breaks_append, or_iff_left h, ih]
      simp

theorem lineFeed_not_mem_toDigits {base : Nat} (hbase : 1 < base) (n : Nat) : '\n' ∉ Nat.toDigits base n := by
  have hdigit : ∀ digit : Nat, '\n' ≠ digit.digitChar := fun digit => (Nat.digitChar_ne '\n' (by decide)).symm
  induction n using Nat.strongRecOn with
  | ind n ih =>
    by_cases hlt : n < base
    · rw [Nat.toDigits_of_lt_base hlt, List.mem_singleton]
      exact hdigit n
    · -- The digits in front of the last are those of a smaller number.
      have hsmaller : n / base < n := Nat.div_lt_self (by omega) hbase
      rw [Nat.toDigits_of_base_le hbase (by omega), List.mem_append, List.mem_singleton]
      exact not_or.2 ⟨ih (n / base) hsmaller, hdigit (n % base)⟩

theorem not_breaks_toString (n : Nat) : ¬ Breaks (toString n) := by
  show '\n' ∉ (toString n).toList
  have hdigits : (toString n).toList = Nat.toDigits 10 n := Nat.toList_repr
  rw [hdigits]
  exact lineFeed_not_mem_toDigits (by decide) n

theorem lineFeed_not_mem_codePointEscape (c : Char) : '\n' ∉ codePointEscape c := by
  have hdigits : '\n' ∉ Nat.toDigits 16 c.toNat := lineFeed_not_mem_toDigits (by decide) c.toNat
  simp [codePointEscape, hdigits]

theorem lineFeed_not_mem_quotedChar (c : Char) : '\n' ∉ quotedChar c := by
  by_cases hc : c = '\n'
  · rw [hc]
    decide
  -- Any other character may stand for itself.
  have hself : '\n' ∉ [c] := by simpa using Ne.symm hc
  unfold quotedChar
  iterate 5
    split
    · decide
  split
  · exact hself
  split
  · exact lineFeed_not_mem_codePointEscape c
  · exact hself

theorem not_breaks_quoted (s : String) : ¬ Breaks (quoted s) := by
  have hchars : '\n' ∉ s.toList.flatMap quotedChar := by
    intro hmem
    obtain ⟨c, -, hc⟩ := List.mem_flatMap.1 hmem
    exact lineFeed_not_mem_quotedChar c hc
  show '\n' ∉ (quoted s).toList
  rw [quoted, String.toList_ofList]
  simp [hchars]

end Pushdown.Text
