import Pushdown.Json.Basic
import Pushdown.Json.Reader
import Pushdown.Proofs.Text.Pattern

/-! Numbers in decimal digits, as they are written by `toString`. -/

namespace Pushdown.Json

theorem toList_toString (n : Nat) : (toString n).toList = Nat.toDigits 10 n := Nat.toList_repr

theorem isDigit_of_mem_toString {n : Nat} {c : Char} (h : c ∈ (toString n).toList) : c.isDigit = true := by
  rw [toList_toString] at h
  exact Nat.isDigit_of_mem_toDigits (by decide) (by decide) h

theorem digits?_toString {n bound : Nat} (h : n < bound) : digits? bound (toString n) = some n := by
  have hall : (toString n).toList.all Char.isDigit = true :=
    List.all_eq_true.2 fun _ hc => isDigit_of_mem_toString hc
  have hvalue : digitsValue (toString n).toList = n := by
    rw [toList_toString]
    exact Nat.ofDigitChars_ten_toDigits
  simp only [digits?, hall, hvalue, h, decide_true, Bool.and_self, if_true]

theorem digitChar_ne_zero (n : Nat) (hpos : 0 < n) (hlt : n < 10) : n.digitChar ≠ '0' := by
  have hall : ∀ n < 10, 0 < n → n.digitChar ≠ '0' := by decide
  exact hall n hlt hpos

/-- Only zero is written with a zero in front. -/
theorem exists_toDigits_eq_cons (n : Nat) (h : 0 < n) :
    ∃ first rest, Nat.toDigits 10 n = first :: rest ∧ first ≠ '0' := by
  induction n using Nat.strongRecOn with
  | ind n ih =>
    by_cases hlt : n < 10
    · exact ⟨n.digitChar, [], Nat.toDigits_of_lt_base hlt, digitChar_ne_zero n h hlt⟩
    · -- The digits in front of the last are those of a smaller number.
      obtain ⟨first, rest, hdigits, hfirst⟩ := ih (n / 10) (by omega) (by omega)
      refine ⟨first, rest ++ [(n % 10).digitChar], ?_, hfirst⟩
      rw [Nat.toDigits_of_base_le (by decide) (by omega), hdigits, List.cons_append]

theorem naturalPattern_accepts_toString (n : Nat) : naturalPattern.accepts (toString n).toList = true := by
  rw [Pattern.accepts_iff, toList_toString]
  rcases Nat.eq_zero_or_pos n with rfl | hpos
  · rw [Nat.toDigits_zero]
    exact .left (Pattern.matches_one_iff.2 rfl)
  · obtain ⟨first, rest, hdigits, hfirst⟩ := exists_toDigits_eq_cons n hpos
    have hall : ∀ c ∈ first :: rest, c.isDigit = true := by
      intro c hc
      rw [← hdigits] at hc
      exact Nat.isDigit_of_mem_toDigits (by decide) (by decide) hc
    obtain ⟨hdigit, hrest⟩ := List.forall_mem_cons.1 hall
    rw [hdigits]
    refine .right (Pattern.matches_seq_iff.2 ⟨[first], rest, rfl, ?_, Pattern.matches_star_char_iff.2 hrest⟩)
    exact .char (by simp [hdigit, hfirst])

/-- No sign, fraction or exponent is written. -/
theorem numberPattern_accepts_toString (n : Nat) : numberPattern.accepts (toString n).toList = true := by
  have hnatural := (Pattern.accepts_iff _ _).1 (naturalPattern_accepts_toString n)
  rw [Pattern.accepts_iff]
  refine Pattern.matches_seq_iff.2 ⟨[], _, rfl, .right .empty, ?_⟩
  refine Pattern.matches_seq_iff.2 ⟨_, [], (List.append_nil _).symm, hnatural, ?_⟩
  exact Pattern.matches_seq_iff.2 ⟨[], [], rfl, .right .empty, .right .empty⟩

theorem isNumberChar_of_isDigit {c : Char} (h : c.isDigit = true) : isNumberChar c = true := by
  simp [isNumberChar, h]

theorem ne_of_isDigit {c d : Char} (h : c.isDigit = true) (hd : d.isDigit = false) : c ≠ d := by
  rintro rfl
  exact Bool.false_ne_true (hd.symm.trans h)

theorem encodeChar_of_isDigit {c : Char} (h : c.isDigit = true) : encodeChar c = [c] := by
  have hcontrol : ¬ c < ' ' := by
    have hrange : 48 ≤ c.toNat ∧ c.toNat ≤ 57 := by
      simpa [Char.isDigit, UInt32.le_iff_toNat_le] using h
    show ¬ c.toNat < 32
    omega
  have hne : ∀ d : Char, d.isDigit = false → c ≠ d := fun _ => ne_of_isDigit h
  simp [encodeChar, hne, hcontrol]

/-- Digits need no escapes, so a number between quotes is a text like any other. -/
theorem ofList_encode_toString (n : Nat) : String.ofList (encode (toString n).toList) = toString n := by
  have hsame : ∀ digits : List Char, (∀ c ∈ digits, c.isDigit = true) → encode digits = digits := by
    intro digits
    induction digits with
    | nil => exact fun _ => rfl
    | cons c digits ih =>
      intro hall
      obtain ⟨hc, hdigits⟩ := List.forall_mem_cons.1 hall
      have hcons : encode (c :: digits) = encodeChar c ++ encode digits := List.flatMap_cons
      rw [hcons, encodeChar_of_isDigit hc, ih hdigits, List.singleton_append]
  rw [hsame _ fun _ => isDigit_of_mem_toString, String.ofList_toList]

end Pushdown.Json
