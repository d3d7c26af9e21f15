import Pushdown.Json.Reader

/-! Texts between quotes. What is written for a text is one string, and it stands for this text. -/

namespace Pushdown

theorem Text.hexValue?_hexDigit (n : Nat) (h : n < 16) : hexValue? (hexDigit n) = some n := by
  have hall : ∀ n < 16, hexValue? (hexDigit n) = some n := by decide
  exact hall n h

namespace Json

open Text (hexDigit hexNumber? hexValue?_hexDigit)

/-- The ways in which a character is written. -/
theorem encodeChar_cases (c : Char) :
    (∃ letter, encodeChar c = ['\\', letter] ∧ letter ≠ 'u' ∧ escaped? letter = some c) ∨
    (∃ high low, encodeChar c = ['\\', 'u', '0', '0', high, low] ∧
      hexNumber? ['0', '0', high, low] = some c.toNat ∧ c.toNat < 32) ∨
    encodeChar c = [c] ∧ c ≠ '"' ∧ c ≠ '\\' ∧ ¬ c < ' ' := by
  unfold encodeChar
  -- Seven characters have a letter that stands for them behind a backslash.
  iterate 7
    split
    · rename_i h
      exact .inl ⟨_, rfl, by decide, by rw [h]; rfl⟩
  split
  · rename_i h
    have hlt : c.toNat < 32 := h
    refine .inr (.inl ⟨_, _, rfl, ?_, hlt⟩)
    have hhigh := hexValue?_hexDigit (c.toNat / 16) (by omega)
    have hlow := hexValue?_hexDigit (c.toNat % 16) (by omega)
    have hzero : Text.hexValue? '0' = some 0 := rfl
    simp [hexNumber?, hhigh, hlow, hzero]
    omega
  · rename_i hquote hbackslash _ _ _ _ _ hcontrol
    exact .inr (.inr ⟨rfl, hquote, hbackslash, hcontrol⟩)

theorem decode_encodeChar_append (c : Char) (rest : List Char) :
    decode (encodeChar c ++ rest) = (decode rest).map (c :: ·) := by
  rcases encodeChar_cases c with ⟨letter, heq, hletter, hescaped⟩ | ⟨high, low, heq, hnumber, hlt⟩ | ⟨heq, -, hne, -⟩
  · rw [heq]
    simp [decode, hescaped, hletter]
  · have hlead : isLeadingSurrogate c.toNat = false := by
      simp [isLeadingSurrogate]
      omega
    have htrail : isTrailingSurrogate c.toNat = false := by
      simp [isTrailingSurrogate]
      omega
    rw [heq]
    simp [decode, hnumber, hlead, htrail]
  · rw [heq]
    simp [decode, hne]

theorem decode_encode (text : List Char) : decode (encode text) = some text := by
  induction text with
  | nil => rfl
  | cons c text ih =>
    rw [encode, List.flatMap_cons, decode_encodeChar_append]
    rw [encode] at ih
    rw [ih, Option.map_some]

theorem stringBody?_encodeChar_append (c : Char) (rest : List Char) :
    stringBody? (encodeChar c ++ rest) =
      (stringBody? rest).map fun (body, behind) => (encodeChar c ++ body, behind) := by
  rcases encodeChar_cases c with ⟨letter, heq, hletter, hescaped⟩ | ⟨high, low, heq, hnumber, -⟩ |
    ⟨heq, hquote, hbackslash, hcontrol⟩
  · rw [heq]
    simp [stringBody?, hescaped, hletter]
  · rw [heq]
    simp [stringBody?, hnumber]
  · rw [heq]
    simp [stringBody?, hbackslash, hcontrol]

/-- What is written for a text is read up to the quote behind it. -/
theorem stringBody?_encode (text rest : List Char) :
    stringBody? (encode text ++ '"' :: rest) = some (encode text, rest) := by
  induction text with
  | nil => simp [encode, stringBody?]
  | cons c text ih =>
    have hcons : encode (c :: text) = encodeChar c ++ encode text := List.flatMap_cons
    rw [hcons, List.append_assoc, stringBody?_encodeChar_append, ih, Option.map_some]

end Json

end Pushdown
