import Pushdown.Json.Writer
import Pushdown.Proofs.Json.Digits
import Pushdown.Proofs.Json.Escape

/-! What has been put into a value is taken out of it again. -/

namespace Pushdown.Json

@[simp] theorem decodeText_ofList_encode (text : String) :
    decodeText (String.ofList (encode text.toList)) = some text := by
  rw [decodeText, String.toList_ofList, decode_encode, Option.map_some, String.ofList_toList]

@[simp] theorem text?_ofText (text : String) : (ofText text).text? = some text := decodeText_ofList_encode text

@[simp] theorem uint16?_ofNat (n : UInt16) : (ofNat n.toNat).uint16? = some n := by
  have hdigits : digits? 65536 (toString n.toNat) = some n.toNat := digits?_toString n.toNat_lt
  rw [uint16?, ofNat, natural?, hdigits, Option.map_some]
  exact congrArg some (UInt16.ofNat_toNat)

@[simp] theorem uint32?_ofNat (n : UInt32) : (ofNat n.toNat).uint32? = some n := by
  have hdigits : digits? 4294967296 (toString n.toNat) = some n.toNat := digits?_toString n.toNat_lt
  rw [uint32?, ofNat, natural?, hdigits, Option.map_some]
  exact congrArg some (UInt32.ofNat_toNat)

theorem mapM_map_eq_some {α β : Type} (write : α → β) {read : β → Option α} (h : ∀ a, read (write a) = some a)
    (members : List α) : (members.map write).mapM read = some members := by
  induction members with
  | nil => rfl
  | cons member members ih => simp [h, ih]

theorem foldlM_map_eq_some {α β σ : Type} (write : α → β) {step : σ → β → Option σ} {next : σ → α → σ}
    (h : ∀ state a, step state (write a) = some (next state a)) (members : List α) (start : σ) :
    (members.map write).foldlM step start = some (members.foldl next start) := by
  induction members generalizing start with
  | nil => rfl
  | cons member members ih => simp [h, ih]

theorem listOf?_array {α : Type} (write : α → Json) (item? : Json → Option α) (h : ∀ a, item? (write a) = some a)
    (items : List α) : (array (items.map write)).listOf? item? = some items :=
  mapM_map_eq_some write h items

@[simp] theorem fields?_ofFields (fields : List (String × Json)) : (ofFields fields).fields? = some fields := by
  apply mapM_map_eq_some
  rintro ⟨key, value⟩
  simp

@[simp] theorem record?_ofFields (names : List String) (fields : List (String × Json)) :
    (ofFields fields).record? names = names.mapM (single? fields) := by
  have hfields := fields?_ofFields fields
  rw [ofFields] at hfields ⊢
  rw [record?, hfields]
  rfl

end Pushdown.Json
