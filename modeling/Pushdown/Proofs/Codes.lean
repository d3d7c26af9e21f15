import Pushdown.Grammar.Basic

/-! Codes and positions. Within the size of a table, a position and its code determine each other. -/

namespace Pushdown

theorem SymbolId.toNat_code_ofIndex (i : Nat) (hi : i < 65280) : (ofIndex i).code.toNat = 256 + i := by
  change (firstCode + i.toUInt16).toNat = 256 + i
  rw [UInt16.toNat_add, Nat.toUInt16, UInt16.toNat_ofNat']
  change (256 + i % 65536) % 65536 = 256 + i
  omega

theorem SymbolId.code_lt_firstCode_iff (id : SymbolId) : id.code < firstCode ↔ id.code.toNat < 256 :=
  UInt16.lt_iff_toNat_lt

theorem SymbolId.eq_ofIndex_of_code (id : SymbolId) (i : Nat) (h : id.code.toNat = 256 + i) :
    id = ofIndex i := by
  have hlt := id.code.toNat_lt
  have hcode : id.code = (ofIndex i).code :=
    UInt16.toNat_inj.1 (h.trans (toNat_code_ofIndex i (by omega)).symm)
  exact congrArg SymbolId.mk hcode

theorem SymbolId.index_of_code (id : SymbolId) (i : Nat) (h : id.code.toNat = 256 + i) : id.index = i := by
  have hle : ¬ id.code < firstCode := by
    rw [code_lt_firstCode_iff]
    omega
  have hfirst : firstCode.toNat = 256 := rfl
  rw [index, if_neg hle, h, hfirst]
  omega

theorem Label.index_injective (a b : Label) (h : a.index = b.index) : a = b :=
  congrArg Label.mk (UInt16.toNat_inj.1 h)

theorem Label.index_labelAt (i : Nat) (hi : i < 65536) : (Grammar.labelAt i).index = i := by
  change (Nat.toUInt16 i).toNat = i
  rw [Nat.toUInt16, UInt16.toNat_ofNat']
  exact Nat.mod_eq_of_lt hi

end Pushdown
