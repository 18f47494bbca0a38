import CallFrame.Asm.A64

namespace CallFrame.Asm.A64

def fieldValue (field : UInt32) (shifted : Bool) : Nat := if shifted then field.toNat * 4096 else field.toNat

theorem toNat_high (imm : UInt32) : (imm >>> 12).toNat = imm.toNat / 4096 := by
  rw [UInt32.toNat_shiftRight]
  exact Nat.shiftRight_eq_div_pow imm.toNat 12

theorem toNat_low (imm : UInt32) : (imm &&& 0xFFF).toNat = imm.toNat % 4096 := by
  rw [UInt32.toNat_and]
  exact Nat.and_two_pow_sub_one_eq_mod imm.toNat 12

theorem high_eq_zero_iff (imm : UInt32) : imm >>> 12 = 0 ↔ imm.toNat < 4096 := by
  rw [← UInt32.toNat_inj, toNat_high, UInt32.toNat_zero]
  omega

theorem low_eq_zero_iff (imm : UInt32) : imm &&& 0xFFF = 0 ↔ imm.toNat % 4096 = 0 := by
  rw [← UInt32.toNat_inj, toNat_low, UInt32.toNat_zero]

theorem fieldValue_high (imm : UInt32) : fieldValue (imm >>> 12) true = imm.toNat / 4096 * 4096 := by
  rw [fieldValue, if_pos rfl, toNat_high]

theorem fieldValue_low (imm : UInt32) : fieldValue (imm &&& 0xFFF) false = imm.toNat % 4096 := by
  rw [fieldValue, if_neg (by decide), toNat_low]

/-- One line where one of the parts is zero, else the high part first and the low part on top of it. -/
theorem arithImm_cases (op : ArithOp) (dst src : Register) (imm : UInt32) :
    (imm.toNat < 4096 ∧ arithImm op dst src imm = [.arithImm op dst src (imm &&& 0xFFF) false]) ∨
      (4096 ≤ imm.toNat ∧ imm.toNat % 4096 = 0 ∧
        arithImm op dst src imm = [.arithImm op dst src (imm >>> 12) true]) ∨
      (4096 ≤ imm.toNat ∧ imm.toNat % 4096 ≠ 0 ∧
        arithImm op dst src imm =
          [.arithImm op dst src (imm >>> 12) true, .arithImm op dst dst (imm &&& 0xFFF) false]) := by
  unfold arithImm
  simp only [high_eq_zero_iff, low_eq_zero_iff]
  by_cases small : imm.toNat < 4096
  · exact .inl ⟨small, if_pos small⟩
  · rw [if_neg small]
    by_cases whole : imm.toNat % 4096 = 0
    · exact .inr (.inl ⟨by omega, whole, if_pos whole⟩)
    · exact .inr (.inr ⟨by omega, whole, if_neg whole⟩)

end CallFrame.Asm.A64
