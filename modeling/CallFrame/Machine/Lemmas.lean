import CallFrame.Machine.Basic

namespace CallFrame.Machine

theorem lowBits_lowBits (a b : Nat) (v : Value) : lowBits a (lowBits b v) = lowBits (min a b) v := by
  apply BitVec.eq_of_getLsbD_eq
  intro i bound
  -- Bit `i` survives both cuts exactly if it lies below the narrower one.
  simp only [lowBits, BitVec.getLsbD_setWidth, Nat.lt_min, bound, decide_true, Bool.true_and, Bool.decide_and,
    Bool.and_assoc]

@[simp] theorem memory_set (m : Machine) (r : Register) (v : Value) : (m.set r v).memory = m.memory := rfl

@[simp] theorem cells_poke (m : Machine) (addr : Addr) (n : Nat) (v : Value) :
    (m.poke addr n v).cells = m.cells := rfl

@[simp] theorem get_poke (m : Machine) (addr : Addr) (n : Nat) (v : Value) (r : Register) :
    (m.poke addr n v).get r = m.get r := rfl

theorem get_set_same (m : Machine) {r s : Register} (v : Value) (same : s.cell = r.cell) :
    (m.set r v).get s = lowBits (min s.cls.bits.toNat r.cls.bits.toNat) v := by
  simp [get, set, same, lowBits_lowBits]

theorem get_set_other (m : Machine) {r s : Register} (v : Value) (other : s.cell ≠ r.cell) :
    (m.set r v).get s = m.get s := by
  simp [get, set, other]

theorem step_narrow (isa : Isa) {i : Instr} (m : Machine) (narrow : i.overwide = false) :
    step isa i m = .ok () (m.effect isa i) := by
  simp only [step, narrow]
  rfl

end CallFrame.Machine
