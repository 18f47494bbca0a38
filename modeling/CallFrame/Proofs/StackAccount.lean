import CallFrame.Isa.Names
import CallFrame.Proofs.Execution
import CallFrame.Sink.Code

/-! The static account of the stack pointer against its motion in a run. -/
namespace CallFrame

/-- The forms of stack motion that the account knows: pushes and pops, immediate arithmetic from the stack pointer to
itself, and writeback to it by an instruction that does not load over it. -/
def Instr.movesStack (isa : Isa) : Instr → Bool
  | .push _ | .pop _ => true
  | .addImm dst src _ | .subImm dst src _ => dst = isa.stackPointer && src = isa.stackPointer
  | .store _ mem => mem.base = isa.stackPointer && mem.movesBase
  | .load dst mem => mem.base = isa.stackPointer && mem.movesBase && dst.cell ≠ isa.stackPointer.cell
  | _ => false

/-- If the instruction writes the stack pointer's cell at all, it does so in one of the known forms. -/
def Instr.Accountable (isa : Isa) (i : Instr) : Prop :=
  isa.stackPointer.cell ∈ i.writtenCells isa → i.movesStack isa = true

instance (isa : Isa) (i : Instr) : Decidable (i.Accountable isa) := inferInstanceAs (Decidable (_ → _))

variable {isa : Isa}

theorem MemOperand.stackShift_untouched {mem : MemOperand} (untouched : isa.stackPointer.cell ∉ mem.writtenCells) :
    mem.stackShift isa.stackPointer = 0 := by
  unfold MemOperand.stackShift
  split
  · rename_i moved
    obtain ⟨base, moves⟩ := moved
    exact (untouched (by simp [writtenCells, moves, base])).elim
  · rfl

theorem Instr.stackShift_untouched {i : Instr} (untouched : isa.stackPointer.cell ∉ i.writtenCells isa) :
    i.stackShift isa.stackPointer = 0 := by
  cases i with
  | push r | pop r => simp [writtenCells] at untouched
  | store src mem => exact MemOperand.stackShift_untouched untouched
  | load dst mem =>
    simp only [writtenCells, List.mem_cons, not_or] at untouched
    exact MemOperand.stackShift_untouched untouched.2
  | addImm dst src imm | subImm dst src imm =>
    have other : dst ≠ isa.stackPointer := by
      intro same
      exact untouched (by simp [writtenCells, same])
    simp [stackShift, other]
  | mov dst | movImm dst | add dst | sub dst => rfl

namespace Machine

theorem sub_ofNat (a : Addr) (n : Nat) : a - BitVec.ofNat 64 n = a + BitVec.ofInt 64 (-(n : Int)) := by
  rw [BitVec.ofInt_neg, BitVec.ofInt_natCast, BitVec.sub_eq_add_neg]

theorem sp_writeBack (m : Machine) {mem : MemOperand} (base : mem.base = isa.stackPointer)
    (moves : mem.movesBase = true) :
    (m.writeBack mem).sp isa = m.sp isa + BitVec.ofInt 64 (mem.stackShift isa.stackPointer) := by
  have shift : mem.stackShift isa.stackPointer = mem.disp.toInt := by simp [MemOperand.stackShift, base, moves]
  rw [writeBack, if_pos moves, shift, indexed, base, sp_set64]
  rfl

theorem sp_effect_moved (m : Machine) {i : Instr} (moved : i.movesStack isa = true) :
    (m.effect isa i).sp isa = m.sp isa + BitVec.ofInt 64 (i.stackShift isa.stackPointer) := by
  cases i with
  | push r =>
    simp only [effect, sp_poke, sp_set64, Instr.stackShift]
    exact sub_ofNat _ _
  | pop r =>
    -- The stack pointer is written last, so it does not matter which register was loaded.
    simp only [effect, sp_set64, Instr.stackShift, BitVec.ofInt_natCast]
  | addImm dst src imm =>
    simp only [Instr.movesStack, Bool.and_eq_true, decide_eq_true_eq] at moved
    obtain ⟨rfl, rfl⟩ := moved
    simp only [effect, sp_set64, Instr.stackShift, and_self, if_true, BitVec.ofInt_natCast]
    rfl
  | subImm dst src imm =>
    simp only [Instr.movesStack, Bool.and_eq_true, decide_eq_true_eq] at moved
    obtain ⟨rfl, rfl⟩ := moved
    simp only [effect, sp_set64, Instr.stackShift, and_self, if_true]
    exact sub_ofNat _ _
  | store src mem =>
    simp only [Instr.movesStack, Bool.and_eq_true, decide_eq_true_eq] at moved
    obtain ⟨base, moves⟩ := moved
    exact sp_writeBack m base moves
  | load dst mem =>
    simp only [Instr.movesStack, Bool.and_eq_true, decide_eq_true_eq] at moved
    obtain ⟨⟨base, moves⟩, other⟩ := moved
    rw [effect, sp_set_other isa _ _ other]
    exact sp_writeBack m base moves
  | mov | movImm | add | sub => cases moved

theorem sp_effect (m : Machine) {i : Instr} (accountable : i.Accountable isa) :
    (m.effect isa i).sp isa = m.sp isa + BitVec.ofInt 64 (i.stackShift isa.stackPointer) := by
  by_cases written : isa.stackPointer.cell ∈ i.writtenCells isa
  · exact sp_effect_moved m (accountable written)
  · have kept : (m.effect isa i).sp isa = m.sp isa := sp_congr (m.cells_effect written)
    rw [kept, Instr.stackShift_untouched written]
    exact (BitVec.add_zero _).symm

theorem sp_effects {code : List Instr} (m : Machine) (accountable : ∀ i ∈ code, i.Accountable isa) :
    (m.effects isa code).sp isa = m.sp isa + BitVec.ofInt 64 (stackShift isa.stackPointer code) := by
  induction code generalizing m with
  | nil => simp [stackShift]
  | cons i code ih =>
    obtain ⟨first, others⟩ := List.forall_mem_cons.mp accountable
    calc (m.effects isa (i :: code)).sp isa
        = (m.effect isa i).sp isa + BitVec.ofInt 64 (stackShift isa.stackPointer code) := ih _ others
      _ = m.sp isa + BitVec.ofInt 64 (i.stackShift isa.stackPointer) +
            BitVec.ofInt 64 (stackShift isa.stackPointer code) := by rw [sp_effect m first]
      _ = m.sp isa + BitVec.ofInt 64 (stackShift isa.stackPointer (i :: code)) := by
            rw [stackShift, BitVec.ofInt_add, BitVec.add_assoc]

end Machine

/-- Recorded code that runs to its end has moved the stack pointer by its static account. -/
theorem run_moves_stack_by_account (isa : Isa) (code : Code) (m m' : Machine)
    (accountable : ∀ i ∈ code.toList, i.Accountable isa) (done : Machine.run isa code.toList m = .ok () m') :
    m'.sp isa = m.sp isa + BitVec.ofInt 64 (code.stackShift isa.stackPointer) := by
  rw [Machine.run_ok done]
  exact m.sp_effects accountable

/-- The stack pointer is popped into itself, pushed through its narrow view, stored below itself and moved past zero. -/
theorem run_moves_stack_past_zero :
    let code : Code :=
      ⟨#[.pop X86.rsp, .push (.gp32 4), .store X86.rsp (.preIndex X86.rsp (-24)),
        .load (X86.xmm 4) (.postIndex X86.rsp 16), .addImm X86.rax X86.rsp 8, .subImm X86.rsp X86.rsp 4294967295]⟩
    let m := (Machine.new .x86_64).set64 X86.rsp 5
    ∃ m', (∀ i ∈ code.toList, i.Accountable .x86_64) ∧ Machine.run .x86_64 code.toList m = .ok () m' ∧
      code.stackShift X86.rsp = -4294967299 ∧ m'.sp .x86_64 = 0xffffffff00000002 := by
  intro code m
  have accountable : ∀ i ∈ code.toList, i.Accountable .x86_64 := by decide
  have narrow : ∀ i ∈ code.toList, i.writtenBytes ≤ 16 := by decide
  have done : Machine.run .x86_64 code.toList m = .ok () (m.effects .x86_64 code.toList) := m.run_of_narrow narrow
  have shift : code.stackShift X86.rsp = -4294967299 := by decide
  have start : m.sp .x86_64 = 5 := Machine.sp_set64 .x86_64 _ _
  have moved := run_moves_stack_by_account .x86_64 code m _ accountable done
  refine ⟨_, accountable, done, shift, ?_⟩
  rw [moved, start, show code.stackShift Isa.x86_64.stackPointer = -4294967299 from shift]
  decide

/-- A move into the stack pointer is invisible to the account. -/
example : ¬ (Instr.mov X86.rsp X86.rax).Accountable .x86_64 ∧ stackShift X86.rsp [.mov X86.rsp X86.rax] = 0 := by
  decide

end CallFrame
