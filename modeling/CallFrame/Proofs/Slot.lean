import CallFrame.Instr.StackMotion
import CallFrame.Proofs.Execution
import CallFrame.Sequence

namespace CallFrame

namespace Isa

variable {isa : Isa} {r s : Register} {file : RegFile}

theorem slotFile?_cases (savable : isa.slotFile? r = some file) :
    (isa = .x86_64 ∧ file = .general ∧ r.cls = .gp64 ∧ r.index ≠ 4) ∨
    (isa = .x86_64 ∧ file = .vector ∧ r.cls = .vec128) ∨
    (isa = .aarch64 ∧ file = .general ∧ r.cls = .gp64 ∧ r.index ≠ 31) ∨
    (isa = .aarch64 ∧ file = .vector ∧ (r.cls = .vec64 ∨ r.cls = .vec128)) := by
  cases isa with
  | x86_64 =>
    simp only [slotFile?] at savable
    split at savable
    · rename_i allowed
      split at savable
      · rename_i general
        simp only [Option.some.injEq] at savable
        refine Or.inl ⟨rfl, savable.symm, general, ?_⟩
        intro pointer
        exact allowed.2 (by cases r; cases general; cases pointer; rfl)
      · split at savable
        · rename_i vector
          simp only [Option.some.injEq] at savable
          exact Or.inr (Or.inl ⟨rfl, savable.symm, vector⟩)
        · cases savable
    · cases savable
  | aarch64 =>
    simp only [slotFile?] at savable
    split at savable
    · rename_i general
      simp only [Option.some.injEq] at savable
      refine Or.inr (Or.inr (Or.inl ⟨rfl, savable.symm, general.1, ?_⟩))
      intro pointer
      rw [pointer] at general
      exact absurd general.2 (by decide)
    · split at savable
      · rename_i vector
        simp only [Option.some.injEq] at savable
        exact Or.inr (Or.inr (Or.inr ⟨rfl, savable.symm, vector.1⟩))
      · cases savable

theorem slotFile?_file (savable : isa.slotFile? r = some file) : file = r.cls.file := by
  rcases slotFile?_cases savable with ⟨-, rfl, cls, -⟩ | ⟨-, rfl, cls⟩ | ⟨-, rfl, cls, -⟩ | ⟨-, rfl, cls | cls⟩ <;>
    rw [cls] <;> rfl

theorem cell_ne_stackPointer (savable : isa.slotFile? r = some file) : r.cell ≠ isa.stackPointer.cell := by
  intro same
  simp only [Register.cell, Cell.mk.injEq] at same
  obtain ⟨sameFile, sameIndex⟩ := same
  rcases slotFile?_cases savable with ⟨rfl, -, -, other⟩ | ⟨rfl, -, cls⟩ | ⟨rfl, -, -, other⟩ | ⟨rfl, -, cls | cls⟩
  · exact other sameIndex
  · rw [cls] at sameFile; cases sameFile
  · exact other sameIndex
  · rw [cls] at sameFile; cases sameFile
  · rw [cls] at sameFile; cases sameFile

theorem bits_eq_bytes (savable : isa.slotFile? r = some file) : r.cls.bits.toNat = 8 * r.bytes.toNat := by
  unfold Register.bytes
  rcases slotFile?_cases savable with ⟨-, -, cls, -⟩ | ⟨-, -, cls⟩ | ⟨-, -, cls, -⟩ | ⟨-, -, cls | cls⟩ <;>
    rw [cls] <;> rfl

theorem bytes_le_slot (savable : isa.slotFile? r = some file) :
    r.bytes.toNat ≤ (isa.slotBytes file).toNat := by
  unfold Register.bytes
  rcases slotFile?_cases savable with ⟨rfl, rfl, cls, -⟩ | ⟨rfl, rfl, cls⟩ | ⟨rfl, rfl, cls, -⟩ |
    ⟨rfl, rfl, cls | cls⟩ <;> rw [cls] <;> decide

theorem slotBytes_le (isa : Isa) (file : RegFile) : (isa.slotBytes file).toNat ≤ 16 := by
  cases isa <;> cases file <;> decide

end Isa

namespace Machine

variable {isa : Isa} {r s : Register} {file : RegFile}

/-- Opens a slot of `bytes` bytes and stores the register at its bottom. -/
def pushSlot (isa : Isa) (m : Machine) (r : Register) (bytes : UInt32) : Machine :=
  let top := m.sp isa - BitVec.ofNat 64 bytes.toNat
  (m.set64 isa.stackPointer top).poke top r.bytes.toNat (m.get r)

/-- Reads the register from the bottom of a slot of `bytes` bytes and closes the slot. -/
def popSlot (isa : Isa) (m : Machine) (r : Register) (bytes : UInt32) : Machine :=
  (m.set r (m.read (m.sp isa) r.bytes.toNat)).set64 isa.stackPointer (m.sp isa + BitVec.ofNat 64 bytes.toNat)

theorem effects_saveCode (m : Machine) (savable : isa.slotFile? r = some file) :
    m.effects isa (isa.saveCode r file) = m.pushSlot isa r (isa.slotBytes file) := by
  have other := Isa.cell_ne_stackPointer savable
  rcases Isa.slotFile?_cases savable with ⟨rfl, rfl, cls, -⟩ | ⟨rfl, rfl, cls⟩ | ⟨rfl, rfl, -⟩ | ⟨rfl, rfl, -⟩
  · have bytes : r.bytes = 8 := by rw [Register.bytes, cls]; rfl
    simp only [Isa.saveCode, effects_cons, effects_nil, effect, pushSlot, bytes]
    rfl
  · -- The stack pointer moves first, and the register is not the stack pointer.
    have top : (m.set64 X86.rsp (m.get64 X86.rsp - 16)).get64 X86.rsp = m.get64 X86.rsp - 16 :=
      sp_set64 .x86_64 m _
    have value : (m.set64 X86.rsp (m.get64 X86.rsp - 16)).get r = m.get r := get_set64_other m _ other
    change (m.set64 X86.rsp (m.get64 X86.rsp - 16)).poke
      ((m.set64 X86.rsp (m.get64 X86.rsp - 16)).effectiveAddress (.ofBase X86.rsp)) r.bytes.toNat
      ((m.set64 X86.rsp (m.get64 X86.rsp - 16)).get r) = _
    rw [effectiveAddress_ofBase, top, value]
    rfl
  all_goals
    have top : m.indexed (.preIndex A64.sp (-16)) = m.sp .aarch64 - 16 := by
      rw [BitVec.sub_eq_add_neg]
      rfl
    simp only [Isa.saveCode, effects_cons, effects_nil, effect, writeBack, effectiveAddress]
    rw [top]
    rfl

theorem effects_reloadCode (m : Machine) (savable : isa.slotFile? r = some file) :
    m.effects isa (isa.reloadCode r file) = m.popSlot isa r (isa.slotBytes file) := by
  have other := Isa.cell_ne_stackPointer savable
  rcases Isa.slotFile?_cases savable with ⟨rfl, rfl, cls, -⟩ | ⟨rfl, rfl, cls⟩ | ⟨rfl, rfl, -⟩ | ⟨rfl, rfl, -⟩
  · have bytes : r.bytes = 8 := by rw [Register.bytes, cls]; rfl
    simp only [Isa.reloadCode, effects_cons, effects_nil, effect, popSlot, bytes]
    rfl
  · have top : (m.set r (m.read (m.get64 X86.rsp) r.bytes.toNat)).get64 X86.rsp = m.get64 X86.rsp :=
      sp_set_other .x86_64 m _ other
    simp only [Isa.reloadCode, effects_cons, effects_nil, effect, writeBack_ofBase, effectiveAddress_ofBase, top]
    rfl
  all_goals
    -- The writeback comes first here; the two writes are to different cells.
    simp only [Isa.reloadCode, effects_cons, effects_nil, effect, popSlot]
    exact set_comm m _ _ (Ne.symm other)

/-! ### What a slot changes -/

@[simp] theorem sp_pushSlot (m : Machine) (r : Register) (bytes : UInt32) :
    (m.pushSlot isa r bytes).sp isa = m.sp isa - BitVec.ofNat 64 bytes.toNat := by
  simp [pushSlot]

@[simp] theorem memory_pushSlot (m : Machine) (r : Register) (bytes : UInt32) :
    (m.pushSlot isa r bytes).memory =
      m.memory.store (m.sp isa - BitVec.ofNat 64 bytes.toNat) r.bytes.toNat (m.get r) := rfl

theorem cells_pushSlot (m : Machine) (r : Register) (bytes : UInt32) {c : Cell}
    (other : c ≠ isa.stackPointer.cell) : (m.pushSlot isa r bytes).cells c = m.cells c :=
  cells_set64_other m _ other

@[simp] theorem sp_popSlot (m : Machine) (r : Register) (bytes : UInt32) :
    (m.popSlot isa r bytes).sp isa = m.sp isa + BitVec.ofNat 64 bytes.toNat := by
  simp [popSlot]

@[simp] theorem memory_popSlot (m : Machine) (r : Register) (bytes : UInt32) :
    (m.popSlot isa r bytes).memory = m.memory := rfl

theorem cells_popSlot (m : Machine) (bytes : UInt32) {c : Cell} (other : c ≠ isa.stackPointer.cell)
    (different : c ≠ r.cell) : (m.popSlot isa r bytes).cells c = m.cells c :=
  (cells_set64_other _ _ other).trans (cells_set_other m _ different)

theorem get_popSlot (m : Machine) (bytes : UInt32) (other : r.cell ≠ isa.stackPointer.cell) :
    (m.popSlot isa r bytes).get r = lowBits r.cls.bits.toNat (m.read (m.sp isa) r.bytes.toNat) := by
  have kept := get_set64_other (m.set r (m.read (m.sp isa) r.bytes.toNat))
    (m.sp isa + BitVec.ofNat 64 bytes.toNat) other
  have value := get_set_same m (m.read (m.sp isa) r.bytes.toNat) (r := r) rfl
  rw [Nat.min_self] at value
  exact kept.trans value

/-! ### Padding -/

theorem sp_effects_padCode (m : Machine) (bytes : UInt32) :
    (m.effects isa (isa.padCode bytes)).sp isa = m.sp isa - BitVec.ofNat 64 bytes.toNat := by
  cases isa with
  | x86_64 =>
    simp only [Isa.padCode]
    split
    · rename_i eight
      subst eight
      exact sp_set64 .x86_64 m _
    · exact sp_set64 .x86_64 m _
  | aarch64 => exact sp_set64 .aarch64 m _

theorem memory_effects_padCode (m : Machine) (bytes : UInt32) :
    Memory.SameButBelow (m.sp isa) bytes.toNat m.memory (m.effects isa (isa.padCode bytes)).memory := by
  cases isa with
  | x86_64 =>
    simp only [Isa.padCode]
    split
    · rename_i eight
      subst eight
      -- The pushed register is of no interest, but it does land in memory.
      exact Memory.SameButBelow.store m.memory (m.sp .x86_64) (m.get X86.rax) (Nat.le_refl 8)
    · exact Memory.SameButBelow.refl _ _ _
  | aarch64 => exact Memory.SameButBelow.refl _ _ _

end Machine

/-! ### Static facts -/

namespace Isa

variable {isa : Isa} {r : Register} {file : RegFile}

theorem narrow_saveCode (savable : isa.slotFile? r = some file) :
    ∀ i ∈ isa.saveCode r file, i.writtenBytes ≤ 16 := by
  have small := Nat.le_trans (bytes_le_slot savable) (slotBytes_le isa file)
  cases isa <;> cases file <;> simp [saveCode, Instr.writtenBytes, small]

theorem narrow_reloadCode (isa : Isa) (r : Register) (file : RegFile) :
    ∀ i ∈ isa.reloadCode r file, i.writtenBytes ≤ 16 := by
  cases isa <;> cases file <;> simp [reloadCode, Instr.writtenBytes]

theorem narrow_padCode (isa : Isa) (bytes : UInt32) : ∀ i ∈ isa.padCode bytes, i.writtenBytes ≤ 16 := by
  cases isa with
  | x86_64 =>
    simp only [padCode]
    split
    · intro i member
      rw [List.mem_singleton.mp member]
      decide
    · simp [Instr.writtenBytes]
  | aarch64 => simp [padCode, Instr.writtenBytes]

theorem writtenCells_saveCode (isa : Isa) (r : Register) (file : RegFile) :
    writtenCells isa (isa.saveCode r file) = [isa.stackPointer.cell] := by
  cases isa <;> cases file <;> rfl

theorem writtenCells_reloadCode (isa : Isa) (r : Register) (file : RegFile) :
    writtenCells isa (isa.reloadCode r file) = [r.cell, isa.stackPointer.cell] := by
  cases isa <;> cases file <;> rfl

theorem writtenCells_padCode (isa : Isa) (bytes : UInt32) :
    writtenCells isa (isa.padCode bytes) = [isa.stackPointer.cell] := by
  cases isa with
  | x86_64 =>
    simp only [padCode]
    split <;> rfl
  | aarch64 => rfl

theorem stackShift_saveCode (savable : isa.slotFile? r = some file) :
    stackShift isa.stackPointer (isa.saveCode r file) = -((isa.slotBytes file).toNat : Int) := by
  rcases slotFile?_cases savable with ⟨rfl, rfl, cls, -⟩ | ⟨rfl, rfl, -⟩ | ⟨rfl, rfl, -⟩ | ⟨rfl, rfl, -⟩
  · have bytes : r.bytes = 8 := by rw [Register.bytes, cls]; rfl
    simp only [saveCode, stackShift, Instr.stackShift, bytes]
    rfl
  all_goals rfl

theorem stackShift_reloadCode (savable : isa.slotFile? r = some file) :
    stackShift isa.stackPointer (isa.reloadCode r file) = (isa.slotBytes file).toNat := by
  rcases slotFile?_cases savable with ⟨rfl, rfl, cls, -⟩ | ⟨rfl, rfl, -⟩ | ⟨rfl, rfl, -⟩ | ⟨rfl, rfl, -⟩
  · have bytes : r.bytes = 8 := by rw [Register.bytes, cls]; rfl
    simp only [reloadCode, stackShift, Instr.stackShift, bytes]
    rfl
  all_goals rfl

theorem stackShift_padCode (isa : Isa) (bytes : UInt32) :
    stackShift isa.stackPointer (isa.padCode bytes) = -(bytes.toNat : Int) := by
  cases isa with
  | x86_64 =>
    simp only [padCode]
    split
    · rename_i eight
      subst eight
      rfl
    · simp [stackShift, Instr.stackShift, X86.rsp, stackPointer]
  | aarch64 => simp [padCode, stackShift, Instr.stackShift, A64.sp, stackPointer]

theorem stackShift_unpadCode (isa : Isa) (bytes : UInt32) :
    stackShift isa.stackPointer (isa.unpadCode bytes) = bytes.toNat := by
  simp [unpadCode, stackShift, Instr.stackShift]

end Isa
end CallFrame
