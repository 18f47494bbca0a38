import CallFrame.Machine.Lemmas
import CallFrame.Proofs.Memory

/-! Runs of code as folds of effects. -/
namespace CallFrame

def MemOperand.writtenCells (m : MemOperand) : List Cell := if m.movesBase then [m.base.cell] else []

def Instr.writtenCells (isa : Isa) : Instr → List Cell
  | .push _ => [isa.stackPointer.cell]
  | .pop r => [r.cell, isa.stackPointer.cell]
  | .store _ mem => mem.writtenCells
  | .load dst mem => dst.cell :: mem.writtenCells
  | .mov dst _ | .movImm dst _ | .addImm dst _ _ | .subImm dst _ _ | .add dst _ _ | .sub dst _ _ => [dst.cell]

def Instr.writtenBytes : Instr → Nat
  | .push r => r.bytes.toNat
  | .store src _ => src.bytes.toNat
  | _ => 0

def writtenCells (isa : Isa) (code : List Instr) : List Cell := code.flatMap (·.writtenCells isa)

@[simp] theorem writtenCells_append (isa : Isa) (first second : List Instr) :
    writtenCells isa (first ++ second) = writtenCells isa first ++ writtenCells isa second :=
  List.flatMap_append

theorem Instr.narrow_of_writtenBytes {i : Instr} (small : i.writtenBytes ≤ 16) : i.overwide = false := by
  cases i with
  | push r | store r _ =>
    simp only [writtenBytes] at small
    simp only [overwide, decide_eq_false_iff_not, UInt32.lt_iff_toNat_lt]
    exact Nat.not_lt.mpr small
  | _ => rfl

theorem Register.cell_ne_of_cls_eq {r s : Register} (sameClass : r.cls = s.cls) (other : r ≠ s) : r.cell ≠ s.cell := by
  obtain ⟨cls, index⟩ := r
  cases sameClass
  simp only [cell, ne_eq, Cell.mk.injEq, true_and]
  rintro rfl
  exact other rfl

namespace Isa

variable (isa : Isa)

@[simp] theorem cls_stackPointer : isa.stackPointer.cls = .gp64 := by
  cases isa <;> rfl

end Isa

namespace Machine

variable {isa : Isa} {m : Machine} {r s : Register}

/-! ### Registers -/

theorem get_congr {m' : Machine} (same : m'.cells r.cell = m.cells r.cell) : m'.get r = m.get r := by
  simp only [get, same]

theorem get64_set64_same (m : Machine) (a : Addr) (wide : r.cls = .gp64) : (m.set64 r a).get64 r = a := by
  have bits : r.cls.bits.toNat = 64 := by rw [wide]; rfl
  apply BitVec.eq_of_getLsbD_eq
  intro i bound
  simp [get64, set64, get_set_same m _ rfl, lowBits, bits, bound]

theorem get_set64_other (m : Machine) (a : Addr) (other : s.cell ≠ r.cell) : (m.set64 r a).get s = m.get s :=
  get_set_other m _ other

theorem get64_set64_other (m : Machine) (a : Addr) (other : s.cell ≠ r.cell) :
    (m.set64 r a).get64 s = m.get64 s := by
  simp only [get64, get_set64_other m a other]

@[simp] theorem sp_set64 (isa : Isa) (m : Machine) (a : Addr) : (m.set64 isa.stackPointer a).sp isa = a :=
  get64_set64_same m a (by simp)

theorem sp_set_other (isa : Isa) (m : Machine) (v : Value) (other : r.cell ≠ isa.stackPointer.cell) :
    (m.set r v).sp isa = m.sp isa := by
  simp only [sp, get64, get_set_other m v (Ne.symm other)]

@[simp] theorem sp_poke (m : Machine) (a : Addr) (n : Nat) (v : Value) : (m.poke a n v).sp isa = m.sp isa := rfl

@[simp] theorem memory_set64 (m : Machine) (r : Register) (a : Addr) : (m.set64 r a).memory = m.memory := rfl

@[simp] theorem memory_poke (m : Machine) (a : Addr) (n : Nat) (v : Value) :
    (m.poke a n v).memory = m.memory.store a n v := rfl

theorem cells_set_other (m : Machine) {c : Cell} (v : Value) (other : c ≠ r.cell) :
    (m.set r v).cells c = m.cells c := by
  simp only [set, if_neg other]

theorem cells_set64_other (m : Machine) {c : Cell} (a : Addr) (other : c ≠ r.cell) :
    (m.set64 r a).cells c = m.cells c :=
  cells_set_other m _ other

theorem set_comm (m : Machine) (v w : Value) (other : r.cell ≠ s.cell) :
    (m.set r v).set s w = (m.set s w).set r v := by
  simp only [set, Machine.mk.injEq, and_true]
  funext c
  by_cases atR : c = r.cell
  · simp [atR, other]
  · simp [atR]

theorem set_set (m : Machine) (r : Register) (v w : Value) : (m.set r v).set r w = m.set r w := by
  simp only [set, Machine.mk.injEq, and_true]
  funext c
  by_cases atR : c = r.cell
  · simp [atR]
  · simp [atR]

@[simp] theorem set64_set64 (m : Machine) (r : Register) (a b : Addr) : (m.set64 r a).set64 r b = m.set64 r b :=
  m.set_set r _ _

/-! ### One instruction -/

@[simp] theorem memory_writeBack (m : Machine) (mem : MemOperand) : (m.writeBack mem).memory = m.memory := by
  unfold writeBack
  split <;> rfl

@[simp] theorem writeBack_ofBase (m : Machine) (base : Register) : m.writeBack (.ofBase base) = m := rfl

@[simp] theorem effectiveAddress_ofBase (m : Machine) (base : Register) :
    m.effectiveAddress (.ofBase base) = m.get64 base :=
  BitVec.add_zero _

theorem cells_writeBack (m : Machine) {mem : MemOperand} {c : Cell} (other : c ∉ mem.writtenCells) :
    (m.writeBack mem).cells c = m.cells c := by
  unfold writeBack
  unfold MemOperand.writtenCells at other
  split
  · rename_i moves
    simp only [moves, if_true, List.mem_singleton] at other
    exact cells_set64_other m _ other
  · rfl

theorem cells_effect (m : Machine) {i : Instr} {c : Cell} (other : c ∉ i.writtenCells isa) :
    (m.effect isa i).cells c = m.cells c := by
  cases i with
  | push r =>
    simp only [Instr.writtenCells, List.mem_singleton] at other
    exact cells_set64_other m _ other
  | pop r =>
    simp only [Instr.writtenCells, List.mem_cons, List.not_mem_nil, or_false, not_or] at other
    exact (cells_set64_other _ _ other.2).trans (cells_set_other m _ other.1)
  | store src mem => exact cells_writeBack m other
  | load dst mem =>
    simp only [Instr.writtenCells, List.mem_cons, not_or] at other
    exact (cells_set_other _ _ other.1).trans (cells_writeBack m other.2)
  | mov dst | movImm dst | addImm dst | subImm dst | add dst | sub dst =>
    simp only [Instr.writtenCells, List.mem_singleton] at other
    exact cells_set_other m _ other

theorem memory_effect (m : Machine) {i : Instr} (none : i.writtenBytes = 0) :
    (m.effect isa i).memory = m.memory := by
  cases i with
  | push r | store r mem =>
    simp only [Instr.writtenBytes] at none
    simp [effect, none, Memory.store_zero]
  | load dst mem => simp [effect]
  | _ => rfl

theorem sp_congr {m' : Machine} (same : m'.cells isa.stackPointer.cell = m.cells isa.stackPointer.cell) :
    m'.sp isa = m.sp isa := by
  simp only [sp, get64, get_congr same]

/-! ### Sequences -/

def effects (isa : Isa) (m : Machine) (code : List Instr) : Machine := code.foldl (effect isa) m

@[simp] theorem effects_nil (m : Machine) : m.effects isa [] = m := rfl

@[simp] theorem effects_cons (m : Machine) (i : Instr) (code : List Instr) :
    m.effects isa (i :: code) = (m.effect isa i).effects isa code := rfl

@[simp] theorem effects_append (m : Machine) (first second : List Instr) :
    m.effects isa (first ++ second) = (m.effects isa first).effects isa second :=
  List.foldl_append

theorem run_of_narrow {code : List Instr} (m : Machine) (narrow : ∀ i ∈ code, i.writtenBytes ≤ 16) :
    run isa code m = .ok () (m.effects isa code) := by
  induction code generalizing m with
  | nil => rfl
  | cons i code ih =>
    obtain ⟨first, others⟩ := List.forall_mem_cons.mp narrow
    have rest := ih (m.effect isa i) others
    have unrolled : run isa (i :: code) m = (do step isa i; run isa code) m := rfl
    rw [unrolled, effects_cons, ← rest]
    simp only [Bind.bind, EStateM.bind, step_narrow isa m (Instr.narrow_of_writtenBytes first)]

theorem cells_effects {code : List Instr} {c : Cell} (m : Machine) (other : c ∉ writtenCells isa code) :
    (m.effects isa code).cells c = m.cells c := by
  induction code generalizing m with
  | nil => rfl
  | cons i code ih =>
    simp only [writtenCells, List.flatMap_cons, List.mem_append, not_or] at other
    obtain ⟨first, later⟩ := other
    rw [effects_cons, ih _ later, cells_effect m first]

theorem memory_effects {code : List Instr} (m : Machine) (silent : ∀ i ∈ code, i.writtenBytes = 0) :
    (m.effects isa code).memory = m.memory := by
  induction code generalizing m with
  | nil => rfl
  | cons i code ih =>
    obtain ⟨first, others⟩ := List.forall_mem_cons.mp silent
    rw [effects_cons, ih _ others, memory_effect m first]

theorem step_ok {i : Instr} {m' : Machine} (done : step isa i m = .ok () m') : m' = m.effect isa i := by
  cases wide : i.overwide with
  | false =>
    rw [step_narrow isa m wide] at done
    cases done
    rfl
  | true =>
    simp only [step, wide] at done
    cases done

theorem run_ok {code : List Instr} {m' : Machine} (done : run isa code m = .ok () m') : m' = m.effects isa code := by
  induction code generalizing m with
  | nil =>
    cases done
    rfl
  | cons i code ih =>
    have unrolled : run isa (i :: code) m = (do step isa i; run isa code) m := rfl
    rw [unrolled] at done
    simp only [Bind.bind, EStateM.bind] at done
    cases first : step isa i m with
    | ok a next =>
      rw [first] at done
      rw [effects_cons, ← step_ok first]
      exact ih done
    | error fault next =>
      rw [first] at done
      cases done

end Machine

def Instr.Quiet (isa : Isa) (i : Instr) : Prop := i.writtenBytes = 0 ∧ isa.stackPointer.cell ∉ i.writtenCells isa

instance (isa : Isa) (i : Instr) : Decidable (i.Quiet isa) := inferInstanceAs (Decidable (_ ∧ _))

theorem Machine.effects_quiet {isa : Isa} {code : List Instr} (m : Machine) (quiet : ∀ i ∈ code, i.Quiet isa) :
    (m.effects isa code).memory = m.memory ∧ (m.effects isa code).sp isa = m.sp isa := by
  have silent : ∀ i ∈ code, i.writtenBytes = 0 := fun i member => (quiet i member).1
  have untouched : isa.stackPointer.cell ∉ writtenCells isa code := by
    intro written
    obtain ⟨i, member, here⟩ := List.mem_flatMap.mp written
    exact (quiet i member).2 here
  exact ⟨m.memory_effects silent, sp_congr (m.cells_effects untouched)⟩

end CallFrame
