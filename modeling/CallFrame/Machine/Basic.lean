import CallFrame.Fault
import CallFrame.Instr.Basic
import CallFrame.Isa.Basic
import CallFrame.Machine.Memory

namespace CallFrame

structure Machine where
  cells : Cell → Value
  memory : Memory

namespace Machine

def lowBits (bits : Nat) (v : Value) : Value := (v.setWidth bits).setWidth 128

def get (m : Machine) (r : Register) : Value := lowBits r.cls.bits.toNat (m.cells r.cell)

def get64 (m : Machine) (r : Register) : Addr := (m.get r).setWidth 64

def set (m : Machine) (r : Register) (v : Value) : Machine :=
  { m with cells := fun c => if c = r.cell then lowBits r.cls.bits.toNat v else m.cells c }

def set64 (m : Machine) (r : Register) (v : Addr) : Machine := m.set r (v.setWidth 128)

def sp (isa : Isa) (m : Machine) : Addr := m.get64 isa.stackPointer

/-- All zero but for the stack pointer. -/
def new (isa : Isa) : Machine :=
  set64 { cells := fun _ => 0, memory := fun _ => 0 } isa.stackPointer 0x7fff0000

def read (m : Machine) (addr : Addr) (n : Nat) : Value := m.memory.load addr n

def poke (m : Machine) (addr : Addr) (n : Nat) (v : Value) : Machine :=
  { m with memory := m.memory.store addr n v }

/-- The address that an operand's base and displacement add up to. -/
def indexed (m : Machine) (mem : MemOperand) : Addr :=
  m.get64 mem.base + BitVec.ofInt 64 mem.disp.toInt

/-- The address that an access through the operand touches. -/
def effectiveAddress (m : Machine) (mem : MemOperand) : Addr :=
  match mem.mode with
  | .offset | .preIndex => m.indexed mem
  | .postIndex => m.get64 mem.base

def writeBack (m : Machine) (mem : MemOperand) : Machine :=
  if mem.movesBase then m.set64 mem.base (m.indexed mem) else m

/-- What one instruction does. A store reads its data before the writeback, a load writes its destination after it. -/
def effect (isa : Isa) (m : Machine) : Instr → Machine
  | .push r =>
    let top := m.sp isa - BitVec.ofNat 64 r.bytes.toNat
    (m.set64 isa.stackPointer top).poke top r.bytes.toNat (m.get r)
  | .pop r =>
    let top := m.sp isa
    (m.set r (m.read top r.bytes.toNat)).set64 isa.stackPointer (top + BitVec.ofNat 64 r.bytes.toNat)
  | .store src mem => (m.writeBack mem).poke (m.effectiveAddress mem) src.bytes.toNat (m.get src)
  | .load dst mem => (m.writeBack mem).set dst (m.read (m.effectiveAddress mem) dst.bytes.toNat)
  | .mov dst src => m.set dst (m.get src)
  | .movImm dst imm => m.set64 dst imm.toBitVec
  | .addImm dst src imm => m.set64 dst (m.get64 src + BitVec.ofNat 64 imm.toNat)
  | .subImm dst src imm => m.set64 dst (m.get64 src - BitVec.ofNat 64 imm.toNat)
  | .add dst lhs rhs => m.set64 dst (m.get64 lhs + m.get64 rhs)
  | .sub dst lhs rhs => m.set64 dst (m.get64 lhs - m.get64 rhs)

end Machine

def Instr.overwide : Instr → Bool
  | .push r => 16 < r.bytes
  | .store src _ => 16 < src.bytes
  | _ => false

abbrev MachineM := EStateM Fault Machine

namespace Machine

def write (addr : Addr) (n : Nat) (v : Value) : MachineM Unit := do
  modify fun m => m.poke addr n v
  if 16 < n then throw .wideWrite

/-- An instruction whose data is too wide does all that it can and then faults. -/
def step (isa : Isa) (i : Instr) : MachineM Unit := do
  modify fun m => m.effect isa i
  if i.overwide then throw .wideWrite

def run (isa : Isa) (code : List Instr) : MachineM Unit := code.forM (step isa)

end Machine
end CallFrame
