import CallFrame.Instr.Basic

/-! Static stack accounting: by how much code moves the stack pointer, read off each instruction by itself. -/
namespace CallFrame

def MemOperand.stackShift (sp : Register) (m : MemOperand) : Int :=
  if m.base = sp ∧ m.movesBase then m.disp.toInt else 0

def Instr.stackShift (sp : Register) : Instr → Int
  | .push r => -(r.bytes.toNat : Int)
  | .pop r => r.bytes.toNat
  | .addImm dst src imm => if dst = sp ∧ src = sp then imm.toNat else 0
  | .subImm dst src imm => if dst = sp ∧ src = sp then -(imm.toNat : Int) else 0
  | .store _ mem => mem.stackShift sp
  | .load _ mem => mem.stackShift sp
  | _ => 0

def stackShift (sp : Register) : List Instr → Int
  | [] => 0
  | i :: code => i.stackShift sp + stackShift sp code

end CallFrame
