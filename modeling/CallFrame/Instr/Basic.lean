import CallFrame.Numeral
import CallFrame.Register

namespace CallFrame

inductive IndexMode where
  | offset | preIndex | postIndex
  deriving DecidableEq, Repr

structure MemOperand where
  base : Register
  disp : Int32
  mode : IndexMode
  deriving DecidableEq, Repr

namespace MemOperand

def offset (base : Register) (disp : Int32) : MemOperand := ⟨base, disp, .offset⟩
def preIndex (base : Register) (disp : Int32) : MemOperand := ⟨base, disp, .preIndex⟩
def postIndex (base : Register) (disp : Int32) : MemOperand := ⟨base, disp, .postIndex⟩

def ofBase (base : Register) : MemOperand := offset base 0

def movesBase (m : MemOperand) : Bool := m.mode ≠ .offset

def text (m : MemOperand) : String :=
  match m.mode with
  | .offset =>
    if m.disp = 0 then "[" ++ m.base.text ++ "]"
    else "[" ++ m.base.text ++ ", #" ++ m.disp.toInt.repr ++ "]"
  | .preIndex => "[" ++ m.base.text ++ ", #" ++ m.disp.toInt.repr ++ "]!"
  | .postIndex => "[" ++ m.base.text ++ "], #" ++ m.disp.toInt.repr

end MemOperand

inductive Instr where
  | push (r : Register)
  | pop (r : Register)
  | store (src : Register) (mem : MemOperand)
  | load (dst : Register) (mem : MemOperand)
  | mov (dst src : Register)
  | movImm (dst : Register) (imm : UInt64)
  | addImm (dst src : Register) (imm : UInt32)
  | subImm (dst src : Register) (imm : UInt32)
  | add (dst lhs rhs : Register)
  | sub (dst lhs rhs : Register)
  deriving DecidableEq, Repr

def Instr.text : Instr → String
  | .push r => "push " ++ r.text
  | .pop r => "pop " ++ r.text
  | .store src mem => "store " ++ src.text ++ ", " ++ mem.text
  | .load dst mem => "load " ++ dst.text ++ ", " ++ mem.text
  | .mov dst src => "mov " ++ dst.text ++ ", " ++ src.text
  | .movImm dst imm => "mov " ++ dst.text ++ ", #" ++ Numeral.hex imm.toNat
  | .addImm dst src imm => "add " ++ dst.text ++ ", " ++ src.text ++ ", #" ++ imm.toNat.repr
  | .subImm dst src imm => "sub " ++ dst.text ++ ", " ++ src.text ++ ", #" ++ imm.toNat.repr
  | .add dst lhs rhs => "add " ++ dst.text ++ ", " ++ lhs.text ++ ", " ++ rhs.text
  | .sub dst lhs rhs => "sub " ++ dst.text ++ ", " ++ lhs.text ++ ", " ++ rhs.text

end CallFrame
