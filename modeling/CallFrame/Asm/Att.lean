import CallFrame.Asm.Displacement
import CallFrame.Instr.Basic
import CallFrame.Isa.Names

/-! x86-64 lines in AT&T order, source before destination. -/
namespace CallFrame.Asm.Att

/-- Mnemonics that move between a register and memory. -/
inductive Transfer where
  | movl | movd | movq | movdqu
  deriving DecidableEq, Repr

/-- Mnemonics that copy a register. -/
inductive Copy where
  | movl | movq | movsd | movdqa
  deriving DecidableEq, Repr

structure Address where
  disp : Option Displacement
  base : Register
  deriving DecidableEq, Repr

inductive Line where
  | pushq (src : Register)
  | popq (dst : Register)
  | store (op : Transfer) (src : Register) (dst : Address)
  | load (op : Transfer) (src : Address) (dst : Register)
  | copy (op : Copy) (src dst : Register)
  | movqImm (imm : Int32) (dst : Register)
  | movabsq (imm : UInt64) (dst : Register)
  | leaq (src : Address) (dst : Register)
  | leaqSum (base index dst : Register)
  | addqImm (imm : UInt32) (dst : Register)
  | subqImm (imm : UInt32) (dst : Register)
  | addq (src dst : Register)
  | subq (src dst : Register)
  | negq (dst : Register)
  deriving DecidableEq, Repr

def Transfer.text : Transfer → String
  | .movl => "movl"
  | .movd => "movd"
  | .movq => "movq"
  | .movdqu => "movdqu"

def Copy.text : Copy → String
  | .movl => "movl"
  | .movq => "movq"
  | .movsd => "movsd"
  | .movdqa => "movdqa"

/-- Every vector width is written as the XMM register, every general width but 32 as the 64-bit one. -/
def classNames (c : RegClass) : List String :=
  match c.file with
  | .general => if c.bits = 32 then X86.gp32Names else X86.gp64Names
  | .vector => X86.xmmNames

def reg (r : Register) : String :=
  match (classNames r.cls)[r.index.toNat]? with
  | some name => "%" ++ name
  | none => r.text

def Address.text (a : Address) : String :=
  match a.disp with
  | none => "(" ++ reg a.base ++ ")"
  | some d => d.text ++ "(" ++ reg a.base ++ ")"

def Line.text : Line → String
  | .pushq src => "pushq " ++ reg src
  | .popq dst => "popq " ++ reg dst
  | .store op src dst => op.text ++ " " ++ reg src ++ ", " ++ dst.text
  | .load op src dst => op.text ++ " " ++ src.text ++ ", " ++ reg dst
  | .copy op src dst => op.text ++ " " ++ reg src ++ ", " ++ reg dst
  | .movqImm imm dst => "movq $" ++ imm.toInt.repr ++ ", " ++ reg dst
  | .movabsq imm dst => "movabsq $" ++ Numeral.hex imm.toNat ++ ", " ++ reg dst
  | .leaq src dst => "leaq " ++ src.text ++ ", " ++ reg dst
  | .leaqSum base index dst => "leaq (" ++ reg base ++ "," ++ reg index ++ "), " ++ reg dst
  | .addqImm imm dst => "addq $" ++ imm.toNat.repr ++ ", " ++ reg dst
  | .subqImm imm dst => "subq $" ++ imm.toNat.repr ++ ", " ++ reg dst
  | .addq src dst => "addq " ++ reg src ++ ", " ++ reg dst
  | .subq src dst => "subq " ++ reg src ++ ", " ++ reg dst
  | .negq dst => "negq " ++ reg dst

def Transfer.ofClass (c : RegClass) : Transfer :=
  match c.file with
  | .general => if c.bits = 32 then .movl else .movq
  | .vector => if c.bits = 32 then .movd else if c.bits = 64 then .movq else .movdqu

def Copy.ofClass (c : RegClass) : Copy :=
  match c.file with
  | .general => if c.bits = 32 then .movl else .movq
  | .vector => if c.bits = 64 then .movsd else .movdqa

def Address.ofBase (base : Register) : Address := ⟨none, base⟩

def Address.offset (base : Register) (disp : Int32) : Address :=
  if disp = 0 then .ofBase base else ⟨some (.ofInt32 disp), base⟩

/-- An access through a memory operand, with the line that moves the base where the mode asks for it. -/
def through (mem : MemOperand) (body : Address → Line) : List Line :=
  let bump := Line.leaq (.offset mem.base mem.disp) mem.base
  match mem.mode with
  | .offset => [body (.offset mem.base mem.disp)]
  | .preIndex => [bump, body (.ofBase mem.base)]
  | .postIndex => [body (.ofBase mem.base), bump]

def fitsInt32 (n : Int64) : Bool := -2147483648 ≤ n && n ≤ 2147483647

def lower : Instr → List Line
  | .push r => [.pushq r]
  | .pop r => [.popq r]
  | .store src mem => through mem fun a => .store (.ofClass src.cls) src a
  | .load dst mem => through mem fun a => .load (.ofClass dst.cls) a dst
  | .mov dst src => [.copy (.ofClass dst.cls) src dst]
  | .movImm dst imm =>
    if fitsInt32 imm.toInt64 then [.movqImm imm.toInt64.toInt32 dst] else [.movabsq imm dst]
  | .addImm dst src imm =>
    if dst = src then [.addqImm imm dst] else [.leaq ⟨some (.plus imm), src⟩ dst]
  | .subImm dst src imm =>
    if dst = src then [.subqImm imm dst] else [.leaq ⟨some (.minus imm), src⟩ dst]
  | .add dst lhs rhs =>
    if dst = lhs then [.addq rhs dst]
    else if dst = rhs then [.addq lhs dst]
    else [.leaqSum lhs rhs dst]
  | .sub dst lhs rhs =>
    if dst = lhs then [.subq rhs dst]
    else if dst = rhs then [.negq dst, .addq lhs dst]
    else [.copy .movq lhs dst, .subq rhs dst]

end CallFrame.Asm.Att
