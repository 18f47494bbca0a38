import CallFrame.Asm.Displacement
import CallFrame.Instr.Basic
import CallFrame.Isa.Names

/-! AArch64 lines, destination first. -/
namespace CallFrame.Asm.A64

inductive Address where
  | bare (base : Register)
  | offset (base : Register) (disp : Displacement)
  | preIndex (base : Register) (disp : Displacement)
  | postIndex (base : Register) (disp : Displacement)
  deriving DecidableEq, Repr

inductive ArithOp where
  | add | sub
  deriving DecidableEq, Repr

inductive Line where
  | str (src : Register) (dst : Address)
  | ldr (dst : Register) (src : Address)
  | mov (dst src : Register)
  | fmov (dst src : Register)
  /-- All sixteen bytes of a vector register. -/
  | movBytes (dst src : UInt8)
  | movImm (dst : Register) (imm : UInt16)
  | movz (dst : Register) (chunk : UInt16) (shift : Nat)
  | movk (dst : Register) (chunk : UInt16) (shift : Nat)
  | arithImm (op : ArithOp) (dst src : Register) (field : UInt32) (shifted : Bool)
  | arith (op : ArithOp) (dst lhs rhs : Register)
  deriving DecidableEq, Repr

def reg (r : Register) : String := ((A64.classNames r.cls)[r.index.toNat]?).getD r.text

def Address.text : Address → String
  | .bare base => "[" ++ reg base ++ "]"
  | .offset base disp => "[" ++ reg base ++ ", #" ++ disp.text ++ "]"
  | .preIndex base disp => "[" ++ reg base ++ ", #" ++ disp.text ++ "]!"
  | .postIndex base disp => "[" ++ reg base ++ "], #" ++ disp.text

def ArithOp.text : ArithOp → String
  | .add => "add"
  | .sub => "sub"

def Line.text : Line → String
  | .str src dst => "str " ++ reg src ++ ", " ++ dst.text
  | .ldr dst src => "ldr " ++ reg dst ++ ", " ++ src.text
  | .mov dst src => "mov " ++ reg dst ++ ", " ++ reg src
  | .fmov dst src => "fmov " ++ reg dst ++ ", " ++ reg src
  | .movBytes dst src => "mov v" ++ dst.toNat.repr ++ ".16b, v" ++ src.toNat.repr ++ ".16b"
  | .movImm dst imm => "mov " ++ reg dst ++ ", #" ++ imm.toNat.repr
  | .movz dst chunk shift =>
      "movz " ++ reg dst ++ ", #" ++ chunk.toNat.repr ++ ", lsl #" ++ shift.repr
  | .movk dst chunk shift =>
      "movk " ++ reg dst ++ ", #" ++ chunk.toNat.repr ++ ", lsl #" ++ shift.repr
  | .arithImm op dst src field shifted =>
      op.text ++ " " ++ reg dst ++ ", " ++ reg src ++ ", #" ++ field.toNat.repr ++
        (if shifted then ", lsl #12" else "")
  | .arith op dst lhs rhs =>
      op.text ++ " " ++ reg dst ++ ", " ++ reg lhs ++ ", " ++ reg rhs

def Address.ofOperand (m : MemOperand) : Address :=
  match m.mode with
  | .offset => if m.disp = 0 then .bare m.base else .offset m.base (.ofInt32 m.disp)
  | .preIndex => .preIndex m.base (.ofInt32 m.disp)
  | .postIndex => .postIndex m.base (.ofInt32 m.disp)

def copy (dst src : Register) : Line :=
  match dst.cls.file with
  | .general => .mov dst src
  | .vector => if dst.cls.bits = 128 then .movBytes dst.index src.index else .fmov dst src

/-- The nonzero 16-bit chunks of `value` at the given shifts. -/
def chunks (value : Nat) (shifts : List Nat) : List (UInt16 × Nat) :=
  (shifts.map fun shift => (UInt16.ofNat (value >>> shift), shift)).filter fun c => c.1 ≠ 0

def wideMove (dst : Register) (imm : UInt64) : List Line :=
  let value := if dst.cls = .gp32 then imm.toUInt32.toNat else imm.toNat
  if value ≤ 0xFFFF then [.movImm dst (UInt16.ofNat value)]
  else
    match chunks value (if dst.cls = .gp32 then [0, 16] else [0, 16, 32, 48]) with
    | [] => []
    | (chunk, shift) :: rest => .movz dst chunk shift :: rest.map fun c => .movk dst c.1 c.2

def arithImm (op : ArithOp) (dst src : Register) (imm : UInt32) : List Line :=
  let high := imm >>> 12
  let low := imm &&& 0xFFF
  if high = 0 then [.arithImm op dst src low false]
  else if low = 0 then [.arithImm op dst src high true]
  else [.arithImm op dst src high true, .arithImm op dst dst low false]

def lower : Instr → List Line
  | .push r => [.str r (.preIndex A64.sp (.minus r.bytes))]
  | .pop r => [.ldr r (.postIndex A64.sp (.plus r.bytes))]
  | .store src mem => [.str src (.ofOperand mem)]
  | .load dst mem => [.ldr dst (.ofOperand mem)]
  | .mov dst src => [copy dst src]
  | .movImm dst imm => wideMove dst imm
  | .addImm dst src imm => arithImm .add dst src imm
  | .subImm dst src imm => arithImm .sub dst src imm
  | .add dst lhs rhs => [.arith .add dst lhs rhs]
  | .sub dst lhs rhs => [.arith .sub dst lhs rhs]

end CallFrame.Asm.A64
