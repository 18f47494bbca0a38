import CallFrame.Instr.Basic
import CallFrame.Isa.Names
import CallFrame.Isa.Profile

namespace CallFrame.Isa

def saveCode : Isa → Register → RegFile → List Instr
  | .x86_64, r, .general => [.push r]
  | .x86_64, r, .vector => [.subImm X86.rsp X86.rsp 16, .store r (.ofBase X86.rsp)]
  | .aarch64, r, _ => [.store r (.preIndex A64.sp (-16))]

def reloadCode : Isa → Register → RegFile → List Instr
  | .x86_64, r, .general => [.pop r]
  | .x86_64, r, .vector => [.load r (.ofBase X86.rsp), .addImm X86.rsp X86.rsp 16]
  | .aarch64, r, _ => [.load r (.postIndex A64.sp 16)]

/-- One slot of padding is shorter as a push. -/
def padCode : Isa → UInt32 → List Instr
  | .x86_64, bytes => if bytes = 8 then [.push X86.rax] else [.subImm X86.rsp X86.rsp bytes]
  | .aarch64, bytes => [.subImm A64.sp A64.sp bytes]

def unpadCode (isa : Isa) (bytes : UInt32) : List Instr :=
  [.addImm isa.stackPointer isa.stackPointer bytes]

/-- Leaves `base + offset` in `scratch`. AArch64 builds the magnitude, since its immediates are unsigned. -/
def addressCode : Isa → Register → Int64 → Register → List Instr
  | .x86_64, base, offset, scratch =>
    [.movImm scratch offset.toUInt64, .add scratch base scratch]
  | .aarch64, base, offset, scratch =>
    [.movImm scratch (UInt64.ofNat offset.toInt.natAbs),
      if offset < 0 then .sub scratch base scratch else .add scratch base scratch]

end CallFrame.Isa
