import CallFrame.Fault
import CallFrame.Isa.Basic

namespace CallFrame

structure OffsetRange where
  min : Int64
  max : Int64
  deriving DecidableEq, Repr

def OffsetRange.contains (range : OffsetRange) (offset : Int64) : Bool :=
  range.min ≤ offset && offset ≤ range.max

/-- Which magnitudes an add or subtract instruction takes as its immediate. -/
inductive ImmediateForm where
  /-- Twelve bits, optionally shifted left by twelve. -/
  | shifted12
  /-- The nonnegative half of a sign-extended 32-bit field. -/
  | signed32
  deriving DecidableEq, Repr

def ImmediateForm.encodes : ImmediateForm → UInt64 → Bool
  | .shifted12, value => value ≤ 0xFFF || (value &&& 0xFFF == 0 && value ≤ 0xFFF000)
  | .signed32, value => value ≤ 0x7FFFFFFF

structure Profile where
  name : String
  stackAlignment : UInt32
  generalSlot : UInt32
  vectorSlot : UInt32
  /-- Offsets that any access takes as they are. -/
  direct : OffsetRange
  /-- Offsets that the checked operand accepts. -/
  bounded : OffsetRange
  immediate : ImmediateForm
  deriving DecidableEq, Repr

namespace Profile

def slotBytes (p : Profile) : RegFile → UInt32
  | .general => p.generalSlot
  | .vector => p.vectorSlot

def alignGap (p : Profile) (pushed : UInt32) : Except Fault UInt32 :=
  if p.stackAlignment = 0 then .error .zeroAlignment
  else
    let excess := pushed % p.stackAlignment
    .ok (if excess = 0 then 0 else p.stackAlignment - excess)

end Profile

namespace Isa

def profile : Isa → Profile
  | .x86_64 =>
    { name := Isa.x86_64.name
      stackAlignment := 16
      generalSlot := 8
      vectorSlot := 16
      direct := ⟨-2147483648, 2147483647⟩
      bounded := ⟨-2147483648, 2147483647⟩
      immediate := .signed32 }
  | .aarch64 =>
    { name := Isa.aarch64.name
      stackAlignment := 16
      generalSlot := 16
      vectorSlot := 16
      direct := ⟨-256, 255⟩
      bounded := ⟨-256, 2047⟩
      immediate := .shifted12 }

def fitsDirect (isa : Isa) (offset : Int64) : Bool := isa.profile.direct.contains offset

def fitsBounded (isa : Isa) (offset : Int64) : Bool := isa.profile.bounded.contains offset

def fitsImmediate (isa : Isa) (magnitude : UInt64) : Bool := isa.profile.immediate.encodes magnitude

def slotBytes (isa : Isa) (file : RegFile) : UInt32 := isa.profile.slotBytes file

/-- The file whose save slot a register uses. Only full-width registers other than the stack pointer are saved; on
AArch64 the lower half of a vector register counts as full width too. -/
def slotFile? : Isa → Register → Option RegFile
  | .x86_64, r =>
    if r.index < 16 ∧ r ≠ Isa.x86_64.stackPointer then
      if r.cls = .gp64 then some .general
      else if r.cls = .vec128 then some .vector
      else none
    else none
  | .aarch64, r =>
    if r.cls = .gp64 ∧ r.index < 31 then some .general
    else if (r.cls = .vec64 ∨ r.cls = .vec128) ∧ r.index < 32 then some .vector
    else none

end Isa
end CallFrame
