import CallFrame.Isa.Names
import CallFrame.Isa.Profile

namespace CallFrame

structure SavePair where
  source : Location
  destination : Location
  deriving DecidableEq, Repr

/-- A pair that passed its check: two registers of one class, and the file whose slot they use. -/
structure CheckedPair where
  source : Register
  destination : Register
  file : RegFile
  deriving DecidableEq, Repr

namespace SavePair

def identity (l : Location) : SavePair := ⟨l, l⟩

def ofRegisters (source destination : Register) : SavePair := ⟨.register source, .register destination⟩

def isIdentity (p : SavePair) : Bool := p.source = p.destination

end SavePair

def Location.savable (isa : Isa) (l : Location) : Except Violation (Register × RegFile) :=
  match l.register?.bind fun r => (isa.slotFile? r).map (r, ·) with
  | some found => .ok found
  | none => .error (.unsavable isa.name (isa.nameOf l))

def SavePair.check (isa : Isa) (p : SavePair) : Except Violation CheckedPair := do
  let (source, file) ← p.source.savable isa
  let (destination, _) ← p.destination.savable isa
  if source.cls = destination.cls then return ⟨source, destination, file⟩
  throw (.mixedClasses (isa.nameOf p.source) (isa.nameOf p.destination))

structure Frame where
  pairs : List SavePair
  phase : Phase := .idle
  /-- Bytes pushed for saved registers. -/
  pushed : UInt32 := 0
  /-- Bytes pushed to align the stack. -/
  padding : UInt32 := 0
  deriving DecidableEq, Repr

namespace Frame

def isPadded (f : Frame) : Bool := f.padding ≠ 0

/-- How far below its start the stack pointer stands while the registers are preserved. -/
def bytes (f : Frame) : Except Fault UInt32 := addBytes f.pushed f.padding

end Frame
end CallFrame
