import CallFrame.Sequence
import CallFrame.Sink.Basic

/-! Memory operands for `base + offset`: a bounded form that emits nothing, and one resolved with a scratch register. -/
namespace CallFrame.Operand

/-- The offset as a displacement, if 32 bits hold it. -/
def int32? (offset : Int64) : Option Int32 :=
  if Int32.minValue.toInt ≤ offset.toInt ∧ offset.toInt ≤ Int32.maxValue.toInt then some offset.toInt32 else none

def uint32? (n : UInt64) : Option UInt32 := if n.toNat < UInt32.size then some n.toUInt32 else none

def bounded (isa : Isa) (base : Register) (offset : Int64) : Except Violation MemOperand :=
  let range := isa.profile.bounded
  let violation := Violation.farOffset isa.name offset range.min range.max
  match int32? offset with
  | some disp => if range.contains offset then .ok (.offset base disp) else .error violation
  | none => .error violation

def magnitude (offset : Int64) : UInt64 := UInt64.ofNat offset.toInt.natAbs

/-- The displacement of an operand that needs no code. -/
def direct? (isa : Isa) (offset : Int64) : Option Int32 := if isa.fitsDirect offset then int32? offset else none

/-- The immediate of the one instruction that adds or subtracts the offset. -/
def immediate? (isa : Isa) (offset : Int64) : Option UInt32 :=
  match uint32? (magnitude offset) with
  | some imm => if isa.fitsImmediate (magnitude offset) then some imm else none
  | none => none

def tier (isa : Isa) (offset : Int64) : Tier :=
  match direct? isa offset, immediate? isa offset with
  | some _, _ => .direct
  | none, some _ => .immediate
  | none, none => .scratch

def code (isa : Isa) (base : Register) (offset : Int64) (scratch : Register) : List Instr :=
  match direct? isa offset, immediate? isa offset with
  | some _, _ => []
  | none, some imm => [if offset < 0 then .subImm scratch base imm else .addImm scratch base imm]
  | none, none => isa.addressCode base offset scratch

def operand (isa : Isa) (base : Register) (offset : Int64) (scratch : Register) : MemOperand :=
  match direct? isa offset with
  | some disp => .offset base disp
  | none => .ofBase scratch

def acceptsScratch (isa : Isa) (scratch : Register) : Bool :=
  scratch.cls = .gp64 && scratch ≠ isa.stackPointer

def resolve {σ : Type} [Sink σ] (isa : Isa) (base : Register) (offset : Int64) (scratch : Register) :
    Emit σ MemOperand := do
  if !acceptsScratch isa scratch then
    Emit.reject (.badScratch isa.name (isa.nameOf (.register scratch)))
  Emit.note (.resolved isa offset (tier isa offset))
  Emit.emitAll (code isa base offset scratch)
  return operand isa base offset scratch

end CallFrame.Operand
