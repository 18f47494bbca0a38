import CallFrame.Frame.Phase

namespace CallFrame

inductive Violation where
  | farOffset (isa : String) (offset min max : Int64)
  | unsavable (isa location : String)
  | mixedClasses (source destination : String)
  | badScratch (isa scratch : String)
  | outOfOrder (operation : String) (phase : Phase)
  deriving DecidableEq, Repr

def Violation.text : Violation → String
  | .farOffset isa offset min max =>
      isa ++ ": offset " ++ offset.toInt.repr ++ " outside bounded range " ++
        min.toInt.repr ++ "..=" ++ max.toInt.repr
  | .unsavable isa location => isa ++ ": cannot save or restore " ++ location
  | .mixedClasses source destination =>
      "register class mismatch: " ++ source ++ " -> " ++ destination
  | .badScratch isa scratch =>
      isa ++ ": scratch must be a 64-bit general-purpose register other than the stack pointer, got " ++
        scratch
  | .outOfOrder operation phase => operation ++ " called in phase " ++ phase.text

inductive Fault where
  | violation (v : Violation)
  | zeroAlignment
  /-- A byte past the sixteenth of a value was to be stored. -/
  | wideWrite
  | wideIndent
  | counterOverflow
  /-- The reloads of a frame did not add up to its saves. -/
  | unbalanced (popped pushed : UInt32)
  | noOperand
  deriving DecidableEq, Repr

def Fault.message : Fault → String
  | .violation v => "contract violation: " ++ v.text
  | .zeroAlignment => "attempt to calculate the remainder with a divisor of zero"
  | .wideWrite => "attempt to shift right with overflow"
  | .wideIndent => "Formatting argument out of range"
  | .counterOverflow => "attempt to add with overflow"
  | .unbalanced popped pushed =>
      "assertion `left == right` failed\n  left: " ++ popped.toNat.repr ++ "\n right: " ++
        pushed.toNat.repr
  | .noOperand => "no current operand"

def addBytes (a b : UInt32) : Except Fault UInt32 :=
  if a.toNat + b.toNat < UInt32.size then .ok (a + b) else .error .counterOverflow

end CallFrame
