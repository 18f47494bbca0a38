namespace CallFrame.Asm

/-- Written with its sign even before a zero: `-0` and `0` are two texts of one value. -/
structure Displacement where
  negative : Bool
  magnitude : UInt32
  deriving DecidableEq, Repr

namespace Displacement

def plus (n : UInt32) : Displacement := ⟨false, n⟩
def minus (n : UInt32) : Displacement := ⟨true, n⟩

def ofInt32 (d : Int32) : Displacement := ⟨d < 0, UInt32.ofNat d.toInt.natAbs⟩

def value (d : Displacement) : Int :=
  if d.negative then -(d.magnitude.toNat : Int) else d.magnitude.toNat

def text (d : Displacement) : String :=
  (if d.negative then "-" else "") ++ d.magnitude.toNat.repr

end Displacement
end CallFrame.Asm
