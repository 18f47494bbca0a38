namespace CallFrame

abbrev Addr := BitVec 64
abbrev Byte := BitVec 8
abbrev Value := BitVec 128

abbrev Memory := Addr → Byte

namespace Memory

/-- Reads `n` bytes from the last to the first, each pushing the earlier ones up; what leaves the value is lost. -/
def loadOnto (m : Memory) (addr : Addr) : Nat → Value → Value
  | 0, acc => acc
  | n + 1, acc => loadOnto m addr n (acc <<< 8 ||| (m (addr + BitVec.ofNat 64 n)).setWidth 128)

def load (m : Memory) (addr : Addr) (n : Nat) : Value := loadOnto m addr n 0

/-- Stores the low `n` bytes of `value`, at most all sixteen. -/
def store (m : Memory) (addr : Addr) (n : Nat) (value : Value) : Memory := fun a =>
  let i := (a - addr).toNat
  if i < min n 16 then value.extractLsb' (8 * i) 8 else m a

end Memory
end CallFrame
