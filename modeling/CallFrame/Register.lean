namespace CallFrame

inductive RegFile where
  | general | vector
  deriving DecidableEq, Repr

def RegFile.text : RegFile → String
  | .general => "gp"
  | .vector => "vec"

structure RegClass where
  file : RegFile
  bits : UInt32
  deriving DecidableEq, Repr

namespace RegClass

def gp64 : RegClass := ⟨.general, 64⟩
def gp32 : RegClass := ⟨.general, 32⟩
def vec128 : RegClass := ⟨.vector, 128⟩
def vec64 : RegClass := ⟨.vector, 64⟩

/-- Whole bytes of the width; a width that is no multiple of eight loses its odd bits. -/
def bytes (c : RegClass) : UInt32 := c.bits / 8

def text (c : RegClass) : String := c.file.text ++ c.bits.toNat.repr

end RegClass

structure Register where
  cls : RegClass
  index : UInt8
  deriving DecidableEq, Repr

/-- The storage behind a register, whatever the width of the view. -/
structure Cell where
  file : RegFile
  index : UInt8
  deriving DecidableEq, Repr

namespace Register

def gp64 (index : UInt8) : Register := ⟨.gp64, index⟩
def gp32 (index : UInt8) : Register := ⟨.gp32, index⟩
def vec128 (index : UInt8) : Register := ⟨.vec128, index⟩
def vec64 (index : UInt8) : Register := ⟨.vec64, index⟩

def cell (r : Register) : Cell := ⟨r.cls.file, r.index⟩

def viewAs (r : Register) (c : RegClass) : Register := { r with cls := c }

def bytes (r : Register) : UInt32 := r.cls.bytes

def text (r : Register) : String := r.cls.text ++ ":" ++ r.index.toNat.repr

end Register
end CallFrame
