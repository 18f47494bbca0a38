import CallFrame.Register

namespace CallFrame

inductive Location where
  | register (r : Register)
  | stack (offset : Int32)
  deriving DecidableEq, Repr

namespace Location

def register? : Location → Option Register
  | .register r => some r
  | .stack _ => none

def class? (l : Location) : Option RegClass := l.register?.map Register.cls

def width? (l : Location) : Option UInt32 := l.class?.map RegClass.bits

def isRegister (l : Location) : Bool := l.register?.isSome

def isStack (l : Location) : Bool := l.register?.isNone

def text : Location → String
  | .register r => r.text
  | .stack offset => "stack[" ++ offset.toInt.repr ++ "]"

end Location
end CallFrame
