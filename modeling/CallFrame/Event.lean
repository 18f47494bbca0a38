import CallFrame.Fault
import CallFrame.Isa.Basic

namespace CallFrame

/-- How an offset is reached: in the operand itself, by one add or subtract, or through a materialised constant. -/
inductive Tier where
  | direct | immediate | scratch
  deriving DecidableEq, Repr

inductive Event where
  | resolved (isa : Isa) (offset : Int64) (tier : Tier)
  | preserved (isa : Isa) (pairs : Nat) (pushed padding : UInt32)
  | remapped (isa : Isa) (moves : Nat)
  | restored (isa : Isa) (popped padding : UInt32)
  | violated (v : Violation)
  | entered (isa : Isa)
  deriving DecidableEq, Repr

inductive Level where
  | trace | debug | error
  deriving DecidableEq, Repr

def Level.text : Level → String
  | .trace => "TRACE"
  | .debug => "DEBUG"
  | .error => "ERROR"

def Tier.title : Tier → String
  | .direct => "direct operand"
  | .immediate => "offset via add/sub immediate"
  | .scratch => "offset via scratch register"

namespace Event

def level : Event → Level
  | .resolved .. | .entered _ => .trace
  | .preserved .. | .remapped .. | .restored .. => .debug
  | .violated _ => .error

def isSpan : Event → Bool
  | .entered _ => true
  | _ => false

def title : Event → String
  | .resolved _ _ tier => tier.title
  | .preserved .. => "preserved registers"
  | .remapped .. => "remapped registers"
  | .restored .. => "restored registers"
  | .violated _ => "contract violation"
  | .entered _ => "preserve_around"

def fields : Event → List (String × String)
  | .resolved isa offset _ => [("isa", isa.name), ("offset", offset.toInt.repr)]
  | .preserved isa pairs pushed padding =>
    [("isa", isa.name), ("pairs", pairs.repr), ("pushed", pushed.toNat.repr),
      ("padding", padding.toNat.repr)]
  | .remapped isa moves => [("isa", isa.name), ("moves", moves.repr)]
  | .restored isa popped padding =>
    [("isa", isa.name), ("popped", popped.toNat.repr), ("padding", padding.toNat.repr)]
  | .violated v => [("violation", v.text)]
  | .entered isa => [("isa", isa.name)]

end Event
end CallFrame
