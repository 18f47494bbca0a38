import CallFrame.Instr.StackMotion
import CallFrame.Sink.Basic

namespace CallFrame

structure Code where
  instrs : Array Instr := #[]
  deriving DecidableEq

namespace Code

def toList (c : Code) : List Instr := c.instrs.toList

def size (c : Code) : Nat := c.instrs.size

def isEmpty (c : Code) : Bool := c.instrs.isEmpty

def push (c : Code) (i : Instr) : Code := ⟨c.instrs.push i⟩

def append (c : Code) (code : List Instr) : Code := ⟨c.instrs ++ code.toArray⟩

def stackShift (sp : Register) (c : Code) : Int := CallFrame.stackShift sp c.toList

instance : Sink Code where
  emit i := modify fun c => c.push i
  comment _ := pure ()

@[simp] theorem toList_append (c : Code) (code : List Instr) :
    (c.append code).toList = c.toList ++ code := by
  simp [append, toList]

theorem append_nil (c : Code) : c.append [] = c := by
  simp [append]

theorem append_cons (c : Code) (i : Instr) (code : List Instr) :
    c.append (i :: code) = (c.push i).append code := by
  simp [append, push]

end Code

namespace Emit

theorem emit_code (i : Instr) (e : Emission Code) :
    emit i e = .ok () { e with sink := e.sink.push i } := rfl

theorem comment_code (text : String) (e : Emission Code) : comment text e = .ok () e := rfl

theorem emitAll_code (code : List Instr) (e : Emission Code) :
    emitAll code e = .ok () { e with sink := e.sink.append code } := by
  induction code generalizing e with
  | nil =>
    rw [Code.append_nil]
    rfl
  | cons i code ih =>
    -- One instruction is pushed, the rest follows on the longer recording.
    have pushed : emitAll (i :: code) e = emitAll code { e with sink := e.sink.push i } := rfl
    rw [pushed, ih, Code.append_cons]

end Emit
end CallFrame
