import CallFrame.Location.Basic
import CallFrame.Numeral
import CallFrame.ReadError

namespace CallFrame.Location

def after? : List Char → List Char → Option (List Char)
  | [], cs => some cs
  | _ :: _, [] => none
  | t :: tag, c :: cs => if t = c then after? tag cs else none

/-- The inside of `stack[` … `]`. -/
def slotBody? (cs : List Char) : Option (List Char) := do
  let body ← after? ['s', 't', 'a', 'c', 'k', '['] cs
  if body.getLast? = some ']' then some body.dropLast else none

def readWidth? (cs : List Char) : Option UInt32 := do
  let bits ← Numeral.uint32? cs
  if bits ≠ 0 ∧ bits % 8 = 0 then some bits else none

def readClass? (cs : List Char) : Option RegClass :=
  match after? ['g', 'p'] cs with
  | some rest => (readWidth? rest).map (⟨.general, ·⟩)
  | none => do
    let rest ← after? ['v', 'e', 'c'] cs
    (readWidth? rest).map (⟨.vector, ·⟩)

def readRegister? (cs : List Char) : Option Register :=
  match cs.dropWhile (· ≠ ':') with
  | [] => none
  | _ :: index => do
    let cls ← readClass? (cs.takeWhile (· ≠ ':'))
    let index ← Numeral.uint8? index
    some ⟨cls, index⟩

def ofChars? (cs : List Char) : Option Location :=
  match slotBody? cs with
  | some body => (Numeral.int32? body).map .stack
  | none => (readRegister? cs).map .register

def parse (text : String) : Except ReadError Location :=
  match ofChars? text.toList with
  | some l => .ok l
  | none => .error (.badLocation text)

end CallFrame.Location
