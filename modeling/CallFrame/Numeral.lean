namespace CallFrame.Numeral

def digits? (cs : List Char) : Option Nat :=
  if !cs.isEmpty && cs.all Char.isDigit then some (Nat.ofDigitChars 10 cs 0) else none

def unsigned? : List Char → Option Nat
  | '+' :: cs => digits? cs
  | cs => digits? cs

def signed? : List Char → Option Int
  | '-' :: cs => (digits? cs).map fun n : Nat => -(n : Int)
  | cs => (unsigned? cs).map Int.ofNat

def uint8? (cs : List Char) : Option UInt8 := do
  let n ← unsigned? cs
  if n < UInt8.size then some (UInt8.ofNat n) else none

def uint32? (cs : List Char) : Option UInt32 := do
  let n ← unsigned? cs
  if n < UInt32.size then some (UInt32.ofNat n) else none

def int32? (cs : List Char) : Option Int32 := do
  let n ← signed? cs
  if Int32.minValue.toInt ≤ n ∧ n ≤ Int32.maxValue.toInt then some (Int32.ofInt n) else none

def hex (n : Nat) : String := "0x" ++ String.ofList (Nat.toDigits 16 n)

end CallFrame.Numeral
