import CallFrame.Instr.Basic
import CallFrame.Proofs.LocationText

/-! Texts of operands and instructions, read back from the left. -/
namespace CallFrame

variable {rest : List Char}

/-! ### Numerals in front -/

namespace Numeral

def isPart (c : Char) : Bool := c.isDigit || c = '-'

/-- A numeral before this text ends there. -/
def Ends (rest : List Char) : Prop := ∀ c ∈ rest.head?, isPart c = false

def leading? {α : Type} (read? : List Char → Option α) (cs : List Char) : Option (α × List Char) :=
  (read? (cs.takeWhile isPart)).map (·, cs.dropWhile isPart)

theorem ends_nil : Ends [] := nofun

theorem ends_cons {c : Char} (other : isPart c = false) : Ends (c :: rest) := by
  intro d first
  cases first
  exact other

theorem leading?_append {α : Type} {read? : List Char → Option α} {x : α} {front : List Char}
    (inside : ∀ c ∈ front, isPart c = true) (value : read? front = some x) (ends : Ends rest) :
    leading? read? (front ++ rest) = some (x, rest) := by
  have stop : rest.takeWhile isPart = [] ∧ rest.dropWhile isPart = rest := by
    cases rest with
    | nil => exact ⟨rfl, rfl⟩
    | cons c rest =>
      have other := ends c rfl
      simp [other]
  rw [leading?, List.takeWhile_append_of_pos inside, List.dropWhile_append_of_pos inside, stop.1, stop.2,
    List.append_nil, value, Option.map_some]

theorem isPart_repr (n : Nat) : ∀ c ∈ n.repr.toList, isPart c = true := by
  intro c member
  rw [isPart, (digits_repr n).isDigit c member, Bool.true_or]

theorem isPart_int (i : Int) : ∀ c ∈ i.repr.toList, isPart c = true := by
  cases i with
  | ofNat n => exact isPart_repr n
  | negSucc n =>
    rw [toList_repr_negSucc]
    exact List.forall_mem_cons.mpr ⟨rfl, isPart_repr (n + 1)⟩

theorem leading?_uint8 (x : UInt8) (ends : Ends rest) :
    leading? uint8? (x.toNat.repr.toList ++ rest) = some (x, rest) :=
  leading?_append (isPart_repr _) (uint8?_repr x) ends

theorem leading?_uint32 (x : UInt32) (ends : Ends rest) :
    leading? uint32? (x.toNat.repr.toList ++ rest) = some (x, rest) :=
  leading?_append (isPart_repr _) (uint32?_repr x) ends

theorem leading?_int32 (x : Int32) (ends : Ends rest) :
    leading? int32? (x.toInt.repr.toList ++ rest) = some (x, rest) :=
  leading?_append (isPart_int _) (int32?_repr x) ends

def hex64? (cs : List Char) : Option UInt64 := (hex? cs).map UInt64.ofNat

theorem hex64?_hex (x : UInt64) : hex64? (hex x.toNat).toList = some x := by
  rw [hex64?, hex?_hex, Option.map_some, UInt64.ofNat_toNat]

end Numeral

/-! ### Registers -/

namespace Register

def leadingFile? : List Char → Option (RegFile × List Char)
  | 'g' :: 'p' :: cs => some (.general, cs)
  | 'v' :: 'e' :: 'c' :: cs => some (.vector, cs)
  | _ => none

def leading? (cs : List Char) : Option (Register × List Char) := do
  let (file, cs) ← leadingFile? cs
  let (bits, cs) ← Numeral.leading? Numeral.uint32? cs
  let cs ← Location.after? [':'] cs
  let (index, cs) ← Numeral.leading? Numeral.uint8? cs
  some (⟨⟨file, bits⟩, index⟩, cs)

def ofChars? (cs : List Char) : Option Register :=
  match leading? cs with
  | some (r, []) => some r
  | _ => none

def operand? (cs : List Char) : Option (Register × List Char) := do
  let (r, cs) ← leading? cs
  let cs ← Location.after? [',', ' '] cs
  some (r, cs)

theorem leadingFile?_append (file : RegFile) (rest : List Char) :
    leadingFile? (file.text.toList ++ rest) = some (file, rest) := by
  cases file with
  | general => rfl
  | vector => rfl

theorem leading?_append (r : Register) (ends : Numeral.Ends rest) :
    leading? (r.text.toList ++ rest) = some (r, rest) := by
  have text : r.text.toList ++ rest = r.cls.file.text.toList ++ (r.cls.bits.toNat.repr.toList ++
      ([':'] ++ (r.index.toNat.repr.toList ++ rest))) := by
    simp [Register.text, RegClass.text]
  have bits : Numeral.leading? Numeral.uint32? (r.cls.bits.toNat.repr.toList ++
      ([':'] ++ (r.index.toNat.repr.toList ++ rest))) =
        some (r.cls.bits, [':'] ++ (r.index.toNat.repr.toList ++ rest)) :=
    Numeral.leading?_uint32 _ (Numeral.ends_cons (by decide))
  simp only [leading?, text, leadingFile?_append, bits, Location.after?_append, Numeral.leading?_uint8 _ ends,
    Option.bind_eq_bind, Option.bind_some]

theorem ofChars?_text (r : Register) : ofChars? r.text.toList = some r := by
  have read := leading?_append r Numeral.ends_nil
  rw [List.append_nil] at read
  rw [ofChars?, read]

theorem operand?_append (r : Register) (rest : List Char) :
    operand? (r.text.toList ++ (", ".toList ++ rest)) = some (r, rest) := by
  have read : leading? (r.text.toList ++ (", ".toList ++ rest)) = some (r, ", ".toList ++ rest) :=
    leading?_append r (Numeral.ends_cons (by decide))
  rw [operand?, read]
  rfl

end Register

/-! ### Locations -/

namespace Location

/-- As `ofChars?` reads, but with registers of any width. -/
def anyWidth? (cs : List Char) : Option Location :=
  match slotBody? cs with
  | some body => (Numeral.int32? body).map .stack
  | none => (Register.ofChars? cs).map .register

theorem anyWidth?_text (l : Location) : anyWidth? l.text.toList = some l := by
  cases l with
  | stack offset =>
    have slot : slotBody? (stack offset).text.toList = some offset.toInt.repr.toList :=
      slotBody?_eq_some_iff.mpr (by simp only [text, String.toList_append])
    simp only [anyWidth?, slot, Numeral.int32?_repr, Option.map_some]
  | register r =>
    have noSlot : slotBody? r.text.toList = none := by
      simp only [Register.text, RegClass.text, String.toList_append, List.append_assoc]
      exact slotBody?_register r.cls.file _
    simp only [anyWidth?, text, noSlot, Register.ofChars?_text, Option.map_some]

end Location

/-! ### Memory operands -/

namespace MemOperand

/-- The end of the text shows whether the displacement moves the base. -/
def closed? (base : Register) (disp : Int32) : List Char → Option MemOperand
  | [']'] => some (.offset base disp)
  | [']', '!'] => some (.preIndex base disp)
  | _ => none

def displaced? (base : Register) (cs : List Char) : Option MemOperand := do
  let (disp, close) ← Numeral.leading? Numeral.int32? cs
  closed? base disp close

def afterBase? (base : Register) : List Char → Option MemOperand
  | [']'] => some (.ofBase base)
  | ']' :: ',' :: ' ' :: '#' :: cs => (Numeral.int32? cs).map (.postIndex base)
  | ',' :: ' ' :: '#' :: cs => displaced? base cs
  | _ => none

def ofChars? (cs : List Char) : Option MemOperand := do
  let cs ← Location.after? ['['] cs
  let (base, cs) ← Register.leading? cs
  afterBase? base cs

theorem ofChars?_append (base : Register) (ends : Numeral.Ends rest) :
    ofChars? ("[".toList ++ (base.text.toList ++ rest)) = afterBase? base rest := by
  have opened : Location.after? ['['] ("[".toList ++ (base.text.toList ++ rest)) = some (base.text.toList ++ rest) :=
    Location.after?_append _ _
  simp only [ofChars?, opened, Register.leading?_append base ends, Option.bind_eq_bind, Option.bind_some]

theorem displaced?_append (base : Register) (disp : Int32) {close : List Char} (ends : Numeral.Ends close) :
    displaced? base (disp.toInt.repr.toList ++ close) = closed? base disp close := by
  rw [displaced?, Numeral.leading?_int32 disp ends]
  rfl

theorem ofChars?_text (m : MemOperand) : ofChars? m.text.toList = some m := by
  obtain ⟨base, disp, mode⟩ := m
  cases mode with
  | offset =>
    by_cases zero : disp = 0
    · -- Nothing stands between the base and its bracket, and the reader puts the zero back.
      simp only [text, zero, if_true, String.toList_append, List.append_assoc]
      exact ofChars?_append base (Numeral.ends_cons (by decide))
    · simp only [text, zero, if_false, String.toList_append, List.append_assoc]
      refine (ofChars?_append base (Numeral.ends_cons (by decide))).trans ?_
      exact displaced?_append base disp (Numeral.ends_cons (by decide))
  | preIndex =>
    simp only [text, String.toList_append, List.append_assoc]
    refine (ofChars?_append base (Numeral.ends_cons (by decide))).trans ?_
    exact displaced?_append base disp (Numeral.ends_cons (by decide))
  | postIndex =>
    simp only [text, String.toList_append, List.append_assoc]
    refine (ofChars?_append base (Numeral.ends_cons (by decide))).trans ?_
    exact congrArg (Option.map (postIndex base)) (Numeral.int32?_repr disp)

end MemOperand

/-! ### Instructions -/

namespace Instr

/-- A last operand that is a number behind a hash, or else a register. -/
def last? {α : Type} (read? : List Char → Option α) (number : α → Instr) (register : Register → Instr) :
    List Char → Option Instr
  | '#' :: cs => (read? cs).map number
  | cs => (Register.ofChars? cs).map register

def access? (make : Register → MemOperand → Instr) (cs : List Char) : Option Instr := do
  let (r, cs) ← Register.operand? cs
  (MemOperand.ofChars? cs).map (make r)

def copy? (cs : List Char) : Option Instr := do
  let (dst, cs) ← Register.operand? cs
  last? Numeral.hex64? (.movImm dst) (.mov dst) cs

def arith? (number : Register → Register → UInt32 → Instr) (register : Register → Register → Register → Instr)
    (cs : List Char) : Option Instr := do
  let (dst, cs) ← Register.operand? cs
  let (src, cs) ← Register.operand? cs
  last? Numeral.uint32? (number dst src) (register dst src) cs

def operands? : String → List Char → Option Instr
  | "push", cs => (Register.ofChars? cs).map .push
  | "pop", cs => (Register.ofChars? cs).map .pop
  | "store", cs => access? .store cs
  | "load", cs => access? .load cs
  | "mov", cs => copy? cs
  | "add", cs => arith? .addImm .add cs
  | "sub", cs => arith? .subImm .sub cs
  | _, _ => none

def ofChars? (cs : List Char) : Option Instr := do
  let operands ← Location.after? [' '] (cs.dropWhile (· ≠ ' '))
  operands? (String.ofList (cs.takeWhile (· ≠ ' '))) operands

section Operands

variable {α : Type} {read? : List Char → Option α} {number : α → Instr} {register : Register → Instr}

theorem last?_number {cs : List Char} {x : α} (read : read? cs = some x) :
    last? read? number register ('#' :: cs) = some (number x) := by
  rw [last?, read, Option.map_some]

theorem last?_register (r : Register) : last? read? number register r.text.toList = some (register r) := by
  have read := Register.ofChars?_text r
  unfold last?
  split
  · -- A register is never read off a hash.
    rename_i cs hash
    rw [hash] at read
    cases read
  · rw [read, Option.map_some]

end Operands

theorem access?_text (make : Register → MemOperand → Instr) (r : Register) (mem : MemOperand) :
    access? make (r.text.toList ++ (", ".toList ++ mem.text.toList)) = some (make r mem) := by
  simp only [access?, Register.operand?_append, MemOperand.ofChars?_text, Option.bind_eq_bind, Option.bind_some,
    Option.map_some]

theorem copy?_append (dst : Register) (rest : List Char) :
    copy? (dst.text.toList ++ (", ".toList ++ rest)) = last? Numeral.hex64? (.movImm dst) (.mov dst) rest := by
  rw [copy?, Register.operand?_append]
  rfl

theorem arith?_append (number : Register → Register → UInt32 → Instr)
    (register : Register → Register → Register → Instr) (dst src : Register) (rest : List Char) :
    arith? number register (dst.text.toList ++ (", ".toList ++ (src.text.toList ++ (", ".toList ++ rest)))) =
      last? Numeral.uint32? (number dst src) (register dst src) rest := by
  simp only [arith?, Register.operand?_append, Option.bind_eq_bind, Option.bind_some]

theorem ofChars?_append (mnemonic : String) (clear : ' ' ∉ mnemonic.toList) (rest : List Char) :
    ofChars? (mnemonic.toList ++ ' ' :: rest) = operands? mnemonic rest := by
  obtain ⟨taken, dropped⟩ := Location.cut_mark clear rest
  rw [ofChars?, taken, dropped, String.ofList_toList]
  rfl

theorem ofChars?_text (i : Instr) : ofChars? i.text.toList = some i := by
  cases i with
  | push r =>
    simp only [text, String.toList_append]
    refine (ofChars?_append "push" (by decide) _).trans ?_
    exact congrArg (Option.map push) (Register.ofChars?_text r)
  | pop r =>
    simp only [text, String.toList_append]
    refine (ofChars?_append "pop" (by decide) _).trans ?_
    exact congrArg (Option.map pop) (Register.ofChars?_text r)
  | store src mem =>
    simp only [text, String.toList_append, List.append_assoc]
    refine (ofChars?_append "store" (by decide) _).trans ?_
    exact access?_text store src mem
  | load dst mem =>
    simp only [text, String.toList_append, List.append_assoc]
    refine (ofChars?_append "load" (by decide) _).trans ?_
    exact access?_text load dst mem
  | mov dst src =>
    simp only [text, String.toList_append, List.append_assoc]
    refine (ofChars?_append "mov" (by decide) _).trans ?_
    exact (copy?_append dst _).trans (last?_register src)
  | movImm dst imm =>
    simp only [text, String.toList_append, List.append_assoc]
    refine (ofChars?_append "mov" (by decide) _).trans ?_
    exact (copy?_append dst _).trans (last?_number (Numeral.hex64?_hex imm))
  | addImm dst src imm =>
    simp only [text, String.toList_append, List.append_assoc]
    refine (ofChars?_append "add" (by decide) _).trans ?_
    exact (arith?_append addImm add dst src _).trans (last?_number (Numeral.uint32?_repr imm))
  | subImm dst src imm =>
    simp only [text, String.toList_append, List.append_assoc]
    refine (ofChars?_append "sub" (by decide) _).trans ?_
    exact (arith?_append subImm sub dst src _).trans (last?_number (Numeral.uint32?_repr imm))
  | add dst lhs rhs =>
    simp only [text, String.toList_append, List.append_assoc]
    refine (ofChars?_append "add" (by decide) _).trans ?_
    exact (arith?_append addImm add dst lhs _).trans (last?_register rhs)
  | sub dst lhs rhs =>
    simp only [text, String.toList_append, List.append_assoc]
    refine (ofChars?_append "sub" (by decide) _).trans ?_
    exact (arith?_append subImm sub dst lhs _).trans (last?_register rhs)

/-- A number and a register behind one mnemonic, and a displacement that is written though it is zero. -/
example :
    ofChars? "mov gp64:16, #0x1f".toList = some (.movImm (.gp64 16) 0x1f) ∧
      ofChars? "mov gp64:16, vec7:31".toList = some (.mov (.gp64 16) ⟨⟨.vector, 7⟩, 31⟩) ∧
      ofChars? "store gp0:1, [gp64:4, #0]!".toList = some (.store ⟨⟨.general, 0⟩, 1⟩ (.preIndex (.gp64 4) 0)) :=
  ⟨rfl, rfl, rfl⟩

end Instr

theorem injective_of_reads_back {α : Type} {text : α → String} {read? : List Char → Option α}
    (back : ∀ x, read? (text x).toList = some x) : Function.Injective text := by
  intro x y same
  have read := back x
  rw [same, back y] at read
  exact (Option.some.inj read).symm

/-- Two instructions with the same text are the same, and so are two memory operands and two locations. -/
theorem texts_are_unambiguous :
    Function.Injective Instr.text ∧ Function.Injective MemOperand.text ∧ Function.Injective Location.text :=
  ⟨injective_of_reads_back Instr.ofChars?_text, injective_of_reads_back MemOperand.ofChars?_text,
    injective_of_reads_back Location.anyWidth?_text⟩

end CallFrame
