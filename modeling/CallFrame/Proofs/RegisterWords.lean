import CallFrame.Proofs.RenderedLines
import CallFrame.Sequence

/-! The words for registers in a rendered line, in the order of the text. -/
namespace CallFrame

/-! ### Words of a line -/

namespace Asm

def isMark (c : Char) : Bool := [' ', ',', '(', ')', '[', ']', '!'].contains c

/-- A word that is no number: it begins with a letter or a percent sign. A shift is a word too, but names no register. -/
def namesRegister : List Char → Bool
  | [] => false
  | c :: rest => (c = '%' || c.isAlpha) && c :: rest ≠ ['l', 's', 'l']

def registersIn (text : List Char) : List (List Char) := (text.splitOnP isMark).filter namesRegister

def registerWords (line : String) : List String :=
  (registersIn (line.toList.dropWhile (· != ' '))).map String.ofList

@[simp] theorem registersIn_nil : registersIn [] = [] := rfl

@[simp] theorem registersIn_append {c : Char} (mark : isMark c = true) (front back : List Char) :
    registersIn (front ++ c :: back) = registersIn front ++ registersIn back := by
  unfold registersIn
  rw [List.splitOnP_append_cons front back mark, List.filter_append]

@[simp] theorem registersIn_cons {c : Char} (mark : isMark c = true) (text : List Char) :
    registersIn (c :: text) = registersIn text :=
  registersIn_append mark [] text

@[simp] theorem registersIn_cons_append {c : Char} (mark : isMark c = true) (first : Char) (front back : List Char) :
    registersIn (first :: (front ++ c :: back)) = registersIn (first :: front) ++ registersIn back :=
  registersIn_append mark (first :: front) back

@[simp] theorem registersIn_shift (back : List Char) : registersIn ('l' :: 's' :: 'l' :: ' ' :: back) = registersIn back :=
  registersIn_append (by decide) ['l', 's', 'l'] back

theorem registersIn_word {word : List Char} (clear : ∀ c ∈ word, isMark c = false) :
    registersIn word = if namesRegister word then [word] else [] := by
  rw [registersIn, List.splitOnP_eq_singleton clear, List.filter_cons]
  rfl

/-! ### Words without marks -/

theorem isMark_other {c : Char} (mark : isMark c = true) : (c.isAlphanum = false ∧ c ≠ ':') ∧ c ≠ '-' ∧ c ≠ '%' := by
  simp only [isMark, List.contains_iff_mem, List.mem_cons, List.not_mem_nil, or_false] at mark
  rcases mark with rfl | rfl | rfl | rfl | rfl | rfl | rfl <;> decide

theorem clear_of_not_mem {word : List Char} (absent : ∀ c, isMark c = true → c ∉ word) :
    ∀ c ∈ word, isMark c = false := by
  intro c member
  cases mark : isMark c with
  | false => rfl
  | true => exact (absent c mark member).elim

theorem Solid.clear {s : String} (solid : Solid s) : ∀ c ∈ s.toList, isMark c = false :=
  clear_of_not_mem fun _ mark => solid.not_mem (isMark_other mark).1

theorem clear_toDigits (n : Nat) : ∀ c ∈ Nat.toDigits 10 n, isMark c = false :=
  clear_of_not_mem fun _ mark => not_mem_toDigits n (isMark_other mark).1

theorem clear_int (i : Int) : ∀ c ∈ i.repr.toList, isMark c = false :=
  clear_of_not_mem fun _ mark => not_mem_int i (isMark_other mark).1 (isMark_other mark).2.1

theorem clear_displacement (d : Displacement) : ∀ c ∈ d.text.toList, isMark c = false :=
  clear_of_not_mem fun _ mark => not_mem_displacement d (isMark_other mark).1 (isMark_other mark).2.1

theorem registersIn_number {c : Char} {digits : List Char} (sign : c = '$' ∨ c = '#')
    (clear : ∀ c ∈ digits, isMark c = false) : registersIn (c :: digits) = [] := by
  have whole : ∀ d ∈ c :: digits, isMark d = false := by
    rcases sign with rfl | rfl <;> exact List.forall_mem_cons.mpr ⟨by decide, clear⟩
  have number : namesRegister (c :: digits) = false := by
    rcases sign with rfl | rfl <;> simp [namesRegister]
  rw [registersIn_word whole, number]
  rfl

theorem namesRegister_toDigits (n : Nat) : namesRegister (Nat.toDigits 10 n) = false := by
  cases text : Nat.toDigits 10 n with
  | nil => rfl
  | cons c rest =>
    obtain ⟨d, small, rfl⟩ := Numeral.digitChar_of_mem_toDigits (by decide) (text ▸ List.mem_cons_self)
    have digits : ∀ d < 10, d.digitChar ≠ '%' ∧ d.digitChar.isAlpha = false := by decide
    simp [namesRegister, digits d small]

@[simp] theorem registersIn_displacement (d : Displacement) : registersIn d.text.toList = [] := by
  have number : namesRegister d.text.toList = false := by
    unfold Displacement.text
    split
    · simp [namesRegister]
    · simp [namesRegister_toDigits]
  rw [registersIn_word (clear_displacement d), number]
  rfl

theorem namesRegister_text (r : Register) : namesRegister r.text.toList = true := by
  cases file : r.cls.file <;> simp [Register.text, RegClass.text, RegFile.text, file, namesRegister]

namespace Att

theorem clear_reg (r : Register) : ∀ c ∈ (reg r).toList, isMark c = false :=
  clear_of_not_mem fun _ mark => not_mem_reg r (isMark_other mark).1 (isMark_other mark).2.2

@[simp] theorem registersIn_reg (r : Register) : registersIn (reg r).toList = [(reg r).toList] := by
  have names : namesRegister (reg r).toList = true := by
    unfold reg
    split
    · simp [namesRegister]
    · exact namesRegister_text r
  rw [registersIn_word (clear_reg r), names]
  rfl

@[simp] theorem registersIn_address (a : Address) : registersIn a.text.toList = [(reg a.base).toList] := by
  unfold Address.text
  cases a.disp <;> simp [isMark]

/-- The registers that a line shows, in the order of the text. -/
def Line.registers : Line → List Register
  | .pushq r | .popq r | .negq r | .movqImm _ r | .movabsq _ r | .addqImm _ r | .subqImm _ r => [r]
  | .store _ src dst => [src, dst.base]
  | .load _ src dst | .leaq src dst => [src.base, dst]
  | .copy _ src dst | .addq src dst | .subq src dst => [src, dst]
  | .leaqSum base index dst => [base, index, dst]

theorem registerWords_text (l : Line) : registerWords l.text = l.registers.map reg := by
  have digits : ∀ n, registersIn ('$' :: Nat.toDigits 10 n) = [] := fun n =>
    registersIn_number (.inl rfl) (clear_toDigits n)
  have int : ∀ i : Int, registersIn ('$' :: i.repr.toList) = [] := fun i => registersIn_number (.inl rfl) (clear_int i)
  have hex : ∀ n, registersIn ('$' :: (Numeral.hex n).toList) = [] := fun n =>
    registersIn_number (.inl rfl) (Solid.hex n).clear
  cases l with
  | store op | load op | copy op =>
    cases op <;>
      simp [registerWords, Line.text, Transfer.text, Copy.text, Line.registers, isMark]
  | _ => simp [registerWords, Line.text, Line.registers, digits, int, hex, isMark]

end Att

namespace A64

def bytesName (index : UInt8) : String := "v" ++ index.toNat.repr ++ ".16b"

theorem namesRegister_numbered {stem : String} {c : Char} (begins : stem.toList = [c]) (letter : c.isAlpha = true)
    (other : c ≠ 'l') (count : Nat) : ∀ n ∈ numbered stem count, namesRegister n.toList = true := by
  intro n member
  obtain ⟨i, -, rfl⟩ := List.mem_map.mp member
  simp [begins, namesRegister, letter, other]

theorem namesRegister_classNames (c : RegClass) : ∀ n ∈ A64.classNames c, namesRegister n.toList = true := by
  unfold A64.classNames
  split
  · exact List.forall_mem_append.mpr ⟨namesRegister_numbered rfl (by decide) (by decide) 31, by decide⟩
  · split
    · exact List.forall_mem_append.mpr ⟨namesRegister_numbered rfl (by decide) (by decide) 31, by decide⟩
    · split
      · exact namesRegister_numbered rfl (by decide) (by decide) 32
      · split
        · exact namesRegister_numbered rfl (by decide) (by decide) 32
        · exact List.forall_mem_nil _

@[simp] theorem registersIn_reg (r : Register) : registersIn (reg r).toList = [(reg r).toList] := by
  have names : namesRegister (reg r).toList = true := by
    unfold reg
    cases found : (A64.classNames r.cls)[r.index.toNat]? with
    | some name => exact namesRegister_classNames r.cls name (List.mem_of_getElem? found)
    | none => exact namesRegister_text r
  rw [registersIn_word (solid_reg r).clear, names]
  rfl

@[simp] theorem registersIn_bytesName (index : UInt8) : registersIn (bytesName index).toList = [(bytesName index).toList] := by
  have clear : ∀ c ∈ (bytesName index).toList, isMark c = false := by
    intro c member
    have parts : c ∈ 'v' :: (Nat.toDigits 10 index.toNat ++ ['.', '1', '6', 'b']) := by
      simpa [bytesName] using member
    have ending : ∀ c ∈ ['.', '1', '6', 'b'], isMark c = false := by simp [isMark]
    rcases List.mem_cons.mp parts with rfl | parts
    · decide
    · exact List.forall_mem_append.mpr ⟨clear_toDigits index.toNat, ending⟩ c parts
  have names : namesRegister (bytesName index).toList = true := by
    simp [bytesName, namesRegister]
  rw [registersIn_word clear, names]
  rfl

def Address.base : Address → Register
  | .bare base | .offset base _ | .preIndex base _ | .postIndex base _ => base

@[simp] theorem registersIn_address (a : Address) : registersIn a.text.toList = [(reg a.base).toList] := by
  have number : ∀ d : Displacement, registersIn ('#' :: d.text.toList) = [] := fun d =>
    registersIn_number (.inr rfl) (clear_displacement d)
  cases a <;> simp [Address.text, Address.base, number, isMark]

def Line.names : Line → List String
  | .str r a | .ldr r a => [reg r, reg a.base]
  | .mov dst src | .fmov dst src | .arithImm _ dst src _ _ => [reg dst, reg src]
  | .movBytes dst src => [bytesName dst, bytesName src]
  | .movImm dst _ | .movz dst _ _ | .movk dst _ _ => [reg dst]
  | .arith _ dst lhs rhs => [reg dst, reg lhs, reg rhs]

theorem registerWords_text (l : Line) : registerWords l.text = l.names := by
  have number : ∀ n, registersIn ('#' :: Nat.toDigits 10 n) = [] := fun n =>
    registersIn_number (.inr rfl) (clear_toDigits n)
  have twelve : registersIn ['#', '1', '2'] = [] := registersIn_number (.inr rfl) (by simp [isMark])
  cases l with
  | arithImm op _ _ _ shifted =>
    cases op <;> cases shifted <;>
      simp [registerWords, Line.text, Line.names, ArithOp.text, number, twelve, isMark]
  | arith op => cases op <;> simp [registerWords, Line.text, Line.names, ArithOp.text, isMark]
  | movBytes dst src =>
    -- The digits of an index stand inside a word, so the text is put together from whole words first.
    have text : (Line.movBytes dst src).text.toList =
        "mov ".toList ++ ((bytesName dst).toList ++ ',' :: ' ' :: (bytesName src).toList) := by
      simp [Line.text, bytesName]
    rw [registerWords, text]
    simp [Line.names, isMark]
  | _ => simp [registerWords, Line.text, Line.names, number, isMark]

end A64
end Asm

/-! ### Names of operands -/

/-- The registers that the line of an instruction shows, in the order of the text. On x86-64 the destination comes last, and
stands for an equal source too; on AArch64 it comes first. -/
def Isa.operands : Isa → Instr → List Register
  | .x86_64, .push r | .x86_64, .pop r | .x86_64, .movImm r _ => [r]
  | .x86_64, .store src mem => [src, mem.base]
  | .x86_64, .load dst mem => [mem.base, dst]
  | .x86_64, .mov dst src => [src, dst]
  | .x86_64, .addImm dst src _ | .x86_64, .subImm dst src _ => if dst = src then [dst] else [src, dst]
  | .x86_64, .add dst lhs rhs => if dst = lhs then [rhs, dst] else if dst = rhs then [lhs, dst] else [lhs, rhs, dst]
  | .x86_64, .sub dst _ rhs => [rhs, dst]
  | .aarch64, .push r | .aarch64, .pop r => [r, A64.sp]
  | .aarch64, .movImm r _ => [r]
  | .aarch64, .store r mem | .aarch64, .load r mem => [r, mem.base]
  | .aarch64, .mov dst src | .aarch64, .addImm dst src _ | .aarch64, .subImm dst src _ => [dst, src]
  | .aarch64, .add dst lhs rhs | .aarch64, .sub dst lhs rhs => [dst, lhs, rhs]

/-- How the instruction set writes a register of the instruction: by its name, and in an AArch64 copy of 128 bits by its
index. -/
def Isa.operandName? (isa : Isa) (i : Instr) (r : Register) : Option String :=
  match isa, i with
  | .x86_64, _ => (isa.regName? r).map ("%" ++ ·)
  | .aarch64, .mov dst _ => if dst.cls = .vec128 then some (Asm.A64.bytesName r.index) else isa.regName? r
  | .aarch64, _ => isa.regName? r

/-- The instruction is rendered to this one line. Its operands all have names, and the words for registers in the line are
these names in the order of the operands. -/
structure Instr.Spelled (isa : Isa) (i : Instr) (line : String) : Prop where
  rendered : isa.render i = [line]
  named : ∀ r ∈ isa.operands i, (isa.regName? r).isSome = true
  words : (Asm.registerWords line).map some = (isa.operands i).map (isa.operandName? i)

/-- Forms that are sure to take one line; on AArch64 some larger constants do too. -/
def Instr.OneLine (isa : Isa) : Instr → Prop
  | .push _ | .pop _ | .mov _ _ | .add _ _ _ => True
  | .store _ mem | .load _ mem => isa = .x86_64 → mem.mode = .offset
  | .movImm _ imm => isa = .aarch64 → imm ≤ 0xFFFF
  | .addImm _ _ imm | .subImm _ _ imm => isa = .aarch64 → imm < 4096
  | .sub dst lhs _ => isa = .x86_64 → dst = lhs

variable {isa : Isa} {i : Instr} {r : Register} {file : RegFile}

theorem Instr.spelled_of {line : String} (write : Register → String) (rendered : isa.render i = [line])
    (named : ∀ r ∈ isa.operands i, (isa.regName? r).isSome = true)
    (shown : Asm.registerWords line = (isa.operands i).map write)
    (written : ∀ r, (isa.regName? r).isSome = true → isa.operandName? i r = some (write r)) : i.Spelled isa line := by
  refine ⟨rendered, named, ?_⟩
  rw [shown, List.map_map]
  exact List.map_congr_left fun r member => (written r (named r member)).symm

namespace Asm.Att

theorem reg_of_name {name : String} (named : Isa.x86_64.regName? r = some name) : reg r = "%" ++ name := by
  apply reg_of_entry
  change (X86.classNames r.cls)[r.index.toNat]? = some name at named
  unfold X86.classNames at named
  split at named
  · rename_i cls
    rw [cls]
    exact named
  · split at named
    · rename_i cls
      rw [cls]
      exact named
    · split at named
      · rename_i cls
        rw [cls]
        exact named
      · cases named

theorem operandName?_of_named (i : Instr) (named : (Isa.x86_64.regName? r).isSome = true) :
    Isa.x86_64.operandName? i r = some (reg r) := by
  obtain ⟨name, found⟩ := Option.isSome_iff_exists.mp named
  change (Isa.x86_64.regName? r).map _ = _
  rw [reg_of_name found, found]
  rfl

theorem lower_oneLine (form : i.OneLine .x86_64) : ∃ l, lower i = [l] ∧ l.registers = Isa.x86_64.operands i := by
  have base : ∀ r disp, (Address.offset r disp).base = r := by
    intro r disp
    unfold Address.offset
    split <;> rfl
  cases i with
  | push r | pop r | mov dst src => exact ⟨_, rfl, rfl⟩
  | store r mem =>
    refine ⟨.store (.ofClass r.cls) r (.offset mem.base mem.disp), ?_, ?_⟩
    · rw [lower, through, form rfl]
    · simp [Line.registers, Isa.operands, base]
  | load r mem =>
    refine ⟨.load (.ofClass r.cls) (.offset mem.base mem.disp) r, ?_, ?_⟩
    · rw [lower, through, form rfl]
    · simp [Line.registers, Isa.operands, base]
  | movImm dst imm =>
    rw [lower]
    split <;> exact ⟨_, rfl, rfl⟩
  | addImm dst src imm | subImm dst src imm =>
    rw [lower, Isa.operands]
    split <;> exact ⟨_, rfl, rfl⟩
  | add dst lhs rhs =>
    rw [lower, Isa.operands]
    split
    · exact ⟨_, rfl, rfl⟩
    · split <;> exact ⟨_, rfl, rfl⟩
  | sub dst lhs rhs =>
    rw [lower, if_pos (form rfl)]
    exact ⟨_, rfl, rfl⟩

theorem spelled (form : i.OneLine .x86_64) (named : ∀ r ∈ Isa.x86_64.operands i, (Isa.x86_64.regName? r).isSome = true) :
    ∃ line, i.Spelled .x86_64 line := by
  obtain ⟨l, lowered, shown⟩ := lower_oneLine form
  refine ⟨l.text, Instr.spelled_of reg (by rw [Isa.render, lowered]; rfl) named ?_ fun _ => operandName?_of_named i⟩
  rw [registerWords_text, shown]

end Asm.Att

namespace Asm.A64

theorem name_of_named (named : (Isa.aarch64.regName? r).isSome = true) : Isa.aarch64.regName? r = some (reg r) := by
  obtain ⟨name, found⟩ := Option.isSome_iff_exists.mp named
  rw [reg, show (A64.classNames r.cls)[r.index.toNat]? = some name from found, found, Option.getD_some]

def written (i : Instr) (r : Register) : String :=
  match i with
  | .mov dst _ => if dst.cls = .vec128 then bytesName r.index else reg r
  | _ => reg r

theorem operandName?_of_named (i : Instr) (named : (Isa.aarch64.regName? r).isSome = true) :
    Isa.aarch64.operandName? i r = some (written i r) := by
  have name := name_of_named named
  cases i with
  | mov dst src =>
    simp only [Isa.operandName?, written, name]
    split <;> rfl
  | _ => exact name

theorem lower_oneLine (form : i.OneLine .aarch64) :
    ∃ l, lower i = [l] ∧ l.names = (Isa.aarch64.operands i).map (written i) := by
  have base : ∀ mem, (Address.ofOperand mem).base = mem.base := by
    intro mem
    unfold Address.ofOperand
    split
    · split <;> rfl
    · rfl
    · rfl
  have short : ∀ op dst src (imm : UInt32), imm < 4096 →
      arithImm op dst src imm = [.arithImm op dst src (imm &&& 0xFFF) false] := by
    intro op dst src imm small
    exact if_pos ((high_eq_zero_iff imm).mpr small)
  cases i with
  | push r | pop r | add dst lhs rhs | sub dst lhs rhs => exact ⟨_, rfl, rfl⟩
  | store r mem | load r mem => exact ⟨_, rfl, by simp [Line.names, Isa.operands, written, base]⟩
  | mov dst src =>
    refine ⟨_, rfl, ?_⟩
    obtain ⟨⟨file, bits⟩, index⟩ := dst
    cases file with
    | general => simp [copy, Line.names, Isa.operands, written, RegClass.vec128]
    | vector =>
      by_cases wide : bits = 128 <;> simp [copy, Line.names, Isa.operands, written, RegClass.vec128, wide]
  | movImm dst imm =>
    have narrow : imm.toNat ≤ 0xFFFF := form rfl
    have small : (if dst.cls = .gp32 then imm.toUInt32.toNat else imm.toNat) ≤ 0xFFFF := by
      split
      · rw [UInt64.toNat_toUInt32]
        exact Nat.le_trans (Nat.mod_le _ _) narrow
      · exact narrow
    exact ⟨_, if_pos small, rfl⟩
  | addImm dst src imm => exact ⟨_, short .add dst src imm (form rfl), rfl⟩
  | subImm dst src imm => exact ⟨_, short .sub dst src imm (form rfl), rfl⟩

theorem spelled (form : i.OneLine .aarch64)
    (named : ∀ r ∈ Isa.aarch64.operands i, (Isa.aarch64.regName? r).isSome = true) : ∃ line, i.Spelled .aarch64 line := by
  obtain ⟨l, lowered, shown⟩ := lower_oneLine form
  refine ⟨l.text, Instr.spelled_of (written i) (by rw [Isa.render, lowered]; rfl) named ?_ fun _ => operandName?_of_named i⟩
  rw [registerWords_text, shown]

end Asm.A64

theorem Instr.spelled (form : i.OneLine isa) (named : ∀ r ∈ isa.operands i, (isa.regName? r).isSome = true) :
    ∃ line, i.Spelled isa line := by
  cases isa with
  | x86_64 => exact Asm.Att.spelled form named
  | aarch64 => exact Asm.A64.spelled form named

/-! ### Names and canonical texts -/

theorem colon_repr (n : Nat) : ':' ∉ n.repr.toList := by
  intro member
  have digit := (Numeral.digits_repr n).isDigit ':' member
  cases digit

theorem colon_numbered {stem : String} (clear : ':' ∉ stem.toList) (count : Nat) :
    ∀ n ∈ numbered stem count, ':' ∉ n.toList := by
  intro n member
  obtain ⟨i, -, rfl⟩ := List.mem_map.mp member
  rw [String.toList_append, List.mem_append, not_or]
  exact ⟨clear, colon_repr i⟩

theorem Isa.colon_classNames (isa : Isa) (c : RegClass) : ∀ n ∈ isa.classNames c, ':' ∉ n.toList := by
  cases isa with
  | x86_64 =>
    change ∀ n ∈ X86.classNames c, _
    unfold X86.classNames
    split
    · decide
    · split
      · decide
      · split
        · exact colon_numbered (by decide) 16
        · exact List.forall_mem_nil _
  | aarch64 =>
    change ∀ n ∈ A64.classNames c, _
    unfold A64.classNames
    split
    · exact List.forall_mem_append.mpr ⟨colon_numbered (by decide) 31, by decide⟩
    · split
      · exact List.forall_mem_append.mpr ⟨colon_numbered (by decide) 31, by decide⟩
      · split
        · exact colon_numbered (by decide) 32
        · split
          · exact colon_numbered (by decide) 32
          · exact List.forall_mem_nil _

theorem Isa.colon_operandName? {word : String} (written : isa.operandName? i r = some word) : ':' ∉ word.toList := by
  have name : ∀ name, isa.regName? r = some name → ':' ∉ name.toList := fun name found =>
    isa.colon_classNames r.cls name (List.mem_of_getElem? found)
  cases isa with
  | x86_64 =>
    obtain ⟨n, found, rfl⟩ := Option.map_eq_some_iff.mp written
    simpa using name n found
  | aarch64 =>
    cases i with
    | mov dst src =>
      simp only [operandName?] at written
      split at written
      · have digits := colon_repr r.index.toNat
        cases written
        rw [Nat.toList_repr] at digits
        simp [Asm.A64.bytesName, digits]
      · exact name word written
    | _ => exact name word written

theorem Instr.Spelled.not_text {line : String} (spelled : i.Spelled isa line) (r : Register) :
    r.text ∉ Asm.registerWords line := by
  intro member
  have shown : some r.text ∈ (Asm.registerWords line).map some := List.mem_map_of_mem member
  rw [spelled.words] at shown
  obtain ⟨s, -, written⟩ := List.mem_map.mp shown
  apply Isa.colon_operandName? written
  simp [Register.text]

/-! ### Code of a frame -/

namespace Isa

theorem regName?_of_slot (savable : isa.slotFile? r = some file) : (isa.regName? r).isSome = true := by
  cases isa with
  | x86_64 =>
    change ((X86.classNames r.cls)[r.index.toNat]?).isSome = true
    simp only [slotFile?] at savable
    split at savable
    · rename_i allowed
      have bound : r.index.toNat < 16 := allowed.1
      split at savable
      · rename_i cls
        rw [cls, isSome_getElem?]
        exact bound
      · split at savable
        · rename_i cls
          rw [cls, isSome_getElem?]
          exact bound
        · cases savable
    · cases savable
  | aarch64 =>
    change ((A64.classNames r.cls)[r.index.toNat]?).isSome = true
    simp only [slotFile?] at savable
    split at savable
    · rename_i general
      have bound : r.index.toNat < 31 := general.2
      rw [general.1, isSome_getElem?]
      exact Nat.lt_succ_of_lt bound
    · split at savable
      · rename_i vector
        have bound : r.index.toNat < 32 := vector.2
        rcases vector.1 with cls | cls
        · rw [cls, isSome_getElem?]
          exact bound
        · rw [cls, isSome_getElem?]
          exact bound
      · cases savable

theorem regName?_stackPointer (isa : Isa) : (isa.regName? isa.stackPointer).isSome = true := by
  cases isa <;> rfl

/-- What frames are made of: forms of one line, with operands that have names. -/
def Framed (isa : Isa) (i : Instr) : Prop := i.OneLine isa ∧ ∀ r ∈ isa.operands i, (isa.regName? r).isSome = true

theorem framed_saveCode (savable : isa.slotFile? r = some file) : ∀ i ∈ isa.saveCode r file, Framed isa i := by
  have named := regName?_of_slot savable
  have pointer := regName?_stackPointer isa
  cases isa with
  | x86_64 =>
    have base : (Isa.x86_64.regName? X86.rsp).isSome = true := pointer
    cases file <;>
      simp [saveCode, Framed, Instr.OneLine, operands, MemOperand.ofBase, MemOperand.offset, named, base]
  | aarch64 =>
    have base : (Isa.aarch64.regName? A64.sp).isSome = true := pointer
    simp [saveCode, Framed, Instr.OneLine, operands, MemOperand.preIndex, named, base]

theorem framed_reloadCode (savable : isa.slotFile? r = some file) : ∀ i ∈ isa.reloadCode r file, Framed isa i := by
  have named := regName?_of_slot savable
  have pointer := regName?_stackPointer isa
  cases isa with
  | x86_64 =>
    have base : (Isa.x86_64.regName? X86.rsp).isSome = true := pointer
    cases file <;>
      simp [reloadCode, Framed, Instr.OneLine, operands, MemOperand.ofBase, MemOperand.offset, named, base]
  | aarch64 =>
    have base : (Isa.aarch64.regName? A64.sp).isSome = true := pointer
    simp [reloadCode, Framed, Instr.OneLine, operands, MemOperand.postIndex, named, base]

theorem framed_mov {s : Register} (first : isa.slotFile? r = some file) (second : isa.slotFile? s = some file) :
    Framed isa (.mov r s) := by
  cases isa <;> simp [Framed, Instr.OneLine, operands, regName?_of_slot first, regName?_of_slot second]

theorem framed_padCode {bytes : UInt32} (small : bytes < 4096) : ∀ i ∈ isa.padCode bytes, Framed isa i := by
  have pointer := regName?_stackPointer isa
  cases isa with
  | x86_64 =>
    have base : (Isa.x86_64.regName? X86.rsp).isSome = true := pointer
    have filler : (Isa.x86_64.regName? X86.rax).isSome = true := rfl
    rw [padCode]
    split <;> simp [Framed, Instr.OneLine, operands, base, filler]
  | aarch64 =>
    have base : (Isa.aarch64.regName? A64.sp).isSome = true := pointer
    simp [padCode, Framed, Instr.OneLine, operands, base, small]

theorem framed_unpadCode {bytes : UInt32} (small : bytes < 4096) : ∀ i ∈ isa.unpadCode bytes, Framed isa i := by
  have pointer := regName?_stackPointer isa
  cases isa <;> simp [unpadCode, Framed, Instr.OneLine, operands, pointer, small]

end Isa
end CallFrame
