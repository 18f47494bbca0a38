import CallFrame.Proofs.Execution
import CallFrame.Proofs.LineText
import CallFrame.Proofs.LocationText
import CallFrame.Proofs.OperandAddress

/-! x86-64 arithmetic, from the text of its lines to the machine. -/
namespace CallFrame.Asm.Att

/-! ### Meaning -/

def Transfer.bytes : Transfer → Nat
  | .movl | .movd => 4
  | .movq => 8
  | .movdqu => 16

def Address.sum (m : Machine) (a : Address) : Addr :=
  m.get64 a.base + BitVec.ofInt 64 (a.disp.elim 0 Displacement.value)

/-- What a line does; pushes, pops and the copies that are not `movq` are given no meaning here. -/
def Line.effect? (m : Machine) : Line → Option Machine
  | .store op src dst => some (m.poke (dst.sum m) op.bytes (m.get src))
  | .load op src dst => some (m.set dst (m.read (src.sum m) op.bytes))
  | .copy .movq src dst => some (m.set64 dst (m.get64 src))
  | .movqImm imm dst => some (m.set64 dst (imm.toBitVec.signExtend 64))
  | .movabsq imm dst => some (m.set64 dst imm.toBitVec)
  | .leaq src dst => some (m.set64 dst (src.sum m))
  | .leaqSum base index dst => some (m.set64 dst (m.get64 base + m.get64 index))
  | .addqImm imm dst => some (m.set64 dst (m.get64 dst + BitVec.ofNat 64 imm.toNat))
  | .subqImm imm dst => some (m.set64 dst (m.get64 dst - BitVec.ofNat 64 imm.toNat))
  | .addq src dst => some (m.set64 dst (m.get64 dst + m.get64 src))
  | .subq src dst => some (m.set64 dst (m.get64 dst - m.get64 src))
  | .negq dst => some (m.set64 dst (-m.get64 dst))
  | _ => none

def runLines (m : Machine) (lines : List Line) : Option Machine := lines.foldlM Line.effect? m

/-- The number that a line carries in a field of 32 bits, sign-extended. -/
def Line.immediate? : Line → Option Int
  | .movqImm imm _ => some imm.toInt
  | .addqImm imm _ | .subqImm imm _ => some imm.toNat
  | .leaq src _ => src.disp.map Displacement.value
  | _ => none

def Line.Encodable (l : Line) : Prop := ∀ n, l.immediate? = some n → -2147483648 ≤ n ∧ n ≤ 2147483647

/-! ### Arithmetic -/

theorem signExtend_toInt32 {imm : UInt64} (fits : fitsInt32 imm.toInt64 = true) :
    imm.toInt64.toInt32.toBitVec.signExtend 64 = imm.toBitVec := by
  simp only [fitsInt32, Bool.and_eq_true, decide_eq_true_eq, Int64.le_iff_toInt_le] at fits
  obtain ⟨low, high⟩ := fits
  apply BitVec.eq_of_toInt_eq
  rw [BitVec.toInt_signExtend_of_le (by decide)]
  exact CallFrame.Operand.toInt_toInt32_of_fits low high

theorem sum_plus (m : Machine) (imm : UInt32) (base : Register) :
    Address.sum m ⟨some (.plus imm), base⟩ = m.get64 base + BitVec.ofNat 64 imm.toNat := by
  simp [Address.sum, Displacement.value, Displacement.plus, BitVec.ofInt_natCast]

theorem sum_minus (m : Machine) (imm : UInt32) (base : Register) :
    Address.sum m ⟨some (.minus imm), base⟩ = m.get64 base - BitVec.ofNat 64 imm.toNat := by
  simp [Address.sum, Displacement.value, Displacement.minus, BitVec.ofInt_neg, BitVec.ofInt_natCast,
    BitVec.sub_eq_add_neg]

variable (m : Machine) {dst lhs rhs : Register}

theorem runLines_movImm (dst : Register) (imm : UInt64) :
    runLines m (lower (.movImm dst imm)) = some (m.effect .x86_64 (.movImm dst imm)) := by
  rw [lower]
  split
  · rename_i fits
    change some (m.set64 dst (imm.toInt64.toInt32.toBitVec.signExtend 64)) = _
    rw [signExtend_toInt32 fits]
    rfl
  · rfl

theorem runLines_addImm (dst src : Register) (imm : UInt32) :
    runLines m (lower (.addImm dst src imm)) = some (m.effect .x86_64 (.addImm dst src imm)) := by
  rw [lower]
  split
  · rename_i same
    subst same
    rfl
  · change some (m.set64 dst (Address.sum m ⟨some (.plus imm), src⟩)) = _
    rw [sum_plus]
    rfl

theorem runLines_subImm (dst src : Register) (imm : UInt32) :
    runLines m (lower (.subImm dst src imm)) = some (m.effect .x86_64 (.subImm dst src imm)) := by
  rw [lower]
  split
  · rename_i same
    subst same
    rfl
  · change some (m.set64 dst (Address.sum m ⟨some (.minus imm), src⟩)) = _
    rw [sum_minus]
    rfl

theorem runLines_add (dst lhs rhs : Register) :
    runLines m (lower (.add dst lhs rhs)) = some (m.effect .x86_64 (.add dst lhs rhs)) := by
  rw [lower]
  split
  · rename_i same
    subst same
    rfl
  · split
    · rename_i same
      subst same
      change some (m.set64 dst (m.get64 dst + m.get64 lhs)) = some (m.set64 dst (m.get64 lhs + m.get64 dst))
      rw [BitVec.add_comm]
    · rfl

/-- Both two-line forms write the destination first; the second line finds its source untouched since the guards have
kept the two apart. -/
theorem runLines_sub (wide : dst.cls = .gp64) (left : lhs.cls = .gp64) (right : rhs.cls = .gp64) :
    runLines m (lower (.sub dst lhs rhs)) = some (m.effect .x86_64 (.sub dst lhs rhs)) := by
  rw [lower]
  split
  · rename_i same
    subst same
    rfl
  · rename_i apartLeft
    split
    · rename_i same
      subst same
      have keptLeft : ∀ a, (m.set64 dst a).get64 lhs = m.get64 lhs := fun a =>
        m.get64_set64_other a (Register.cell_ne_of_cls_eq (left.trans wide.symm) (Ne.symm apartLeft))
      simp only [runLines, List.foldlM_cons, List.foldlM_nil, Line.effect?, Option.bind_eq_bind, Option.bind_some,
        Option.pure_def, Machine.get64_set64_same m _ wide, keptLeft, Machine.set64_set64, Machine.effect]
      rw [BitVec.add_comm, BitVec.sub_eq_add_neg]
    · rename_i apartRight
      have keptRight : ∀ a, (m.set64 dst a).get64 rhs = m.get64 rhs := fun a =>
        m.get64_set64_other a (Register.cell_ne_of_cls_eq (right.trans wide.symm) (Ne.symm apartRight))
      simp only [runLines, List.foldlM_cons, List.foldlM_nil, Line.effect?, Option.bind_eq_bind, Option.bind_some,
        Option.pure_def, Machine.get64_set64_same m _ wide, keptRight, Machine.set64_set64, Machine.effect]

/-! ### Reading operands -/

def Named (r : Register) : Prop := (r.cls = .gp64 ∨ r.cls = .vec128) ∧ r.index.toNat < 16

inductive Argument where
  | immediate (digits : List Char)
  | register (r : Register)
  | memory (a : Address)
  | sum (base index : Register)

def register? (cs : List Char) : Option Register := do
  let name := String.ofList (← Location.after? ['%'] cs)
  (named? X86.gp64Names .gp64 name).or (named? X86.xmmNames .vec128 name)

def displacement? (cs : List Char) : Option (Option Displacement) :=
  if cs = [] then some none
  else
    match Location.after? ['-'] cs with
    | some digits => (Numeral.uint32? digits).map fun n => some (.minus n)
    | none => (Numeral.uint32? cs).map fun n => some (.plus n)

/-- What stands before a pair of parentheses at the end of a word, and what stands between them. -/
def parenthesized? (cs : List Char) : Option (List Char × List Char) :=
  match cs.splitOn '(' with
  | [front, back] => if back.getLast? = some ')' then some (front, back.dropLast) else none
  | _ => none

def memory? (cs : List Char) : Option Argument := do
  let (front, inner) ← parenthesized? cs
  match inner.splitOn ',' with
  | [base] => some (.memory ⟨← displacement? front, ← register? base⟩)
  | [base, index] => if front = [] then some (.sum (← register? base) (← register? index)) else none
  | _ => none

def argument? (word : String) : Option Argument :=
  ((Location.after? ['$'] word.toList).map .immediate).or
    ((memory? word.toList).or ((register? word.toList).map .register))

variable {r : Register}

theorem reg_of_entry {name : String} (found : (classNames r.cls)[r.index.toNat]? = some name) : reg r = "%" ++ name := by
  rw [reg, found]

theorem reg_eq (named : Named r) :
    ∃ name ∈ X86.gp64Names ++ X86.xmmNames, reg r = "%" ++ name ∧
      (named? X86.gp64Names .gp64 name).or (named? X86.xmmNames .vec128 name) = some r := by
  obtain ⟨cls, index⟩ := r
  obtain ⟨classes, bound⟩ := named
  have classes : cls = .gp64 ∨ cls = .vec128 := classes
  have bound : index.toNat < 16 := bound
  rcases classes with rfl | rfl
  · obtain ⟨name, found⟩ : ∃ name, X86.gp64Names[index.toNat]? = some name := ⟨_, List.getElem?_eq_getElem bound⟩
    refine ⟨name, List.mem_append_left _ (List.mem_of_getElem? found), reg_of_entry found, ?_⟩
    rw [named?_of_getElem? (by decide) found]
    rfl
  · obtain ⟨name, found⟩ : ∃ name, X86.xmmNames[index.toNat]? = some name := ⟨_, List.getElem?_eq_getElem bound⟩
    have member := List.mem_of_getElem? found
    have unnamed : ∀ n ∈ X86.xmmNames, n ∉ X86.gp64Names := by decide
    refine ⟨name, List.mem_append_right _ member, reg_of_entry found, ?_⟩
    rw [named?_of_not_mem (unnamed name member), named?_of_getElem? (by decide) found]
    rfl

theorem register?_reg (named : Named r) : register? (reg r).toList = some r := by
  obtain ⟨name, -, text, found⟩ := reg_eq named
  have behind : Location.after? ['%'] (reg r).toList = some name.toList := by
    rw [text, String.toList_append]
    exact Location.after?_append ['%'] name.toList
  rw [register?, behind]
  simpa using found

theorem solid_classNames (c : RegClass) : ∀ n ∈ classNames c, Solid n := by
  unfold classNames
  split
  · split
    · decide
    · decide
  · exact Solid.numbered (by decide) 16

theorem not_mem_reg (r : Register) {mark : Char} (other : mark.isAlphanum = false ∧ mark ≠ ':')
    (percent : mark ≠ '%') : mark ∉ (reg r).toList := by
  unfold reg
  split
  · rename_i name found
    have solid := solid_classNames r.cls name (List.mem_of_getElem? found)
    rw [String.toList_append, List.mem_append, not_or]
    exact ⟨by simpa using percent, solid.not_mem other⟩
  · exact (Solid.text r).not_mem other

theorem displacement?_text (d : Displacement) : displacement? d.text.toList = some (some d) := by
  obtain ⟨negative, n⟩ := d
  have digits := Numeral.uint32?_repr n
  have printed := (Numeral.digits_repr n.toNat).ne_nil
  cases negative with
  | true =>
    have text : (Displacement.text ⟨true, n⟩).toList = '-' :: n.toNat.repr.toList := by
      simp [Displacement.text]
    have behind : Location.after? ['-'] ('-' :: n.toNat.repr.toList) = some n.toNat.repr.toList :=
      Location.after?_append ['-'] _
    rw [text, displacement?, if_neg (List.cons_ne_nil _ _), behind]
    simp only [digits, Option.map_some]
    rfl
  | false =>
    have text : (Displacement.text ⟨false, n⟩).toList = n.toNat.repr.toList := by
      simp [Displacement.text]
    have unsigned : '-' ∉ n.toNat.repr.toList := (Solid.repr n.toNat).not_mem (by decide)
    rw [text, displacement?, if_neg printed, Location.after?_of_not_mem unsigned]
    simp only [digits, Option.map_some]
    rfl

theorem parenthesized?_append {front inner : List Char} (before : '(' ∉ front) (between : '(' ∉ inner) :
    parenthesized? (front ++ '(' :: (inner ++ [')'])) = some (front, inner) := by
  have back : '(' ∉ inner ++ [')'] := by simp [between]
  have parts : (front ++ '(' :: (inner ++ [')'])).splitOn '(' = [front, inner ++ [')']] := by
    rw [List.splitOn_append_cons_self_of_not_mem before, List.splitOn_eq_singleton back]
  rw [parenthesized?, parts]
  simp

theorem parenthesized?_of_not_mem {cs : List Char} (absent : '(' ∉ cs) : parenthesized? cs = none := by
  rw [parenthesized?, List.splitOn_eq_singleton absent]

theorem memory?_address {a : Address} (named : Named a.base) : memory? a.text.toList = some (.memory a) := by
  obtain ⟨disp, base⟩ := a
  have between : '(' ∉ (reg base).toList := not_mem_reg base (by decide) (by decide)
  have single : (reg base).toList.splitOn ',' = [(reg base).toList] :=
    List.splitOn_eq_singleton (not_mem_reg base (by decide) (by decide))
  have read : register? (reg base).toList = some base := register?_reg named
  cases disp with
  | none =>
    have text : (Address.text ⟨none, base⟩).toList = [] ++ '(' :: ((reg base).toList ++ [')']) := by
      simp [Address.text]
    rw [text, memory?, parenthesized?_append List.not_mem_nil between]
    simp [single, read, displacement?]
  | some d =>
    have text : (Address.text ⟨some d, base⟩).toList = d.text.toList ++ '(' :: ((reg base).toList ++ [')']) := by
      simp [Address.text]
    rw [text, memory?, parenthesized?_append (not_mem_displacement d (by decide) (by decide)) between]
    simp [single, read, displacement?_text]

theorem argument?_reg (named : Named r) : argument? (reg r) = some (.register r) := by
  have noDollar : '$' ∉ (reg r).toList := not_mem_reg r (by decide) (by decide)
  have noParen : '(' ∉ (reg r).toList := not_mem_reg r (by decide) (by decide)
  rw [argument?, Location.after?_of_not_mem noDollar, memory?, parenthesized?_of_not_mem noParen, register?_reg named]
  rfl

theorem argument?_immediate (s : String) : argument? ("$" ++ s) = some (.immediate s.toList) := by
  have behind : Location.after? ['$'] ("$" ++ s).toList = some s.toList := by
    rw [String.toList_append]
    exact Location.after?_append ['$'] s.toList
  rw [argument?, behind]
  rfl

theorem not_mem_address (a : Address) {mark : Char} (other : mark.isAlphanum = false ∧ mark ≠ ':')
    (outside : mark ∉ ['%', '-', '(', ')']) : mark ∉ a.text.toList := by
  obtain ⟨disp, base⟩ := a
  simp only [List.mem_cons, List.not_mem_nil, or_false, not_or] at outside
  obtain ⟨percent, minus, opening, closing⟩ := outside
  have name : mark ∉ (reg base).toList := not_mem_reg base other percent
  cases disp with
  | none => simp [Address.text, name, opening, closing]
  | some d => simp [Address.text, name, opening, closing, not_mem_displacement d other minus]

theorem argument?_address {a : Address} (named : Named a.base) : argument? a.text = some (.memory a) := by
  have noDollar : '$' ∉ a.text.toList := not_mem_address a (by decide) (by decide)
  rw [argument?, Location.after?_of_not_mem noDollar, memory?_address named]
  rfl

theorem argument?_sum {base index : Register} (first : Named base) (second : Named index) :
    argument? ("(" ++ reg base ++ "," ++ reg index ++ ")") = some (.sum base index) := by
  have text : ("(" ++ reg base ++ "," ++ reg index ++ ")").toList =
      [] ++ '(' :: ((reg base).toList ++ ',' :: (reg index).toList ++ [')']) := by
    simp
  have noDollar : '$' ∉ ("(" ++ reg base ++ "," ++ reg index ++ ")").toList := by
    simp [not_mem_reg]
  have between : '(' ∉ (reg base).toList ++ ',' :: (reg index).toList := by
    simp [not_mem_reg]
  have parts : ((reg base).toList ++ ',' :: (reg index).toList).splitOn ',' = [(reg base).toList, (reg index).toList] := by
    rw [List.splitOn_append_cons_self_of_not_mem (not_mem_reg base (by decide) (by decide)),
      List.splitOn_eq_singleton (not_mem_reg index (by decide) (by decide))]
  rw [argument?, Location.after?_of_not_mem noDollar, text, memory?, parenthesized?_append List.not_mem_nil between]
  simp [parts, register?_reg first, register?_reg second]

/-! ### Reading lines -/

def assemble? : String → List Argument → Option Line
  | "movq", [.register src, .memory dst] => some (.store .movq src dst)
  | "movdqu", [.register src, .memory dst] => some (.store .movdqu src dst)
  | "movq", [.memory src, .register dst] => some (.load .movq src dst)
  | "movdqu", [.memory src, .register dst] => some (.load .movdqu src dst)
  | "movq", [.register src, .register dst] => some (.copy .movq src dst)
  | "movq", [.immediate digits, .register dst] => (Numeral.int32? digits).map fun imm => .movqImm imm dst
  | "movabsq", [.immediate digits, .register dst] => do
    let n ← Numeral.hex? digits
    if n < UInt64.size then some (.movabsq (UInt64.ofNat n) dst) else none
  | "leaq", [.memory src, .register dst] => some (.leaq src dst)
  | "leaq", [.sum base index, .register dst] => some (.leaqSum base index dst)
  | "addq", [.immediate digits, .register dst] => (Numeral.uint32? digits).map fun imm => .addqImm imm dst
  | "subq", [.immediate digits, .register dst] => (Numeral.uint32? digits).map fun imm => .subqImm imm dst
  | "addq", [.register src, .register dst] => some (.addq src dst)
  | "subq", [.register src, .register dst] => some (.subq src dst)
  | "negq", [.register dst] => some (.negq dst)
  | _, _ => none

def readLine? (line : String) : Option Line :=
  match words line with
  | [op, first, second] => do assemble? op [← argument? (← beforeComma? first), ← argument? second]
  | [op, only] => do assemble? op [← argument? only]
  | _ => none

def Line.Plain : Line → Prop
  | .store op src dst => (op = .movq ∨ op = .movdqu) ∧ Named src ∧ Named dst.base
  | .load op src dst => (op = .movq ∨ op = .movdqu) ∧ Named src.base ∧ Named dst
  | .copy op src dst => op = .movq ∧ Named src ∧ Named dst
  | .movqImm _ dst | .movabsq _ dst | .addqImm _ dst | .subqImm _ dst | .negq dst => Named dst
  | .leaq src dst => Named src.base ∧ Named dst
  | .leaqSum base index dst => Named base ∧ Named index ∧ Named dst
  | .addq src dst | .subq src dst => Named src ∧ Named dst
  | _ => False

def Line.parts : Line → List String
  | .store op src dst => [op.text, reg src ++ ",", dst.text]
  | .load op src dst => [op.text, src.text ++ ",", reg dst]
  | .copy op src dst => [op.text, reg src ++ ",", reg dst]
  | .movqImm imm dst => ["movq", "$" ++ imm.toInt.repr ++ ",", reg dst]
  | .movabsq imm dst => ["movabsq", "$" ++ Numeral.hex imm.toNat ++ ",", reg dst]
  | .leaq src dst => ["leaq", src.text ++ ",", reg dst]
  | .leaqSum base index dst => ["leaq", "(" ++ reg base ++ "," ++ reg index ++ ")" ++ ",", reg dst]
  | .addqImm imm dst => ["addq", "$" ++ imm.toNat.repr ++ ",", reg dst]
  | .subqImm imm dst => ["subq", "$" ++ imm.toNat.repr ++ ",", reg dst]
  | .addq src dst => ["addq", reg src ++ ",", reg dst]
  | .subq src dst => ["subq", reg src ++ ",", reg dst]
  | .negq dst => ["negq", reg dst]
  | _ => []

theorem intercalate_parts {l : Line} (plain : l.Plain) : l.text.toList = (" ".intercalate l.parts).toList := by
  cases l with
  | pushq | popq => exact plain.elim
  | _ => simp [Line.text, Line.parts]

theorem blank_reg (r : Register) : ' ' ∉ (reg r).toList := not_mem_reg r (by decide) (by decide)

theorem blank_int (i : Int) : ' ' ∉ i.repr.toList := not_mem_int i (by decide) (by decide)

theorem blank_hex (n : Nat) : ' ' ∉ (Numeral.hex n).toList := (Solid.hex n).not_mem (by decide)

theorem blank_address (a : Address) : ' ' ∉ a.text.toList := not_mem_address a (by decide) (by decide)

theorem blank_parts (l : Line) : ∀ w ∈ l.parts, ' ' ∉ w.toList := by
  cases l with
  | store op src dst | load op src dst =>
    cases op <;> simp [Line.parts, Transfer.text, blank_reg, blank_address]
  | copy op src dst => cases op <;> simp [Line.parts, Copy.text, blank_reg]
  | _ => simp [Line.parts, blank_reg, blank_address, blank_int, blank_hex, blank_toDigits]

theorem readLine?_of_words {line op front back : String} {first second : Argument}
    (parts : words line = [op, front ++ ",", back]) (left : argument? front = some first)
    (right : argument? back = some second) : readLine? line = assemble? op [first, second] := by
  simp only [readLine?, parts, beforeComma?_comma, left, right, Option.bind_eq_bind, Option.bind_some]

theorem readLine?_text {l : Line} (plain : l.Plain) : readLine? l.text = some l := by
  have parts : words l.text = l.parts := by
    refine words_eq (intercalate_parts plain) ?_ (blank_parts l)
    cases l with
    | pushq | popq => exact plain.elim
    | _ => exact List.cons_ne_nil _ _
  cases l with
  | pushq | popq => exact plain.elim
  | store op src dst =>
    obtain ⟨form, first, second⟩ := plain
    rw [readLine?_of_words parts (argument?_reg first) (argument?_address second)]
    rcases form with rfl | rfl <;> rfl
  | load op src dst =>
    obtain ⟨form, first, second⟩ := plain
    rw [readLine?_of_words parts (argument?_address first) (argument?_reg second)]
    rcases form with rfl | rfl <;> rfl
  | copy op src dst =>
    obtain ⟨rfl, first, second⟩ := plain
    exact readLine?_of_words parts (argument?_reg first) (argument?_reg second)
  | movqImm imm dst =>
    rw [readLine?_of_words parts (argument?_immediate _) (argument?_reg plain), assemble?, Numeral.int32?_repr]
    rfl
  | movabsq imm dst =>
    rw [readLine?_of_words parts (argument?_immediate _) (argument?_reg plain), assemble?, Numeral.hex?_hex]
    simp [imm.toNat_lt]
  | addqImm imm dst | subqImm imm dst =>
    rw [readLine?_of_words parts (argument?_immediate _) (argument?_reg plain), assemble?, Numeral.uint32?_repr]
    rfl
  | negq dst =>
    simp only [readLine?, parts, Line.parts, argument?_reg plain, Option.bind_eq_bind, Option.bind_some]
    rfl
  | leaq src dst =>
    obtain ⟨first, second⟩ := plain
    exact readLine?_of_words parts (argument?_address first) (argument?_reg second)
  | leaqSum base index dst =>
    obtain ⟨first, second, third⟩ := plain
    exact readLine?_of_words parts (argument?_sum first second) (argument?_reg third)
  | addq src dst | subq src dst =>
    obtain ⟨first, second⟩ := plain
    exact readLine?_of_words parts (argument?_reg first) (argument?_reg second)

example : readLine? "leaq -8(%rsp), %r11" = some (.leaq ⟨some (.minus 8), X86.rsp⟩ X86.r11) := by decide

/-! ### Instructions -/

def Gp64 (r : Register) : Prop := r.cls = .gp64 ∧ r.index.toNat < 16

/-- Arithmetic over the sixteen general registers, with immediates below the sign bit of 32 bits. -/
def Arithmetic : Instr → Prop
  | .movImm dst _ => Gp64 dst
  | .addImm dst src imm | .subImm dst src imm => Gp64 dst ∧ Gp64 src ∧ imm.toNat ≤ 2147483647
  | .add dst lhs rhs | .sub dst lhs rhs => Gp64 dst ∧ Gp64 lhs ∧ Gp64 rhs
  | _ => False

theorem Gp64.named (general : Gp64 r) : Named r := ⟨.inl general.1, general.2⟩

variable {i : Instr}

theorem plain_lower (arithmetic : Arithmetic i) : ∀ l ∈ lower i, l.Plain := by
  cases i with
  | movImm dst imm =>
    rw [lower]
    split <;> exact List.forall_mem_singleton.mpr (Gp64.named arithmetic)
  | addImm dst src imm | subImm dst src imm =>
    obtain ⟨first, second, -⟩ := arithmetic
    rw [lower]
    split
    · exact List.forall_mem_singleton.mpr first.named
    · exact List.forall_mem_singleton.mpr ⟨second.named, first.named⟩
  | add dst lhs rhs =>
    obtain ⟨first, second, third⟩ := arithmetic
    rw [lower]
    split
    · exact List.forall_mem_singleton.mpr ⟨third.named, first.named⟩
    · split
      · exact List.forall_mem_singleton.mpr ⟨second.named, first.named⟩
      · exact List.forall_mem_singleton.mpr ⟨second.named, third.named, first.named⟩
  | sub dst lhs rhs =>
    obtain ⟨first, second, third⟩ := arithmetic
    rw [lower]
    split
    · exact List.forall_mem_singleton.mpr ⟨third.named, first.named⟩
    · split
      · simp [Line.Plain, first.named, second.named]
      · simp [Line.Plain, first.named, second.named, third.named]
  | _ => exact arithmetic.elim

theorem runLines_lower (m : Machine) (arithmetic : Arithmetic i) :
    runLines m (lower i) = some (m.effect .x86_64 i) := by
  cases i with
  | movImm dst imm => exact runLines_movImm m dst imm
  | addImm dst src imm => exact runLines_addImm m dst src imm
  | subImm dst src imm => exact runLines_subImm m dst src imm
  | add dst lhs rhs => exact runLines_add m dst lhs rhs
  | sub dst lhs rhs => exact runLines_sub m arithmetic.1.1 arithmetic.2.1.1 arithmetic.2.2.1
  | _ => exact arithmetic.elim

theorem encodable_lower (arithmetic : Arithmetic i) : ∀ l ∈ lower i, l.Encodable := by
  cases i with
  | movImm dst imm =>
    have low := imm.toInt64.toInt32.le_toInt
    have high := imm.toInt64.toInt32.toInt_lt
    rw [lower]
    split
    · simp only [List.forall_mem_singleton, Line.Encodable, Line.immediate?, Option.some.injEq]
      omega
    · simp [Line.Encodable, Line.immediate?]
  | addImm dst src imm | subImm dst src imm =>
    have small := arithmetic.2.2
    rw [lower]
    split
    · simp only [List.forall_mem_singleton, Line.Encodable, Line.immediate?, Option.some.injEq]
      omega
    · simp only [List.forall_mem_singleton, Line.Encodable, Line.immediate?, Option.map_some, Option.some.injEq,
        Displacement.value, Displacement.plus, Displacement.minus, Bool.false_eq_true, if_true, if_false]
      omega
  | add dst lhs rhs | sub dst lhs rhs =>
    rw [lower]
    split
    · simp [Line.Encodable, Line.immediate?]
    · split <;> simp [Line.Encodable, Line.immediate?]
  | _ => exact arithmetic.elim

/-- The lines do what the instruction does, whichever of its registers coincide, and each carries no number outside the
signed range of 32 bits. -/
theorem att_lines_follow_machine (m : Machine) {i : Instr} (arithmetic : Arithmetic i) :
    TextFollows .x86_64 readLine? Line.effect? m i ∧
      ∀ line ∈ Isa.x86_64.render i, ∃ l, readLine? line = some l ∧ l.Encodable := by
  have readable : ∀ l ∈ lower i, readLine? l.text = some l :=
    fun l member => readLine?_text (plain_lower arithmetic l member)
  constructor
  · have narrow : i.overwide = false := by
      cases i with
      | push | store => exact arithmetic.elim
      | _ => rfl
    exact textFollows_of_lines rfl narrow readable (runLines_lower m arithmetic)
  · intro line member
    obtain ⟨l, lowered, rfl⟩ := List.mem_map.mp member
    exact ⟨l, readable l lowered, encodable_lower arithmetic l lowered⟩

/-- The destination is also the register subtracted: it is negated in place before the other one is added. -/
theorem att_lines_negate_in_place :
    Isa.x86_64.render (.sub X86.r11 X86.rdi X86.r11) = ["negq %r11", "addq %rdi, %r11"] ∧
      TextFollows .x86_64 readLine? Line.effect? (.new .x86_64) (.sub X86.r11 X86.rdi X86.r11) := by
  have arithmetic : Arithmetic (.sub X86.r11 X86.rdi X86.r11) :=
    ⟨⟨rfl, by decide⟩, ⟨rfl, by decide⟩, ⟨rfl, by decide⟩⟩
  exact ⟨by decide, (att_lines_follow_machine (.new .x86_64) arithmetic).1⟩

end CallFrame.Asm.Att
