import CallFrame.Asm.Render
import CallFrame.Proofs.A64Immediate
import CallFrame.Proofs.Execution
import CallFrame.Proofs.LineText
import CallFrame.Proofs.LocationText

/-! AArch64 arithmetic, from the text of its lines to the machine. -/
namespace CallFrame

namespace Asm.A64

/-! ### Meaning -/

/-- `x` with the sixteen bits from `shift` on replaced by `chunk`. -/
def insertChunk (x : Addr) (chunk : UInt16) (shift : Nat) : Addr :=
  x &&& ~~~((0xFFFF : Addr) <<< shift) ||| BitVec.ofNat 64 chunk.toNat <<< shift

def ArithOp.apply : ArithOp → Addr → Addr → Addr
  | .add, a, b => a + b
  | .sub, a, b => a - b

def General (r : Register) : Prop := r.cls = .gp64 ∨ r.cls = .gp32

/-- What an arithmetic line does; the other lines are given no meaning here. -/
def Line.effect? (m : Machine) : Line → Option Machine
  | .movImm dst imm => some (m.set64 dst (BitVec.ofNat 64 imm.toNat))
  | .movz dst chunk shift => some (m.set64 dst (BitVec.ofNat 64 chunk.toNat <<< shift))
  | .movk dst chunk shift => some (m.set64 dst (insertChunk (m.get64 dst) chunk shift))
  | .arithImm op dst src field shifted =>
    some (m.set64 dst (op.apply (m.get64 src) (BitVec.ofNat 64 (fieldValue field shifted))))
  | .arith op dst lhs rhs => some (m.set64 dst (op.apply (m.get64 lhs) (m.get64 rhs)))
  | _ => none

def runLines (m : Machine) (lines : List Line) : Option Machine := lines.foldlM Line.effect? m

/-! ### Bits of a constant -/

theorem getLsbD_mask {i : Nat} (bound : i < 64) : (0xFFFF : Addr).getLsbD i = decide (i < 16) := by
  have mask : (0xFFFF : Addr) = BitVec.ofNat 64 0xFFFF := rfl
  rw [mask, BitVec.getLsbD_ofNat]
  simp only [bound, decide_true, Bool.true_and]
  exact Nat.testBit_two_pow_sub_one 16 i

theorem testBit_chunk (chunk : UInt16) {i : Nat} (outside : 16 ≤ i) : chunk.toNat.testBit i = false := by
  apply Nat.testBit_lt_two_pow
  exact Nat.lt_of_lt_of_le chunk.toNat_lt (Nat.pow_le_pow_right (by decide) outside)

theorem getLsbD_insertChunk (x : Addr) (chunk : UInt16) (shift : Nat) {i : Nat} (bound : i < 64) :
    (insertChunk x chunk shift).getLsbD i =
      if shift ≤ i ∧ i < shift + 16 then chunk.toNat.testBit (i - shift) else x.getLsbD i := by
  have below : i - shift < 64 := by omega
  simp only [insertChunk, BitVec.getLsbD_or, BitVec.getLsbD_and, BitVec.getLsbD_not, BitVec.getLsbD_shiftLeft,
    BitVec.getLsbD_ofNat, getLsbD_mask below, bound, below, decide_true, Bool.true_and]
  by_cases low : i < shift
  · rw [if_neg (by omega)]
    simp [low]
  · by_cases high : i < shift + 16
    · have inside : i - shift < 16 := by omega
      rw [if_pos (by omega)]
      simp [low, inside]
    · have outside : ¬ i - shift < 16 := by omega
      rw [if_neg (by omega), testBit_chunk chunk (by omega)]
      simp [low, outside]

def insertAll (x : Addr) (cs : List (UInt16 × Nat)) : Addr := cs.foldl (fun x c => insertChunk x c.1 c.2) x

theorem testBit_ofNat_shiftRight (value shift : Nat) {i : Nat} (inside : shift ≤ i ∧ i < shift + 16) :
    (UInt16.ofNat (value >>> shift)).toNat.testBit (i - shift) = value.testBit i := by
  have below : i - shift < 16 := by omega
  have place : shift + (i - shift) = i := by omega
  rw [UInt16.toNat_ofNat', Nat.testBit_mod_two_pow, Nat.testBit_shiftRight, place]
  simp [below]

theorem chunks_cons (value shift : Nat) (shifts : List Nat) :
    chunks value (shift :: shifts) =
      if UInt16.ofNat (value >>> shift) = 0 then chunks value shifts
      else (UInt16.ofNat (value >>> shift), shift) :: chunks value shifts := by
  simp only [chunks, List.map_cons, List.filter_cons]
  split
  · rename_i nonzero
    rw [if_neg (by simpa using nonzero)]
  · rename_i zero
    rw [if_pos (by simpa using zero)]

/-- Inserting the chunks of `value` into a word that holds only bits of `value` adds the bits at the given shifts: those
of a chunk that was left out are zero. -/
theorem getLsbD_insertAll (value : Nat) (shifts : List Nat) (x : Addr)
    (part : ∀ i < 64, x.getLsbD i = true → value.testBit i = true) {i : Nat} (bound : i < 64) :
    (insertAll x (chunks value shifts)).getLsbD i = true ↔
      x.getLsbD i = true ∨ value.testBit i = true ∧ ∃ shift ∈ shifts, shift ≤ i ∧ i < shift + 16 := by
  induction shifts generalizing x with
  | nil => simp [chunks, insertAll]
  | cons shift shifts ih =>
    simp only [chunks_cons, List.mem_cons, exists_eq_or_imp]
    split
    · rename_i zero
      have empty : shift ≤ i ∧ i < shift + 16 → value.testBit i = false := by
        intro inside
        rw [← testBit_ofNat_shiftRight value shift inside, zero]
        exact Nat.zero_testBit _
      rw [ih x part]
      grind
    · have inserted : ∀ i < 64, (insertChunk x (UInt16.ofNat (value >>> shift)) shift).getLsbD i =
          if shift ≤ i ∧ i < shift + 16 then value.testBit i else x.getLsbD i := by
        intro i bound
        rw [getLsbD_insertChunk x _ shift bound]
        split
        · rename_i inside
          exact testBit_ofNat_shiftRight value shift inside
        · rfl
      have later := ih (insertChunk x (UInt16.ofNat (value >>> shift)) shift) (by grind)
      rw [insertAll, List.foldl_cons]
      change (insertAll _ _).getLsbD i = true ↔ _
      rw [later, inserted i bound]
      grind

end Asm.A64

/-! ### Registers of any width -/

namespace Machine

variable {r : Register}

theorem set64_congr (m : Machine) {a b : Addr}
    (agree : ∀ i < 64, i < r.cls.bits.toNat → a.getLsbD i = b.getLsbD i) : m.set64 r a = m.set64 r b := by
  have low : lowBits r.cls.bits.toNat (a.setWidth 128) = lowBits r.cls.bits.toNat (b.setWidth 128) := by
    apply BitVec.eq_of_getLsbD_eq
    intro i _
    simp only [lowBits, BitVec.getLsbD_setWidth]
    by_cases narrow : i < r.cls.bits.toNat
    · by_cases word : i < 64
      · rw [agree i word narrow]
      · rw [BitVec.getLsbD_of_ge a i (by omega), BitVec.getLsbD_of_ge b i (by omega)]
    · simp [narrow]
  simp only [set64, set, low]

theorem getLsbD_get64_set64 (m : Machine) (a : Addr) {i : Nat} (word : i < 64) (narrow : i < r.cls.bits.toNat) :
    ((m.set64 r a).get64 r).getLsbD i = a.getLsbD i := by
  simp [get64, set64, get_set_same m _ rfl, lowBits, word, narrow]

end Machine

namespace Asm.A64

variable {dst : Register}

/-! ### Constants -/

theorem effect?_movk (m : Machine) (dst : Register) (x : Addr) (chunk : UInt16) (shift : Nat) :
    Line.effect? (m.set64 dst x) (.movk dst chunk shift) = some (m.set64 dst (insertChunk x chunk shift)) := by
  rw [Line.effect?, Machine.set64_set64]
  apply congrArg some
  apply Machine.set64_congr
  intro i word narrow
  rw [getLsbD_insertChunk _ chunk shift word, getLsbD_insertChunk _ chunk shift word,
    Machine.getLsbD_get64_set64 m x word narrow]

theorem runLines_movk (m : Machine) (x : Addr) (cs : List (UInt16 × Nat)) :
    runLines (m.set64 dst x) (cs.map fun c => .movk dst c.1 c.2) = some (m.set64 dst (insertAll x cs)) := by
  induction cs generalizing x with
  | nil => rfl
  | cons c cs ih =>
    have first := effect?_movk m dst x c.1 c.2
    rw [List.map_cons, runLines, List.foldlM_cons, first]
    exact ih (insertChunk x c.1 c.2)

theorem runLines_chunks (m : Machine) (c : UInt16 × Nat) (cs : List (UInt16 × Nat)) :
    runLines m (.movz dst c.1 c.2 :: cs.map fun c => .movk dst c.1 c.2) =
      some (m.set64 dst (insertAll 0 (c :: cs))) := by
  have zero : BitVec.ofNat 64 c.1.toNat <<< c.2 = insertChunk 0 c.1 c.2 := by
    simp [insertChunk]
  rw [runLines, List.foldlM_cons, Line.effect?, zero]
  exact runLines_movk m _ cs

def constant (dst : Register) (imm : UInt64) : Nat := if dst.cls = .gp32 then imm.toUInt32.toNat else imm.toNat

def chunkShifts (dst : Register) : List Nat := if dst.cls = .gp32 then [0, 16] else [0, 16, 32, 48]

theorem wideMove_eq (dst : Register) (imm : UInt64) :
    wideMove dst imm =
      if constant dst imm ≤ 0xFFFF then [.movImm dst (UInt16.ofNat (constant dst imm))]
      else
        match chunks (constant dst imm) (chunkShifts dst) with
        | [] => []
        | (chunk, shift) :: rest => .movz dst chunk shift :: rest.map fun c => .movk dst c.1 c.2 := rfl

theorem testBit_constant (general : General dst) (imm : UInt64) (i : Nat) :
    (constant dst imm).testBit i = (decide (i < dst.cls.bits.toNat) && imm.toBitVec.getLsbD i) := by
  rcases general with wide | narrow
  · have bits : dst.cls.bits.toNat = 64 := by rw [wide]; rfl
    rw [constant, if_neg (by rw [wide]; decide), bits]
    by_cases inside : i < 64
    · simp only [inside, decide_true, Bool.true_and]
      rfl
    · simp only [inside, decide_false, Bool.false_and]
      exact imm.toBitVec.getLsbD_of_ge i (by omega)
  · have bits : dst.cls.bits.toNat = 32 := by rw [narrow]; rfl
    rw [constant, if_pos narrow, bits, UInt64.toNat_toUInt32, Nat.testBit_mod_two_pow]
    rfl

theorem chunkShifts_cover (general : General dst) {i : Nat} (inside : i < dst.cls.bits.toNat) :
    ∃ shift ∈ chunkShifts dst, shift ≤ i ∧ i < shift + 16 := by
  rcases general with wide | narrow
  · have bits : dst.cls.bits.toNat = 64 := by rw [wide]; rfl
    rw [chunkShifts, if_neg (by rw [wide]; decide)]
    simp only [List.mem_cons, List.not_mem_nil, or_false, exists_eq_or_imp, exists_eq_left]
    omega
  · have bits : dst.cls.bits.toNat = 32 := by rw [narrow]; rfl
    rw [chunkShifts, if_pos narrow]
    simp only [List.mem_cons, List.not_mem_nil, or_false, exists_eq_or_imp, exists_eq_left]
    omega

theorem getLsbD_insertAll_constant (general : General dst) (imm : UInt64) {i : Nat}
    (word : i < 64) (inside : i < dst.cls.bits.toNat) :
    (insertAll 0 (chunks (constant dst imm) (chunkShifts dst))).getLsbD i = imm.toBitVec.getLsbD i := by
  have bit := testBit_constant general imm i
  simp only [inside, decide_true, Bool.true_and] at bit
  have all := getLsbD_insertAll (constant dst imm) (chunkShifts dst) 0 (by simp) word
  rw [Bool.eq_iff_iff, all, bit]
  simp [chunkShifts_cover general inside]

theorem chunks_constant_ne_nil (general : General dst) {imm : UInt64}
    (large : ¬ constant dst imm ≤ 0xFFFF) : chunks (constant dst imm) (chunkShifts dst) ≠ [] := by
  intro none
  -- Without a chunk all bits are zero, and so is the constant.
  have zero : constant dst imm = 0 := by
    apply Nat.eq_of_testBit_eq
    intro i
    rw [testBit_constant general, Nat.zero_testBit]
    by_cases inside : i < dst.cls.bits.toNat
    · by_cases word : i < 64
      · have bit := getLsbD_insertAll_constant general imm word inside
        rw [none] at bit
        rw [← bit]
        simp [insertAll]
      · rw [BitVec.getLsbD_of_ge _ i (by omega), Bool.and_false]
    · simp [inside]
  rw [zero] at large
  exact large (Nat.zero_le _)

theorem runLines_wideMove (m : Machine) (general : General dst) (imm : UInt64) :
    runLines m (wideMove dst imm) = some (m.set64 dst imm.toBitVec) := by
  rw [wideMove_eq]
  by_cases small : constant dst imm ≤ 0xFFFF
  · rw [if_pos small]
    have fits : (UInt16.ofNat (constant dst imm)).toNat = constant dst imm := UInt16.toNat_ofNat_of_lt' (by
      simp only [UInt16.size]
      omega)
    change some (m.set64 dst (BitVec.ofNat 64 (UInt16.ofNat (constant dst imm)).toNat)) = _
    apply congrArg some
    apply Machine.set64_congr
    intro i word inside
    rw [fits, BitVec.getLsbD_ofNat, testBit_constant general]
    simp [word, inside]
  · rw [if_neg small]
    cases parts : chunks (constant dst imm) (chunkShifts dst) with
    | nil => exact (chunks_constant_ne_nil general small parts).elim
    | cons c rest =>
      dsimp only
      rw [runLines_chunks, ← parts]
      apply congrArg some
      apply Machine.set64_congr
      intro i word inside
      exact getLsbD_insertAll_constant general imm word inside

/-- The lines that build a constant: one `mov`, or one `movz` and then `movk` for the other nonzero chunks. -/
inductive ConstantLines (dst : Register) (most : Nat) : List Line → Prop
  | plain (value : UInt16) (small : value.toNat ≤ 65535) : ConstantLines dst most [.movImm dst value]
  | chunks {chunk : UInt16} {shift : Nat} {rest : List (UInt16 × Nat)} (few : rest.length < most)
      (first : 1 ≤ chunk.toNat ∧ chunk.toNat ≤ 65535) (others : ∀ c ∈ rest, 1 ≤ c.1.toNat ∧ c.1.toNat ≤ 65535) :
      ConstantLines dst most (.movz dst chunk shift :: rest.map fun c => .movk dst c.1 c.2)

theorem chunk_bounds {value : Nat} {shifts : List Nat} {c : UInt16 × Nat} (member : c ∈ chunks value shifts) :
    1 ≤ c.1.toNat ∧ c.1.toNat ≤ 65535 := by
  have nonzero : c.1 ≠ 0 := of_decide_eq_true (List.mem_filter.mp member).2
  have positive : c.1.toNat ≠ 0 := fun zero => nonzero (UInt16.toNat_inj.mp zero)
  have bound := c.1.toNat_lt
  omega

theorem length_chunks_le (value : Nat) (shifts : List Nat) : (chunks value shifts).length ≤ shifts.length := by
  have kept := List.length_filter_le (fun c : UInt16 × Nat => decide (c.1 ≠ 0))
    (shifts.map fun shift => (UInt16.ofNat (value >>> shift), shift))
  rw [List.length_map] at kept
  exact kept

theorem constantLines_wideMove (general : General dst) (imm : UInt64) :
    ConstantLines dst (chunkShifts dst).length (wideMove dst imm) := by
  rw [wideMove_eq]
  by_cases small : constant dst imm ≤ 0xFFFF
  · rw [if_pos small]
    refine .plain _ ?_
    have bound := (UInt16.ofNat (constant dst imm)).toNat_lt
    omega
  · rw [if_neg small]
    have few := length_chunks_le (constant dst imm) (chunkShifts dst)
    have bounds : ∀ c ∈ chunks (constant dst imm) (chunkShifts dst), 1 ≤ c.1.toNat ∧ c.1.toNat ≤ 65535 :=
      fun c => chunk_bounds
    cases parts : chunks (constant dst imm) (chunkShifts dst) with
    | nil => exact (chunks_constant_ne_nil general small parts).elim
    | cons c rest =>
      rw [parts] at few bounds
      obtain ⟨first, others⟩ := List.forall_mem_cons.mp bounds
      exact .chunks few first others

/-! ### Sums and differences -/

theorem ArithOp.apply_apply (op : ArithOp) (a : Addr) (high low : Nat) :
    op.apply (op.apply a (BitVec.ofNat 64 high)) (BitVec.ofNat 64 low) =
      op.apply a (BitVec.ofNat 64 (high + low)) := by
  cases op with
  | add => rw [apply, apply, apply, BitVec.ofNat_add, BitVec.add_assoc]
  | sub => rw [apply, apply, apply, BitVec.ofNat_add, BitVec.sub_sub]

/-- The second line of a split immediate reads the destination that the first has just written. -/
theorem runLines_arithImm (m : Machine) (op : ArithOp) (wide : dst.cls = .gp64) (src : Register) (imm : UInt32) :
    runLines m (arithImm op dst src imm) =
      some (m.set64 dst (op.apply (m.get64 src) (BitVec.ofNat 64 imm.toNat))) := by
  rcases arithImm_cases op dst src imm with ⟨small, lines⟩ | ⟨-, whole, lines⟩ | ⟨-, -, lines⟩
  · have value : fieldValue (imm &&& 0xFFF) false = imm.toNat := by
      rw [fieldValue_low]
      omega
    rw [lines, ← value]
    rfl
  · have value : fieldValue (imm >>> 12) true = imm.toNat := by
      rw [fieldValue_high]
      omega
    rw [lines, ← value]
    rfl
  · have value : fieldValue (imm >>> 12) true + fieldValue (imm &&& 0xFFF) false = imm.toNat := by
      rw [fieldValue_high, fieldValue_low]
      omega
    rw [lines, ← value, ← ArithOp.apply_apply]
    simp only [runLines, List.foldlM_cons, List.foldlM_nil, Line.effect?, Option.bind_eq_bind, Option.bind_some,
      Option.pure_def, Machine.get64_set64_same m _ wide, Machine.set64_set64]

/-! ### Reading lines -/

def register? (name : String) : Option Register :=
  (named? A64.xNames .gp64 name).or
    ((named? A64.wNames .gp32 name).or ((Location.ofChars? name.toList).bind Location.register?))

theorem colon_not_mem_name : ∀ n ∈ A64.xNames ++ A64.wNames, ':' ∉ n.toList := by decide

theorem register?_text {r : Register} (general : General r) : register? r.text = some r := by
  have colon : ':' ∈ r.text.toList := by simp [Register.text]
  have unnamed : r.text ∉ A64.xNames ++ A64.wNames := fun member => colon_not_mem_name _ member colon
  rw [List.mem_append, not_or] at unnamed
  have readable : (Location.register r).Readable := by
    change 0 < r.cls.bits.toNat ∧ 8 ∣ r.cls.bits.toNat
    rcases general with wide | narrow
    · rw [wide]
      decide
    · rw [narrow]
      decide
  have read := Location.ofChars?_eq_some_iff.mpr ⟨Location.spelled_text (.register r), readable⟩
  have read : Location.ofChars? r.text.toList = some (.register r) := read
  rw [register?, named?_of_not_mem unnamed.1, named?_of_not_mem unnamed.2, read]
  rfl

theorem not_mem_xNames : ∀ n ∈ A64.wNames, n ∉ A64.xNames := by decide

theorem register?_reg {r : Register} (general : General r) : register? (reg r) = some r := by
  obtain ⟨cls, index⟩ := r
  have classes : cls = .gp64 ∨ cls = .gp32 := general
  rcases classes with rfl | rfl
  · have name : reg ⟨.gp64, index⟩ = A64.xNames[index.toNat]?.getD (Register.gp64 index).text := rfl
    cases found : A64.xNames[index.toNat]? with
    | some n =>
      rw [name, found, Option.getD_some, register?, named?_of_getElem? (by decide) found]
      rfl
    | none =>
      rw [name, found, Option.getD_none]
      exact register?_text general
  · have name : reg ⟨.gp32, index⟩ = A64.wNames[index.toNat]?.getD (Register.gp32 index).text := rfl
    cases found : A64.wNames[index.toNat]? with
    | some n =>
      have member : n ∈ A64.wNames := List.mem_of_getElem? found
      rw [name, found, Option.getD_some, register?, named?_of_not_mem (not_mem_xNames n member),
        named?_of_getElem? (by decide) found]
      rfl
    | none =>
      rw [name, found, Option.getD_none]
      exact register?_text general

theorem solid_classNames (c : RegClass) : ∀ n ∈ A64.classNames c, Solid n := by
  unfold A64.classNames
  split
  · exact List.forall_mem_append.mpr ⟨Solid.numbered (by decide) 31, List.forall_mem_singleton.mpr (by decide)⟩
  · split
    · exact List.forall_mem_append.mpr ⟨Solid.numbered (by decide) 31, List.forall_mem_singleton.mpr (by decide)⟩
    · split
      · exact Solid.numbered (by decide) 32
      · split
        · exact Solid.numbered (by decide) 32
        · exact List.forall_mem_nil _

theorem solid_reg (r : Register) : Solid (reg r) := by
  unfold reg
  cases found : (A64.classNames r.cls)[r.index.toNat]? with
  | some n => exact solid_classNames r.cls n (List.mem_of_getElem? found)
  | none => exact .text r

def leading? (word : String) : Option Register := do register? (← beforeComma? word)

def number? (word : String) : Option Nat := do Numeral.digits? (← Location.after? ['#'] word.toList)

def chunk? (word : String) : Option UInt16 := do
  let n ← number? word
  if n < UInt16.size then some (UInt16.ofNat n) else none

def field? (word : String) : Option UInt32 := do
  let n ← number? word
  if n < UInt32.size then some (UInt32.ofNat n) else none

def ArithOp.ofText? : String → Option ArithOp
  | "add" => some .add
  | "sub" => some .sub
  | _ => none

def readWords? : List String → Option Line
  | ["mov", dst, value] => do some (.movImm (← leading? dst) (← chunk? value))
  | ["movz", dst, chunk, "lsl", shift] => do
    some (.movz (← leading? dst) (← chunk? (← beforeComma? chunk)) (← number? shift))
  | ["movk", dst, chunk, "lsl", shift] => do
    some (.movk (← leading? dst) (← chunk? (← beforeComma? chunk)) (← number? shift))
  | [op, dst, src, field, "lsl", "#12"] => do
    some (.arithImm (← ArithOp.ofText? op) (← leading? dst) (← leading? src) (← field? (← beforeComma? field)) true)
  | [op, dst, lhs, rhs] => do
    let op ← ArithOp.ofText? op
    let dst ← leading? dst
    let lhs ← leading? lhs
    match field? rhs with
    | some field => some (.arithImm op dst lhs field false)
    | none => some (.arith op dst lhs (← register? rhs))
  | _ => none

def readLine? (line : String) : Option Line := readWords? (words line)

theorem leading?_reg {r : Register} (general : General r) : leading? (reg r ++ ",") = some r := by
  rw [leading?, beforeComma?_comma]
  exact register?_reg general

theorem number?_repr (n : Nat) : number? ("#" ++ n.repr) = some n := by
  have mark : Location.after? ['#'] ("#" ++ n.repr).toList = some n.repr.toList := by
    rw [String.toList_append]
    exact Location.after?_append ['#'] n.repr.toList
  rw [number?, mark]
  exact Numeral.digits?_eq_some_iff.mpr (Numeral.digits_repr n)

theorem chunk?_repr (c : UInt16) : chunk? ("#" ++ c.toNat.repr) = some c := by
  rw [chunk?, number?_repr]
  simp [c.toNat_lt]

theorem field?_repr (k : UInt32) : field? ("#" ++ k.toNat.repr) = some k := by
  rw [field?, number?_repr]
  simp [k.toNat_lt]

theorem field?_reg (r : Register) : field? (reg r) = none := by
  have absent : '#' ∉ (reg r).toList := (solid_reg r).not_mem (by decide)
  rw [field?, number?, Location.after?_of_not_mem absent]
  rfl

def Line.Arithmetic : Line → Prop
  | .movImm dst _ | .movz dst _ _ | .movk dst _ _ => General dst
  | .arithImm _ dst src _ _ => General dst ∧ General src
  | .arith _ dst lhs rhs => General dst ∧ General lhs ∧ General rhs
  | _ => False

theorem blank_reg (r : Register) : ' ' ∉ (reg r).toList := (solid_reg r).not_mem (by decide)

/-- The words that an arithmetic line is written from. -/
def Line.parts : Line → List String
  | .movImm dst imm => ["mov", reg dst ++ ",", "#" ++ imm.toNat.repr]
  | .movz dst chunk shift => ["movz", reg dst ++ ",", "#" ++ chunk.toNat.repr ++ ",", "lsl", "#" ++ shift.repr]
  | .movk dst chunk shift => ["movk", reg dst ++ ",", "#" ++ chunk.toNat.repr ++ ",", "lsl", "#" ++ shift.repr]
  | .arithImm op dst src field true =>
    [op.text, reg dst ++ ",", reg src ++ ",", "#" ++ field.toNat.repr ++ ",", "lsl", "#12"]
  | .arithImm op dst src field false => [op.text, reg dst ++ ",", reg src ++ ",", "#" ++ field.toNat.repr]
  | .arith op dst lhs rhs => [op.text, reg dst ++ ",", reg lhs ++ ",", reg rhs]
  | _ => []

theorem words_text {l : Line} (some_ : l.parts ≠ []) : words l.text = l.parts := by
  have operation : ∀ op : ArithOp, ' ' ∉ op.text.toList := by
    intro op
    cases op <;> decide
  cases l with
  | movImm dst imm | movz dst chunk shift | movk dst chunk shift =>
    refine words_eq ?_ some_ ?_
    · simp [Line.text, Line.parts]
    · simp [Line.parts, blank_reg, blank_toDigits]
  | arithImm op dst src field shifted =>
    refine words_eq ?_ some_ ?_ <;> cases shifted
    all_goals simp [Line.text, Line.parts, operation, blank_reg, blank_toDigits]
  | arith op dst lhs rhs =>
    refine words_eq ?_ some_ ?_
    · simp [Line.text, Line.parts]
    · simp [Line.parts, operation, blank_reg]
  | _ => exact (some_ rfl).elim

theorem Line.Arithmetic.written {l : Line} (arithmetic : l.Arithmetic) : l.parts ≠ [] := by
  cases l with
  | arithImm op dst src field shifted => cases shifted <;> exact List.cons_ne_nil _ _
  | movImm | movz | movk | arith => exact List.cons_ne_nil _ _
  | _ => exact arithmetic.elim

theorem readLine?_text {l : Line} (arithmetic : l.Arithmetic) : readLine? l.text = some l := by
  rw [readLine?, words_text arithmetic.written]
  cases l with
  | movImm dst imm | movz dst chunk shift | movk dst chunk shift =>
    simp [Line.parts, readWords?, leading?_reg arithmetic, chunk?_repr, number?_repr]
  | arithImm op dst src field shifted =>
    obtain ⟨first, second⟩ := arithmetic
    cases op <;> cases shifted <;>
      simp [Line.parts, readWords?, ArithOp.text, ArithOp.ofText?, leading?_reg first, leading?_reg second, field?_repr]
  | arith op dst lhs rhs =>
    obtain ⟨first, second, third⟩ := arithmetic
    cases op <;>
      simp [Line.parts, readWords?, ArithOp.text, ArithOp.ofText?, leading?_reg first, leading?_reg second,
        field?_reg, register?_reg third]
  | _ => exact arithmetic.elim

example : readLine? "sub w3, wsp, #5, lsl #12" = some (.arithImm .sub (.gp32 3) (.gp32 31) 5 true) := by decide

/-! ### Instructions -/

theorem ConstantLines.arithmetic {most : Nat} {lines : List Line} (general : General dst)
    (built : ConstantLines dst most lines) : ∀ l ∈ lines, l.Arithmetic := by
  cases built with
  | plain value => simpa [Line.Arithmetic] using general
  | chunks =>
    refine List.forall_mem_cons.mpr ⟨general, ?_⟩
    intro l member
    obtain ⟨c, -, rfl⟩ := List.mem_map.mp member
    exact general

theorem arithmetic_arithImm {src : Register} (first : General dst) (second : General src) (op : ArithOp) (imm : UInt32) :
    ∀ l ∈ arithImm op dst src imm, l.Arithmetic := by
  rcases arithImm_cases op dst src imm with ⟨-, lines⟩ | ⟨-, -, lines⟩ | ⟨-, -, lines⟩
  all_goals simp [lines, Line.Arithmetic, first, second]

def Follows (m : Machine) (i : Instr) : Prop := TextFollows .aarch64 readLine? Line.effect? m i

theorem follows_of_lines {m : Machine} {i : Instr} (narrow : i.overwide = false)
    (arithmetic : ∀ l ∈ lower i, l.Arithmetic) (run : runLines m (lower i) = some (m.effect .aarch64 i)) :
    Follows m i :=
  textFollows_of_lines rfl narrow (fun l member => readLine?_text (arithmetic l member)) run

/-- Every immediate, every 64-bit general register in every place, and 32-bit destinations of constants. Registers
without an assembler name are read by their canonical text. -/
theorem a64_lines_follow_machine (m : Machine) :
    (∀ (dst : UInt8) (imm : UInt64),
      Follows m (.movImm (.gp64 dst) imm) ∧ Follows m (.movImm (.gp32 dst) imm) ∧
      (∃ lines, Isa.aarch64.render (.movImm (.gp64 dst) imm) = lines.map Line.text ∧
        ConstantLines (.gp64 dst) 4 lines) ∧
      ∃ lines, Isa.aarch64.render (.movImm (.gp32 dst) imm) = lines.map Line.text ∧
        ConstantLines (.gp32 dst) 2 lines) ∧
    (∀ (dst src : UInt8) (imm : UInt32),
      Follows m (.addImm (.gp64 dst) (.gp64 src) imm) ∧ Follows m (.subImm (.gp64 dst) (.gp64 src) imm)) ∧
    ∀ dst lhs rhs : UInt8,
      Follows m (.add (.gp64 dst) (.gp64 lhs) (.gp64 rhs)) ∧ Follows m (.sub (.gp64 dst) (.gp64 lhs) (.gp64 rhs)) := by
  have wide : ∀ index, General (.gp64 index) := fun _ => .inl rfl
  have narrow : ∀ index, General (.gp32 index) := fun _ => .inr rfl
  have constant : ∀ {dst}, General dst → ∀ imm, Follows m (.movImm dst imm) := by
    intro dst general imm
    exact follows_of_lines rfl ((constantLines_wideMove general imm).arithmetic general) (runLines_wideMove m general imm)
  refine ⟨fun dst imm => ⟨constant (wide dst) imm, constant (narrow dst) imm, ?_, ?_⟩, ?_, ?_⟩
  · exact ⟨_, rfl, constantLines_wideMove (wide dst) imm⟩
  · exact ⟨_, rfl, constantLines_wideMove (narrow dst) imm⟩
  · intro dst src imm
    constructor
    · exact follows_of_lines rfl (arithmetic_arithImm (wide dst) (wide src) .add imm)
        (runLines_arithImm m .add rfl (.gp64 src) imm)
    · exact follows_of_lines rfl (arithmetic_arithImm (wide dst) (wide src) .sub imm)
        (runLines_arithImm m .sub rfl (.gp64 src) imm)
  · intro dst lhs rhs
    have operands := And.intro (wide dst) (And.intro (wide lhs) (wide rhs))
    constructor
    · exact follows_of_lines rfl (List.forall_mem_singleton.mpr operands) rfl
    · exact follows_of_lines rfl (List.forall_mem_singleton.mpr operands) rfl

end Asm.A64
end CallFrame
