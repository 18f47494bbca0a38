import CallFrame.Operand
import CallFrame.Proofs.Lifecycle
import CallFrame.Proofs.Execution

/-! Where a resolved operand points. -/
namespace CallFrame

def OffsetRange.Covers (range : OffsetRange) (offset : Int) : Prop :=
  range.min.toInt ≤ offset ∧ offset ≤ range.max.toInt

theorem OffsetRange.contains_iff {range : OffsetRange} {offset : Int64} :
    range.contains offset = true ↔ range.Covers offset.toInt := by
  simp only [contains, Covers, Bool.and_eq_true, decide_eq_true_eq, Int64.le_iff_toInt_le]

theorem Isa.fitsDirect_iff {isa : Isa} {offset : Int64} :
    isa.fitsDirect offset = true ↔ isa.profile.direct.Covers offset.toInt :=
  OffsetRange.contains_iff

namespace Operand

variable {isa : Isa} {base scratch : Register} {offset : Int64}

/-! ### Offsets as words -/

theorem toNat_magnitude (offset : Int64) : (magnitude offset).toNat = offset.toInt.natAbs := by
  have low := offset.le_toInt
  have high := offset.toInt_lt
  apply UInt64.toNat_ofNat_of_lt'
  simp only [UInt64.size]
  omega

/-- Adding an offset is adding its magnitude or, below zero, subtracting it. -/
theorem add_offset (a : Addr) (offset : Int64) :
    a + BitVec.ofInt 64 offset.toInt =
      if offset < 0 then a - BitVec.ofNat 64 (magnitude offset).toNat
      else a + BitVec.ofNat 64 (magnitude offset).toNat := by
  rw [toNat_magnitude]
  by_cases negative : offset < 0
  · rw [if_pos negative]
    rw [Int64.lt_iff_toInt_lt, Int64.toInt_zero] at negative
    have signed : offset.toInt = -(offset.toInt.natAbs : Int) := by omega
    rw [signed, BitVec.ofInt_neg, BitVec.ofInt_natCast, Int.natAbs_neg, Int.natAbs_natCast, BitVec.sub_eq_add_neg]
  · rw [if_neg negative]
    rw [Int64.lt_iff_toInt_lt, Int64.toInt_zero] at negative
    have signed : offset.toInt = (offset.toInt.natAbs : Int) := by omega
    rw [signed, BitVec.ofInt_natCast, Int.natAbs_natCast]

theorem toInt_toInt32_of_fits (low : -2147483648 ≤ offset.toInt) (high : offset.toInt ≤ 2147483647) :
    offset.toInt32.toInt = offset.toInt := by
  rw [Int64.toInt_toInt32, Int.bmod_eq_of_le] <;> omega

theorem int32?_eq_some_iff {disp : Int32} : int32? offset = some disp ↔ disp.toInt = offset.toInt := by
  unfold int32?
  split
  · rename_i fits
    rw [Option.some.injEq, ← Int32.toInt_inj, toInt_toInt32_of_fits fits.1 fits.2, eq_comm]
  · rename_i outside
    refine ⟨nofun, fun same => (outside ?_).elim⟩
    rw [← same]
    exact ⟨disp.le_toInt, Int.le_of_lt_add_one disp.toInt_lt⟩

theorem uint32?_eq_some_iff {n : UInt64} {imm : UInt32} : uint32? n = some imm ↔ imm.toNat = n.toNat := by
  unfold uint32?
  split
  · rename_i fits
    rw [Option.some.injEq, ← UInt32.toNat_inj, UInt64.toNat_toUInt32, Nat.mod_eq_of_lt fits, eq_comm]
  · rename_i outside
    refine ⟨nofun, fun same => (outside ?_).elim⟩
    rw [← same]
    exact imm.toNat_lt

theorem covers_bounded_of_direct (near : isa.profile.direct.Covers offset.toInt) :
    isa.profile.bounded.Covers offset.toInt := by
  cases isa with
  | x86_64 => exact near
  | aarch64 =>
    have near : -256 ≤ offset.toInt ∧ offset.toInt ≤ 255 := near
    change -256 ≤ offset.toInt ∧ offset.toInt ≤ 2047
    omega

/-- No conversion fails inside the range. -/
theorem exists_int32 (inside : isa.profile.bounded.Covers offset.toInt) :
    ∃ disp, int32? offset = some disp ∧ disp.toInt = offset.toInt := by
  have bounds : -2147483648 ≤ offset.toInt ∧ offset.toInt ≤ 2147483647 := by
    cases isa with
    | x86_64 => exact inside
    | aarch64 =>
      have inside : -256 ≤ offset.toInt ∧ offset.toInt ≤ 2047 := inside
      omega
  have narrow := toInt_toInt32_of_fits bounds.1 bounds.2
  exact ⟨_, int32?_eq_some_iff.mpr narrow, narrow⟩

/-- No conversion fails where the operand is direct. -/
theorem exists_direct (near : isa.fitsDirect offset = true) :
    ∃ disp, direct? isa offset = some disp ∧ disp.toInt = offset.toInt := by
  obtain ⟨disp, narrow, value⟩ := exists_int32 (covers_bounded_of_direct (Isa.fitsDirect_iff.mp near))
  refine ⟨disp, ?_, value⟩
  rw [direct?, if_pos near, narrow]

/-- No conversion fails where one instruction carries the magnitude. -/
theorem exists_immediate (fits : isa.fitsImmediate (magnitude offset) = true) :
    ∃ imm, immediate? isa offset = some imm ∧ imm.toNat = (magnitude offset).toNat := by
  have bound : (magnitude offset).toNat ≤ 2147483647 := by
    cases isa with
    | x86_64 => exact UInt64.le_iff_toNat_le.mp (of_decide_eq_true fits)
    | aarch64 =>
      simp only [Isa.fitsImmediate, Isa.profile, ImmediateForm.encodes, Bool.or_eq_true, Bool.and_eq_true,
        decide_eq_true_eq, UInt64.le_iff_toNat_le] at fits
      rcases fits with small | ⟨-, small⟩
      · exact Nat.le_trans small (by decide)
      · exact Nat.le_trans small (by decide)
  have word : (magnitude offset).toUInt32.toNat = (magnitude offset).toNat := by
    rw [UInt64.toNat_toUInt32]
    omega
  refine ⟨_, ?_, word⟩
  rw [immediate?, uint32?_eq_some_iff.mpr word]
  exact if_pos fits

/-- The three ways to reach an offset. -/
inductive Plan (isa : Isa) (offset : Int64) : Prop
  | direct {disp : Int32} (chosen : direct? isa offset = some disp) (near : isa.fitsDirect offset = true)
      (narrow : disp.toInt = offset.toInt)
  | immediate {imm : UInt32} (skipped : direct? isa offset = none) (chosen : immediate? isa offset = some imm)
      (far : isa.fitsDirect offset = false) (fits : isa.fitsImmediate (magnitude offset) = true)
      (narrow : imm.toNat = (magnitude offset).toNat)
  | scratch (skipped : direct? isa offset = none) (refused : immediate? isa offset = none)
      (far : isa.fitsDirect offset = false) (wide : isa.fitsImmediate (magnitude offset) = false)

theorem plan (isa : Isa) (offset : Int64) : Plan isa offset := by
  cases near : isa.fitsDirect offset with
  | true =>
    obtain ⟨disp, chosen, narrow⟩ := exists_direct near
    exact .direct chosen near narrow
  | false =>
    have skipped : direct? isa offset = none := by simp [direct?, near]
    cases fits : isa.fitsImmediate (magnitude offset) with
    | true =>
      obtain ⟨imm, chosen, narrow⟩ := exists_immediate fits
      exact .immediate skipped chosen near fits narrow
    | false =>
      refine .scratch skipped ?_ near fits
      unfold immediate?
      split
      · rw [fits]
        rfl
      · rfl

/-! ### What the prepared code does -/

theorem effects_immediate (m : Machine) {imm : UInt32} (narrow : imm.toNat = (magnitude offset).toNat) :
    m.effects isa [if offset < 0 then .subImm scratch base imm else .addImm scratch base imm] =
      m.set64 scratch (m.get64 base + BitVec.ofInt 64 offset.toInt) := by
  rw [add_offset]
  by_cases negative : offset < 0
  · simp only [if_pos negative, Machine.effects_cons, Machine.effects_nil, Machine.effect, narrow]
  · simp only [if_neg negative, Machine.effects_cons, Machine.effects_nil, Machine.effect, narrow]

theorem effects_addressCode (m : Machine) (wide : scratch.cls = .gp64) (apart : base.cell ≠ scratch.cell) :
    m.effects isa (isa.addressCode base offset scratch) =
      m.set64 scratch (m.get64 base + BitVec.ofInt 64 offset.toInt) := by
  have kept : ∀ k, (m.set64 scratch k).get64 base = m.get64 base := by
    intro k
    unfold Machine.get64
    rw [Machine.get_set64_other m k apart]
  cases isa with
  | x86_64 =>
    have word : offset.toUInt64.toBitVec = BitVec.ofInt 64 offset.toInt := (BitVec.ofInt_toInt).symm
    simp only [Isa.addressCode, Machine.effects_cons, Machine.effects_nil, Machine.effect, word, kept,
      Machine.get64_set64_same m _ wide, Machine.set64_set64]
  | aarch64 =>
    -- The immediate is the magnitude; the sign chose between the two instructions.
    have word : (UInt64.ofNat offset.toInt.natAbs).toBitVec = BitVec.ofNat 64 (magnitude offset).toNat := by
      rw [UInt64.toNat, BitVec.ofNat_toNat, BitVec.setWidth_eq, magnitude]
    rw [add_offset]
    by_cases negative : offset < 0
    · simp only [Isa.addressCode, if_pos negative, Machine.effects_cons, Machine.effects_nil, Machine.effect, word,
        kept, Machine.get64_set64_same m _ wide, Machine.set64_set64]
    · simp only [Isa.addressCode, if_neg negative, Machine.effects_cons, Machine.effects_nil, Machine.effect, word,
        kept, Machine.get64_set64_same m _ wide, Machine.set64_set64]

theorem effects_code (m : Machine) (wide : scratch.cls = .gp64) (apart : base.cell ≠ scratch.cell) :
    m.effects isa (code isa base offset scratch) =
      if isa.fitsDirect offset then m else m.set64 scratch (m.get64 base + BitVec.ofInt 64 offset.toInt) := by
  unfold code
  cases plan isa offset with
  | direct chosen near =>
    rw [chosen, if_pos near]
    rfl
  | immediate skipped chosen far fits narrow =>
    rw [skipped, chosen, far]
    exact effects_immediate m narrow
  | scratch skipped refused far =>
    rw [skipped, refused, far]
    exact effects_addressCode m wide apart

theorem get_effects_code (m : Machine) (wide : scratch.cls = .gp64) (apart : base.cell ≠ scratch.cell) {r : Register}
    (other : r.cell ≠ scratch.cell) : (m.effects isa (code isa base offset scratch)).get r = m.get r := by
  rw [effects_code m wide apart]
  split
  · rfl
  · exact m.get_set64_other _ other

theorem memory_effects_code (m : Machine) (wide : scratch.cls = .gp64) (apart : base.cell ≠ scratch.cell) :
    (m.effects isa (code isa base offset scratch)).memory = m.memory := by
  rw [effects_code m wide apart]
  split <;> rfl

theorem effectiveAddress_operand (m : Machine) (wide : scratch.cls = .gp64) (apart : base.cell ≠ scratch.cell) :
    (m.effects isa (code isa base offset scratch)).effectiveAddress (operand isa base offset scratch) =
      m.get64 base + BitVec.ofInt 64 offset.toInt := by
  rw [effects_code m wide apart, operand]
  cases plan isa offset with
  | direct chosen near narrow =>
    rw [chosen, if_pos near]
    simp only [Machine.effectiveAddress, Machine.indexed, MemOperand.offset, narrow]
  | immediate skipped _ far | scratch skipped _ far =>
    rw [skipped, far]
    exact (Machine.effectiveAddress_ofBase _ _).trans (Machine.get64_set64_same m _ wide)

theorem silent_code : ∀ i ∈ code isa base offset scratch, i.writtenBytes = 0 := by
  unfold code
  split
  · exact List.forall_mem_nil _
  · rw [List.forall_mem_singleton]
    split <;> rfl
  · cases isa with
    | x86_64 => simp [Isa.addressCode, Instr.writtenBytes]
    | aarch64 =>
      simp only [Isa.addressCode, List.mem_cons, List.not_mem_nil, or_false, forall_eq_or_imp, forall_eq]
      refine ⟨rfl, ?_⟩
      split <;> rfl

/-! ### Emitting it -/

theorem resolve_code (accepted : acceptsScratch isa scratch = true) (base : Register) (offset : Int64)
    (e : Emission Code) :
    resolve isa base offset scratch e = .ok (operand isa base offset scratch)
      ((e.noted (.resolved isa offset (tier isa offset))).recorded (code isa base offset scratch)) := by
  unfold resolve
  rw [accepted, if_neg (by decide)]
  dsimp only
  rw [bind_ok (show Emit.note _ _ = .ok _ _ from rfl), bind_ok (Emit.emitAll_code _ _)]
  rfl

end Operand

/-- Resolving succeeds with every usable scratch register, and what it emits changes that register at most. -/
theorem resolve_addresses_sum (isa : Isa) (base : Register) (offset : Int64) (scratch : Register)
    (wide : scratch.cls = .gp64) (free : scratch ≠ isa.stackPointer) (apart : base.cell ≠ scratch.cell)
    (e : Emission Code) (m : Machine) :
    ∃ mem e' code m',
      Operand.resolve isa base offset scratch e = .ok mem e' ∧
      e'.sink.toList = e.sink.toList ++ code ∧
      Machine.run isa code m = .ok () m' ∧
      m'.effectiveAddress mem = m.get64 base + BitVec.ofInt 64 offset.toInt ∧
      m'.memory = m.memory ∧
      (∀ r, r.cell ≠ scratch.cell → m'.get r = m.get r) ∧
      m'.get base = m.get base ∧ m'.sp isa = m.sp isa := by
  have accepted : Operand.acceptsScratch isa scratch = true := by simp [Operand.acceptsScratch, wide, free]
  have kept : ∀ r : Register, r.cell ≠ scratch.cell →
      (m.effects isa (Operand.code isa base offset scratch)).get r = m.get r :=
    fun _ other => Operand.get_effects_code m wide apart other
  -- Among the 64-bit general registers only the stack pointer itself lies in its cell.
  have clear : isa.stackPointer.cell ≠ scratch.cell := by
    intro same
    have index : isa.stackPointer.index = scratch.index := congrArg Cell.index same
    apply free
    change ⟨scratch.cls, scratch.index⟩ = isa.stackPointer
    rw [wide, ← isa.cls_stackPointer, ← index]
  refine ⟨_, _, Operand.code isa base offset scratch, _, Operand.resolve_code accepted base offset e, ?_,
    m.run_of_narrow ?_, Operand.effectiveAddress_operand m wide apart, Operand.memory_effects_code m wide apart, kept,
    kept base apart, ?_⟩
  · simp
  · intro i member
    rw [Operand.silent_code i member]
    exact Nat.zero_le _
  · exact congrArg (BitVec.setWidth 64) (kept isa.stackPointer clear)

/-- The most negative offset, from a narrow view of the base. -/
theorem resolve_min_offset :
    let m := (Machine.new .aarch64).set64 (A64.x 3) 0xffffffff00000005
    ∃ mem e' m',
      Operand.resolve .aarch64 (.gp32 3) Int64.minValue (A64.x 9) ({ sink := {} } : Emission Code) = .ok mem e' ∧
      Machine.run .aarch64 e'.sink.toList m = .ok () m' ∧
      m'.effectiveAddress mem = 0x8000000000000005 ∧ m'.get (A64.x 3) = 0xffffffff00000005 := by
  intro m
  obtain ⟨mem, e', code, m', resolved, sink, run, address, -, kept, -⟩ :=
    resolve_addresses_sum .aarch64 (.gp32 3) Int64.minValue (A64.x 9) rfl (by decide) (by decide) { sink := {} } m
  have sink : e'.sink.toList = code := sink
  refine ⟨mem, e', m', resolved, sink ▸ run, address.trans ?_, (kept (A64.x 3) (by decide)).trans ?_⟩
  · decide
  · decide

end CallFrame
