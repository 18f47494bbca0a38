import CallFrame.Asm.Render
import CallFrame.Proofs.A64Immediate
import CallFrame.Proofs.OperandAddress

/-! Which form an operand takes and what it costs. -/
namespace CallFrame

/-! ### Fields as numbers -/

/-- The magnitudes that the set's add and subtract instructions carry: twelve bits, shifted left by twelve or not at
all, or the nonnegative half of a signed field of 32 bits. -/
def Isa.Carries : Isa → Nat → Prop
  | .aarch64, n => ∃ k, k < 4096 ∧ (n = k ∨ n = k * 4096)
  | .x86_64, n => n ≤ 2147483647

namespace Isa

variable {isa : Isa}

theorem encodes_shifted12_iff {value : UInt64} :
    ImmediateForm.shifted12.encodes value = true ↔ Isa.aarch64.Carries value.toNat := by
  have low : (value &&& 0xFFF).toNat = value.toNat % 4096 := by
    rw [UInt64.toNat_and]
    exact Nat.and_two_pow_sub_one_eq_mod value.toNat 12
  have masked : value &&& 0xFFF = 0 ↔ value.toNat % 4096 = 0 := by
    rw [← UInt64.toNat_inj, low]
    rfl
  simp only [ImmediateForm.encodes, Bool.or_eq_true, Bool.and_eq_true, decide_eq_true_eq, beq_iff_eq, masked,
    UInt64.le_iff_toNat_le]
  change value.toNat ≤ 4095 ∨ value.toNat % 4096 = 0 ∧ value.toNat ≤ 16773120 ↔ _
  constructor
  · rintro (small | ⟨multiple, bounded⟩)
    · exact ⟨value.toNat, by omega, .inl rfl⟩
    · exact ⟨value.toNat / 4096, by omega, .inr (by omega)⟩
  · rintro ⟨k, bound, plain | shifted⟩
    · omega
    · omega

theorem fitsImmediate_iff {value : UInt64} : isa.fitsImmediate value = true ↔ isa.Carries value.toNat := by
  cases isa with
  | x86_64 => exact decide_eq_true_iff.trans UInt64.le_iff_toNat_le
  | aarch64 => exact encodes_shifted12_iff

end Isa

/-! ### Immediates in instructions -/

def Instr.immediate? : Instr → Option (Asm.A64.ArithOp × Register × Register × UInt32)
  | .addImm dst src imm => some (.add, dst, src, imm)
  | .subImm dst src imm => some (.sub, dst, src, imm)
  | _ => none

/-- The set's field carries the instruction's immediate, if it has one. On AArch64 the instruction is then one line
whose field and shift give the immediate back. -/
def Instr.Encoded (isa : Isa) (i : Instr) : Prop :=
  ∀ op dst src imm, i.immediate? = some (op, dst, src, imm) →
    isa.Carries imm.toNat ∧
      (isa = .aarch64 → ∃ field shifted,
        Isa.aarch64.render i = [(Asm.A64.Line.arithImm op dst src field shifted).text] ∧
          field.toNat < 4096 ∧ Asm.A64.fieldValue field shifted = imm.toNat)

theorem Asm.A64.arithImm_carried {imm : UInt32} (carried : Isa.aarch64.Carries imm.toNat) (op : ArithOp)
    (dst src : Register) :
    ∃ field shifted, arithImm op dst src imm = [.arithImm op dst src field shifted] ∧
      field.toNat < 4096 ∧ fieldValue field shifted = imm.toNat := by
  obtain ⟨k, bound, value⟩ := carried
  rcases arithImm_cases op dst src imm with ⟨small, lines⟩ | ⟨-, whole, lines⟩ | ⟨large, odd, -⟩
  · refine ⟨_, _, lines, ?_, ?_⟩
    · rw [toNat_low]
      omega
    · rw [fieldValue_low]
      omega
  · refine ⟨_, _, lines, ?_, ?_⟩
    · rw [toNat_high]
      omega
    · rw [fieldValue_high]
      omega
  · -- Neither a number of twelve bits nor a multiple of 4096.
    omega

theorem Instr.lower_immediate {i : Instr} {op : Asm.A64.ArithOp} {dst src : Register} {imm : UInt32}
    (found : i.immediate? = some (op, dst, src, imm)) : Asm.A64.lower i = Asm.A64.arithImm op dst src imm := by
  cases i with
  | addImm | subImm =>
    cases found
    rfl
  | _ => cases found

theorem Instr.encoded_of_carries {isa : Isa} {i : Instr}
    (carried : ∀ op dst src imm, i.immediate? = some (op, dst, src, imm) → isa.Carries imm.toNat) : i.Encoded isa := by
  intro op dst src imm found
  refine ⟨carried op dst src imm found, ?_⟩
  rintro rfl
  obtain ⟨field, shifted, lines, small, value⟩ :=
    Asm.A64.arithImm_carried (carried op dst src imm found) op dst src
  refine ⟨field, shifted, ?_, small, value⟩
  rw [Isa.render, lower_immediate found, lines]
  rfl

/-! ### The cost of a tier -/

def Tier.cost : Tier → Nat
  | .direct => 0
  | .immediate => 1
  | .scratch => 2

namespace Operand

variable {isa : Isa} {base scratch : Register} {offset : Int64}

theorem tier_eq_direct_iff : tier isa offset = .direct ↔ isa.profile.direct.Covers offset.toInt := by
  rw [← Isa.fitsDirect_iff, tier]
  cases plan isa offset <;> simp [*]

theorem tier_eq_immediate_iff :
    tier isa offset = .immediate ↔
      ¬ isa.profile.direct.Covers offset.toInt ∧ isa.Carries offset.toInt.natAbs := by
  rw [← Isa.fitsDirect_iff, ← toNat_magnitude, ← Isa.fitsImmediate_iff, tier]
  cases plan isa offset <;> simp [*]

theorem tier_eq_scratch_iff :
    tier isa offset = .scratch ↔
      ¬ isa.profile.direct.Covers offset.toInt ∧ ¬ isa.Carries offset.toInt.natAbs := by
  rw [← Isa.fitsDirect_iff, ← toNat_magnitude, ← Isa.fitsImmediate_iff, tier]
  cases plan isa offset <;> simp [*]

/-- An x86-64 displacement reaches every magnitude that an immediate does. -/
theorem tier_x86_ne_immediate (offset : Int64) : tier .x86_64 offset ≠ .immediate := by
  intro immediate
  obtain ⟨far, carried⟩ := tier_eq_immediate_iff.mp immediate
  have carried : offset.toInt.natAbs ≤ 2147483647 := carried
  apply far
  change -2147483648 ≤ offset.toInt ∧ offset.toInt ≤ 2147483647
  omega

theorem length_code : (code isa base offset scratch).length = (tier isa offset).cost := by
  unfold code tier
  split
  · rfl
  · rfl
  · cases isa <;> rfl

theorem encoded_code : ∀ i ∈ code isa base offset scratch, i.Encoded isa := by
  intro i member
  apply Instr.encoded_of_carries
  intro op dst src imm found
  unfold code at member
  cases plan isa offset with
  | direct chosen =>
    rw [chosen] at member
    cases member
  | @immediate word skipped chosen _ fits narrow =>
    have carried : isa.Carries word.toNat := narrow ▸ Isa.fitsImmediate_iff.mp fits
    rw [skipped, chosen] at member
    dsimp only at member
    rw [List.mem_singleton] at member
    split at member
    · subst member
      cases found
      exact carried
    · subst member
      cases found
      exact carried
  | scratch skipped refused =>
    -- A materialised constant is moved and added as a register.
    rw [skipped, refused] at member
    cases isa with
    | x86_64 =>
      simp only [Isa.addressCode, List.mem_cons, List.not_mem_nil, or_false] at member
      rcases member with rfl | rfl <;> cases found
    | aarch64 =>
      simp only [Isa.addressCode, List.mem_cons, List.not_mem_nil, or_false] at member
      rcases member with rfl | rfl
      · cases found
      · split at found <;> cases found

theorem operand_plain : (operand isa base offset scratch).mode = .offset := by
  unfold operand
  split <;> rfl

theorem operand_near : isa.profile.direct.Covers (operand isa base offset scratch).disp.toInt := by
  have zero : isa.profile.direct.Covers (0 : Int32).toInt := by
    cases isa <;> exact ⟨by decide, by decide⟩
  unfold operand
  cases plan isa offset with
  | direct chosen near narrow =>
    rw [chosen]
    dsimp only [MemOperand.offset]
    rw [narrow]
    exact Isa.fitsDirect_iff.mp near
  | immediate skipped | scratch skipped =>
    rw [skipped]
    exact zero

theorem acceptsScratch_iff : acceptsScratch isa scratch = true ↔ scratch.cls = .gp64 ∧ scratch ≠ isa.stackPointer := by
  simp [acceptsScratch]

theorem resolve_refused {σ : Type} [Sink σ] (refused : acceptsScratch isa scratch = false) (base : Register)
    (offset : Int64) (e : Emission σ) :
    resolve isa base offset scratch e =
      .error (.violation (.badScratch isa.name (isa.nameOf (.register scratch))))
        (e.noted (.violated (.badScratch isa.name (isa.nameOf (.register scratch))))) := by
  unfold resolve
  rw [refused, if_pos (by decide)]
  rfl

/-- What the resolver promises of an operand and of the code that prepares it. -/
structure Cheapest (isa : Isa) (offset : Int) (mem : MemOperand) (code : List Instr) : Prop where
  plain : mem.mode = .offset
  near : isa.profile.direct.Covers mem.disp.toInt
  none_iff : code.length = 0 ↔ isa.profile.direct.Covers offset
  one_iff : code.length = 1 ↔ ¬ isa.profile.direct.Covers offset ∧ isa.Carries offset.natAbs
  two_iff : code.length = 2 ↔ ¬ isa.profile.direct.Covers offset ∧ ¬ isa.Carries offset.natAbs
  never_one : isa = .x86_64 → code.length ≠ 1
  encoded : ∀ i ∈ code, i.Encoded isa

def titleOf : Nat → String
  | 0 => "direct operand"
  | 1 => "offset via add/sub immediate"
  | _ => "offset via scratch register"

theorem title_tier (t : Tier) : t.title = titleOf t.cost := by
  cases t <;> rfl

theorem cheapest : Cheapest isa offset.toInt (operand isa base offset scratch) (code isa base offset scratch) := by
  refine ⟨operand_plain, operand_near, ?_, ?_, ?_, ?_, encoded_code⟩
  · rw [length_code, ← tier_eq_direct_iff]
    cases tier isa offset <;> decide
  · rw [length_code, ← tier_eq_immediate_iff]
    cases tier isa offset <;> decide
  · rw [length_code, ← tier_eq_scratch_iff]
    cases tier isa offset <;> decide
  · rintro rfl
    have other := tier_x86_ne_immediate offset
    rw [length_code]
    cases chosen : tier .x86_64 offset with
    | direct | scratch => decide
    | immediate => exact (other chosen).elim

end Operand

/-- With every usable scratch register the resolver spends as few instructions as the offset allows and says so in one
event; with any other register it fails in every sink, and only the failure is noted. -/
theorem resolve_takes_cheapest (isa : Isa) (base : Register) (offset : Int64) (scratch : Register) :
    (scratch.cls = .gp64 ∧ scratch ≠ isa.stackPointer →
      ∃ mem code event,
        Operand.Cheapest isa offset.toInt mem code ∧
        event.level = .trace ∧ event.isSpan = false ∧ event.title = Operand.titleOf code.length ∧
        ∀ e : Emission Code, ∃ e',
          Operand.resolve isa base offset scratch e = .ok mem e' ∧
          e'.sink.toList = e.sink.toList ++ code ∧ e'.journal = e.journal.push event) ∧
    (¬ (scratch.cls = .gp64 ∧ scratch ≠ isa.stackPointer) →
      let violation := Violation.badScratch isa.name (isa.nameOf (.register scratch))
      ∀ (σ : Type) [Sink σ] (e : Emission σ),
        Operand.resolve isa base offset scratch e =
          .error (.violation violation) { e with journal := e.journal.push (.violated violation) }) := by
  rw [← Operand.acceptsScratch_iff]
  constructor
  · intro accepted
    refine ⟨Operand.operand isa base offset scratch, Operand.code isa base offset scratch,
      .resolved isa offset (Operand.tier isa offset), Operand.cheapest, rfl, rfl, ?_, ?_⟩
    · rw [Operand.length_code]
      exact Operand.title_tier _
    · intro e
      refine ⟨_, Operand.resolve_code accepted base offset e, ?_, rfl⟩
      exact Code.toList_append _ _
  · intro refused violation σ _ e
    rw [Bool.not_eq_true] at refused
    exact Operand.resolve_refused refused base offset e

/-- The largest shifted field, below the base. -/
theorem resolve_takes_shifted_field :
    (A64.ip0.cls = .gp64 ∧ A64.ip0 ≠ Isa.aarch64.stackPointer) ∧
      ∃ mem code event,
        Operand.Cheapest .aarch64 (-16773120) mem code ∧ code.length = 1 ∧
        event.title = "offset via add/sub immediate" ∧
        ∀ e : Emission Code, ∃ e',
          Operand.resolve .aarch64 A64.fp (-16773120) A64.ip0 e = .ok mem e' ∧
          e'.sink.toList = e.sink.toList ++ code ∧ e'.journal = e.journal.push event := by
  have usable : A64.ip0.cls = .gp64 ∧ A64.ip0 ≠ Isa.aarch64.stackPointer := by decide
  obtain ⟨mem, code, event, cheapest, -, -, title, resolved⟩ :=
    (resolve_takes_cheapest .aarch64 A64.fp (-16773120) A64.ip0).1 usable
  have one : code.length = 1 := by
    refine cheapest.one_iff.mpr ⟨?_, 4095, by decide, .inr (by decide)⟩
    rintro ⟨low, -⟩
    exact absurd low (by decide)
  rw [one] at title
  exact ⟨usable, mem, code, event, cheapest, one, title, resolved⟩

/-! ### The bounded form -/

namespace Operand

variable {isa : Isa} {base scratch : Register} {offset : Int64}

theorem bounded_inside (inside : isa.profile.bounded.Covers offset.toInt) {disp : Int32}
    (narrow : int32? offset = some disp) (base : Register) : bounded isa base offset = .ok (.offset base disp) := by
  unfold bounded
  rw [narrow]
  exact if_pos (OffsetRange.contains_iff.mpr inside)

theorem bounded_outside (outside : ¬ isa.profile.bounded.Covers offset.toInt) (base : Register) :
    bounded isa base offset =
      .error (.farOffset isa.name offset isa.profile.bounded.min isa.profile.bounded.max) := by
  unfold bounded
  split
  · exact if_neg (mt OffsetRange.contains_iff.mp outside)
  · rfl

theorem run_code (m : Machine) :
    Machine.run isa (code isa base offset scratch) m = .ok () (m.effects isa (code isa base offset scratch)) := by
  apply m.run_of_narrow
  intro i member
  rw [silent_code i member]
  exact Nat.zero_le _

theorem resolve_direct {σ : Type} [Sink σ] (accepted : acceptsScratch isa scratch = true)
    (near : isa.profile.direct.Covers offset.toInt) {disp : Int32} (narrow : int32? offset = some disp)
    (base : Register) (e : Emission σ) :
    resolve isa base offset scratch e = .ok (.offset base disp) (e.noted (.resolved isa offset .direct)) := by
  have chosen : direct? isa offset = some disp := by rw [direct?, if_pos (Isa.fitsDirect_iff.mpr near), narrow]
  unfold resolve
  rw [accepted, if_neg (by decide), tier_eq_direct_iff.mpr near, code, operand, chosen]
  rfl

end Operand

/-- The bounded form against the resolver: they address the same byte wherever the bounded form accepts the offset, and
are the same operand in the direct range. -/
theorem bounded_agrees_with_resolve (isa : Isa) (base : Register) (offset : Int64) :
    ((∃ mem, Operand.bounded isa base offset = .ok mem) ↔ isa.profile.bounded.Covers offset.toInt) ∧
    (¬ isa.profile.bounded.Covers offset.toInt →
      Operand.bounded isa base offset =
        .error (.farOffset isa.name offset isa.profile.bounded.min isa.profile.bounded.max)) ∧
    (∀ mem, Operand.bounded isa base offset = .ok mem →
      ∀ scratch, scratch.cls = .gp64 ∧ scratch ≠ isa.stackPointer → base.cell ≠ scratch.cell →
      ∀ (e : Emission Code) (m : Machine), ∃ mem' e' code m',
        Operand.resolve isa base offset scratch e = .ok mem' e' ∧
        e'.sink.toList = e.sink.toList ++ code ∧
        Machine.run isa code m = .ok () m' ∧
        m'.effectiveAddress mem' = m.effectiveAddress mem) ∧
    (isa.profile.direct.Covers offset.toInt →
      ∃ mem, Operand.bounded isa base offset = .ok mem ∧
        ∀ scratch, scratch.cls = .gp64 ∧ scratch ≠ isa.stackPointer →
        ∀ (σ : Type) [Sink σ] (e : Emission σ), ∃ e',
          Operand.resolve isa base offset scratch e = .ok mem e' ∧ e'.sink = e.sink) := by
  have covered : ∀ {mem}, Operand.bounded isa base offset = .ok mem → isa.profile.bounded.Covers offset.toInt := by
    intro mem accepted
    refine Classical.byContradiction fun outside => ?_
    rw [Operand.bounded_outside outside] at accepted
    cases accepted
  refine ⟨⟨?_, ?_⟩, fun outside => Operand.bounded_outside outside base, ?_, ?_⟩
  · rintro ⟨mem, accepted⟩
    exact covered accepted
  · intro inside
    obtain ⟨disp, narrow, -⟩ := Operand.exists_int32 inside
    exact ⟨_, Operand.bounded_inside inside narrow base⟩
  · intro mem accepted scratch usable apart e m
    have inside := covered accepted
    obtain ⟨disp, narrow, value⟩ := Operand.exists_int32 inside
    rw [Operand.bounded_inside inside narrow] at accepted
    cases accepted
    refine ⟨_, _, Operand.code isa base offset scratch, _,
      Operand.resolve_code (Operand.acceptsScratch_iff.mpr usable) base offset e, ?_, Operand.run_code m, ?_⟩
    · exact Code.toList_append _ _
    · rw [Operand.effectiveAddress_operand m usable.1 apart, ← value]
      rfl
  · intro near
    have inside := Operand.covers_bounded_of_direct near
    obtain ⟨disp, narrow, -⟩ := Operand.exists_int32 inside
    refine ⟨_, Operand.bounded_inside inside narrow base, ?_⟩
    intro scratch usable σ _ e
    exact ⟨_, Operand.resolve_direct (Operand.acceptsScratch_iff.mpr usable) near narrow base e, rfl⟩

/-- The largest bounded offset is no direct one, and from this base it leads past the end of the address space. -/
theorem bounded_agrees_past_zero :
    let m := (Machine.new .aarch64).set64 A64.fp 0xfffffffffffffff0
    let mem := MemOperand.offset A64.fp 2047
    Operand.bounded .aarch64 A64.fp 2047 = .ok mem ∧
      (A64.ip0.cls = .gp64 ∧ A64.ip0 ≠ Isa.aarch64.stackPointer) ∧ A64.fp.cell ≠ A64.ip0.cell ∧
      ∃ mem' e' m',
        Operand.resolve .aarch64 A64.fp 2047 A64.ip0 ({ sink := {} } : Emission Code) = .ok mem' e' ∧
        Machine.run .aarch64 e'.sink.toList m = .ok () m' ∧
        m'.effectiveAddress mem' = m.effectiveAddress mem ∧ m.effectiveAddress mem = 2031 := by
  intro m mem
  have accepted : Operand.bounded .aarch64 A64.fp 2047 = .ok mem := rfl
  have usable : A64.ip0.cls = .gp64 ∧ A64.ip0 ≠ Isa.aarch64.stackPointer := by decide
  have apart : A64.fp.cell ≠ A64.ip0.cell := by decide
  obtain ⟨-, -, agrees, -⟩ := bounded_agrees_with_resolve .aarch64 A64.fp 2047
  obtain ⟨mem', e', code, m', resolved, sink, run, address⟩ :=
    agrees mem accepted A64.ip0 usable apart { sink := {} } m
  have sink : e'.sink.toList = code := sink
  exact ⟨accepted, usable, apart, mem', e', m', resolved, sink ▸ run, address, by decide⟩

end CallFrame
