import CallFrame.Proofs.A64Lines
import CallFrame.Proofs.OperandForm

/-! The fields of AArch64 add and subtract lines, read off their text. -/
namespace CallFrame.Asm.A64

/-- The number at the end of an add or subtract line, and how far it is shifted. -/
def immediate? (line : String) : Option (Nat × Nat) :=
  match words line with
  | [_, _, _, field] => do some (← number? field, 0)
  | [_, _, _, field, "lsl", shift] => do some (← number? (← beforeComma? field), ← number? shift)
  | _ => none

def fieldSum : List (Nat × Nat) → Nat
  | [] => 0
  | (field, shift) :: fields => field <<< shift + fieldSum fields

def FieldsFit (fields : List (Nat × Nat)) : Prop := ∀ f ∈ fields, f.1 ≤ 4095

def ArithOp.immediate : ArithOp → Register → Register → UInt32 → Instr
  | .add => .addImm
  | .sub => .subImm

variable {imm : UInt32}

theorem immediate?_text (op : ArithOp) (dst src : Register) (field : UInt32) (shifted : Bool) :
    immediate? (Line.arithImm op dst src field shifted).text = some (field.toNat, if shifted then 12 else 0) := by
  have twelve : number? "#12" = some 12 := number?_repr 12
  have parts : ∀ flag, words (Line.arithImm op dst src field flag).text = (Line.arithImm op dst src field flag).parts := by
    intro flag
    apply words_text
    cases flag <;> exact List.cons_ne_nil _ _
  rw [immediate?, parts]
  cases shifted with
  | false => simp [Line.parts, number?_repr]
  | true => simp [Line.parts, number?_repr, twelve]

theorem render_immediate (op : ArithOp) (dst src : Register) (imm : UInt32) :
    Isa.aarch64.render (op.immediate dst src imm) = (arithImm op dst src imm).map Line.text := by
  cases op <;> rfl

/-- The fields of an immediate: the low twelve bits, and what lies above them shifted by twelve, without a part that is
zero unless both are. -/
def fields (imm : UInt32) : List (Nat × Nat) :=
  if imm.toNat < 4096 then [(imm.toNat, 0)]
  else if imm.toNat % 4096 = 0 then [(imm.toNat / 4096, 12)]
  else [(imm.toNat / 4096, 12), (imm.toNat % 4096, 0)]

theorem map_immediate?_render (op : ArithOp) (dst src : Register) (imm : UInt32) :
    (Isa.aarch64.render (op.immediate dst src imm)).map immediate? = (fields imm).map some := by
  rw [render_immediate, fields]
  rcases arithImm_cases op dst src imm with ⟨small, lines⟩ | ⟨large, whole, lines⟩ | ⟨large, odd, lines⟩
  · have low : imm.toNat % 4096 = imm.toNat := Nat.mod_eq_of_lt small
    rw [lines, if_pos small]
    simp only [List.map_cons, List.map_nil, immediate?_text, toNat_low, low, Bool.false_eq_true, if_false]
  · rw [lines, if_neg (by omega), if_pos whole]
    simp only [List.map_cons, List.map_nil, immediate?_text, toNat_high, if_true]
  · rw [lines, if_neg (by omega), if_neg odd]
    simp only [List.map_cons, List.map_nil, immediate?_text, toNat_high, toNat_low, Bool.false_eq_true, if_true,
      if_false]

theorem shift_fields : ∀ f ∈ fields imm, f.2 = 0 ∨ f.2 = 12 := by
  unfold fields
  split
  · simp
  · split <;> simp

theorem fieldSum_fields : fieldSum (fields imm) = imm.toNat := by
  have shift : ∀ n : Nat, n <<< 12 = n * 4096 := fun n => Nat.shiftLeft_eq n 12
  unfold fields
  split
  · rfl
  · split
    · simp only [fieldSum, shift]
      omega
    · simp only [fieldSum, shift, Nat.shiftLeft_zero]
      omega

theorem fieldsFit_iff : FieldsFit (fields imm) ↔ imm.toNat < 0x1000000 := by
  unfold FieldsFit fields
  split
  · simp only [List.forall_mem_singleton]
    omega
  · split
    · simp only [List.forall_mem_singleton]
      omega
    · simp only [List.forall_mem_cons, List.not_mem_nil, false_implies, implies_true, and_true]
      omega

theorem length_fields : (fields imm).length = 1 ↔ imm.toNat < 4096 ∨ imm.toNat % 4096 = 0 := by
  unfold fields
  split
  · simp [*]
  · split
    · simp [*]
    · simp [*]

theorem encodes_iff : ImmediateForm.shifted12.encodes imm.toUInt64 = true ↔
    (imm.toNat < 4096 ∨ imm.toNat % 4096 = 0) ∧ imm.toNat < 0x1000000 := by
  rw [Isa.encodes_shifted12_iff, UInt32.toNat_toUInt64]
  constructor
  · rintro ⟨k, bound, plain | shifted⟩
    · omega
    · omega
  · rintro ⟨small | whole, bound⟩
    · exact ⟨imm.toNat, small, .inl rfl⟩
    · exact ⟨imm.toNat / 4096, by omega, .inr (by omega)⟩

/-- Each line of an immediate add or subtract carries a field shifted by zero or twelve, over any registers, and the
fields add up to the immediate. They have twelve bits exactly below `2 ^ 24`; there an instruction is one line exactly
if its immediate has a form of its own, and above it no immediate has one. -/
theorem immediate_fits_below_two_pow_24 (op : ArithOp) (dst src : Register) (imm : UInt32) :
    ∃ fields,
      (Isa.aarch64.render (op.immediate dst src imm)).map immediate? = fields.map some ∧
      (∀ f ∈ fields, f.2 = 0 ∨ f.2 = 12) ∧
      fieldSum fields = imm.toNat ∧
      (FieldsFit fields ↔ imm.toNat < 0x1000000) ∧
      (ImmediateForm.shifted12.encodes imm.toUInt64 = true ↔ fields.length = 1 ∧ FieldsFit fields) ∧
      (imm.toNat < 0x1000000 →
        ((Isa.aarch64.render (op.immediate dst src imm)).length = 1 ↔
          ImmediateForm.shifted12.encodes imm.toUInt64 = true)) := by
  have read := map_immediate?_render op dst src imm
  have count : (Isa.aarch64.render (op.immediate dst src imm)).length = (fields imm).length := by
    simpa using congrArg List.length read
  refine ⟨fields imm, read, shift_fields, fieldSum_fields, fieldsFit_iff, ?_, ?_⟩
  · rw [encodes_iff, length_fields, fieldsFit_iff]
  · intro bound
    rw [count, length_fields, encodes_iff]
    exact (and_iff_left bound).symm

/-- The first immediate too large for two fields is still written as one line, with a field of thirteen bits. -/
theorem two_pow_24_overflows_field :
    Isa.aarch64.render (.addImm (.gp64 1) (.gp64 2) 0x1000000) = ["add x1, x2, #4096, lsl #12"] ∧
      immediate? "add x1, x2, #4096, lsl #12" = some (4096, 12) ∧
      ImmediateForm.shifted12.encodes 0x1000000 = false := by
  decide

end CallFrame.Asm.A64
