import CallFrame.Proofs.Refusal

/-! The size of a frame, from how many registers of each file it saves. -/
namespace CallFrame

variable {isa : Isa} {pairs : List SavePair} {checked : List CheckedPair}

/-! ### Counting by register file -/

def fileCount (file : RegFile) (pairs : List SavePair) : Nat :=
  pairs.countP fun p => p.source.class?.map RegClass.file = some file

theorem fileCount_cons {p : SavePair} {c : CheckedPair} (first : p.check isa = .ok c) (file : RegFile) :
    fileCount file (p :: pairs) = fileCount file pairs + if c.file = file then 1 else 0 := by
  obtain ⟨rfl, sound⟩ := SavePair.check_ok first
  rw [fileCount, List.countP_cons, Isa.slotFile?_file sound.source]
  simp [fileCount, SavePair.ofRegisters, Location.class?, Location.register?]

/-- The sum of a weight of files over the registers that are saved. -/
def weighed (weight : RegFile → Nat) : List CheckedPair → Nat
  | [] => 0
  | c :: checked => weight c.file + weighed weight checked

theorem ChecksTo.weighed_eq (checks : ChecksTo isa pairs checked) (weight : RegFile → Nat) :
    weighed weight checked =
      weight .general * fileCount .general pairs + weight .vector * fileCount .vector pairs := by
  induction pairs generalizing checked with
  | nil =>
    rw [checks.of_nil]
    simp [weighed, fileCount]
  | cons p pairs ih =>
    obtain ⟨c, rest, rfl, first, others⟩ := checks.of_cons
    rw [weighed, ih others, fileCount_cons first, fileCount_cons first]
    cases c.file with
    | general | vector =>
      simp only [reduceCtorEq, if_true, if_false, Nat.mul_add, Nat.mul_one, Nat.add_zero]
      omega

theorem slotTotal_eq_weighed (isa : Isa) (checked : List CheckedPair) :
    slotTotal isa checked = weighed (fun file => (isa.slotBytes file).toNat) checked := by
  induction checked with
  | nil => rfl
  | cons c checked ih => rw [slotTotal, weighed, ih]

def Isa.saveLength : Isa → RegFile → Nat
  | .x86_64, .vector => 2
  | _, _ => 1

theorem Isa.length_saveCode (isa : Isa) (r : Register) (file : RegFile) :
    (isa.saveCode r file).length = isa.saveLength file := by
  cases isa <;> cases file <;> rfl

theorem length_saveAll (isa : Isa) (checked : List CheckedPair) :
    (saveAll isa checked).length = weighed isa.saveLength checked := by
  induction checked with
  | nil => rfl
  | cons c checked ih => rw [saveAll_cons, List.length_append, Isa.length_saveCode, weighed, ih]

/-! ### Padding -/

theorem Isa.toNat_gap (isa : Isa) (pushed : UInt32) : (isa.gap pushed).toNat = (16 - pushed.toNat % 16) % 16 := by
  have alignment : isa.profile.stackAlignment = 16 := by cases isa <;> rfl
  have excess : (pushed % 16).toNat = pushed.toNat % 16 := UInt32.toNat_mod pushed 16
  unfold gap
  rw [alignment]
  by_cases none : pushed % 16 = 0
  · have even : pushed.toNat % 16 = 0 := by rw [← excess, none]; rfl
    simp [none, even]
  · have odd : pushed.toNat % 16 ≠ 0 := by
      intro even
      exact none (UInt32.toNat.inj (excess.trans even))
    have below : pushed % 16 ≤ 16 := by
      rw [UInt32.le_iff_toNat_le, excess]
      exact Nat.le_of_lt (Nat.mod_lt _ (by decide))
    simp only [none, if_false]
    rw [UInt32.toNat_sub_of_le _ _ below, excess]
    change 16 - pushed.toNat % 16 = _
    omega

theorem frameBytes_eq (fits : slotTotal isa checked < UInt32.size) :
    frameBytes isa checked = slotTotal isa checked + (16 - slotTotal isa checked % 16) % 16 := by
  have count : (UInt32.ofNat (slotTotal isa checked)).toNat = slotTotal isa checked := UInt32.toNat_ofNat_of_lt fits
  rw [frameBytes, Isa.toNat_gap, count]

theorem frameBytes_aligned (fits : slotTotal isa checked < UInt32.size) :
    16 ∣ frameBytes isa checked ∧ frameBytes isa checked < slotTotal isa checked + 16 := by
  rw [frameBytes_eq fits]
  omega

/-- The slots of the list end at least one alignment below the end of the counter, which leaves room for the padding. -/
theorem ChecksTo.frameBytes_lt (checks : ChecksTo isa pairs checked) (few : pairs.length < 0x10000000) :
    frameBytes isa checked < UInt32.size := by
  have total := slotTotal_le isa checked
  rw [checks.length_eq] at total
  rw [frameBytes_eq (checks.slotTotal_lt few)]
  simp only [UInt32.size]
  omega

/-! ### Frames of each instruction set -/

namespace Frame

theorem padding_saved (fits : slotTotal isa checked < UInt32.size) {bytes : UInt32}
    (gap : (16 - slotTotal isa checked % 16) % 16 = bytes.toNat) : (saved isa pairs checked).padding = bytes := by
  have count : (UInt32.ofNat (slotTotal isa checked)).toNat = slotTotal isa checked := UInt32.toNat_ofNat_of_lt fits
  apply UInt32.toNat.inj
  rw [← gap, ← count]
  exact isa.toNat_gap _

theorem enterCode_eq (checks : ChecksTo isa pairs checked) :
    enterCode isa checked = pairs.flatMap (·.saveCode isa) ++ padAll isa (saved isa pairs checked).padding := by
  rw [enterCode, checks.saveAll_eq]
  rfl

/-- Eight bytes for each general register and sixteen for each vector register; an odd general register is padded by a
push. -/
theorem saved_x86 (checks : ChecksTo .x86_64 pairs checked) (fits : slotTotal .x86_64 checked < UInt32.size) :
    let general := fileCount .general pairs
    let vector := fileCount .vector pairs
    (saved .x86_64 pairs checked).pushed.toNat = 8 * general + 16 * vector ∧
      (saved .x86_64 pairs checked).padding = (if general % 2 = 1 then 8 else 0) ∧
      enterCode .x86_64 checked =
        pairs.flatMap (·.saveCode .x86_64) ++ (if general % 2 = 1 then [.push X86.rax] else []) ∧
      (enterCode .x86_64 checked).length = general + 2 * vector + general % 2 := by
  intro general vector
  have total : slotTotal .x86_64 checked = 8 * general + 16 * vector :=
    (slotTotal_eq_weighed _ _).trans (checks.weighed_eq _)
  have saves : (saveAll .x86_64 checked).length = 1 * general + 2 * vector :=
    (length_saveAll _ _).trans (checks.weighed_eq _)
  have padding : (saved .x86_64 pairs checked).padding = if general % 2 = 1 then 8 else 0 := by
    apply padding_saved fits
    rw [total]
    split
    · change _ = 8
      omega
    · change _ = 0
      omega
  have code := enterCode_eq checks
  rw [padding] at code
  refine ⟨(pushed_saved pairs fits).trans total, padding, ?_, ?_⟩
  · rw [code]
    split <;> rfl
  · rw [code, ← checks.saveAll_eq, List.length_append, saves]
    split
    · change _ + 1 = _
      omega
    · change _ + 0 = _
      omega

/-- Sixteen bytes for every register, so nothing is left to pad. -/
theorem saved_a64 (checks : ChecksTo .aarch64 pairs checked) (fits : slotTotal .aarch64 checked < UInt32.size) :
    let general := fileCount .general pairs
    let vector := fileCount .vector pairs
    (saved .aarch64 pairs checked).pushed.toNat = 16 * (general + vector) ∧
      (saved .aarch64 pairs checked).padding = 0 ∧
      enterCode .aarch64 checked = pairs.flatMap (·.saveCode .aarch64) ∧
      (enterCode .aarch64 checked).length = general + vector := by
  intro general vector
  have total : slotTotal .aarch64 checked = 16 * general + 16 * vector :=
    (slotTotal_eq_weighed _ _).trans (checks.weighed_eq _)
  have saves : (saveAll .aarch64 checked).length = 1 * general + 1 * vector :=
    (length_saveAll _ _).trans (checks.weighed_eq _)
  have padding : (saved .aarch64 pairs checked).padding = 0 := by
    apply padding_saved fits
    change _ = 0
    omega
  have code := enterCode_eq checks
  rw [padding] at code
  have bare : padAll .aarch64 0 = [] := rfl
  rw [bare, List.append_nil] at code
  refine ⟨?_, padding, code, ?_⟩
  · rw [pushed_saved pairs fits, total]
    omega
  · rw [code, ← checks.saveAll_eq, saves]
    omega

end Frame

/-! ### The stack pointer -/

/-- From every machine whose stack is aligned the code runs to its end, and the stack is aligned there. -/
def KeepsAlignment (isa : Isa) (code : List Instr) : Prop :=
  ∀ m : Machine, 16 ∣ (m.sp isa).toNat → ∃ m', Machine.run isa code m = .ok () m' ∧ 16 ∣ (m'.sp isa).toNat

theorem dvd_toNat_sub {a : Addr} {n : Nat} (aligned : 16 ∣ a.toNat) (multiple : 16 ∣ n) :
    16 ∣ (a - BitVec.ofNat 64 n).toNat := by
  rw [BitVec.toNat_sub, BitVec.toNat_ofNat]
  omega

theorem dvd_toNat_add {a : Addr} {n : Nat} (aligned : 16 ∣ a.toNat) (multiple : 16 ∣ n) :
    16 ∣ (a + BitVec.ofNat 64 n).toNat := by
  rw [BitVec.toNat_add, BitVec.toNat_ofNat]
  omega

namespace KeepsAlignment

theorem enterCode (sound : ∀ c ∈ checked, c.Sound isa) (fits : slotTotal isa checked < UInt32.size) :
    KeepsAlignment isa (Frame.enterCode isa checked) := by
  intro m aligned
  obtain ⟨multiple, small⟩ := frameBytes_aligned fits
  have room : frameBytes isa checked ≤ UInt64.size := by
    simp only [UInt32.size, UInt64.size] at *
    omega
  have narrow := List.forall_mem_append.mpr
    ⟨Machine.narrow_saveAll sound, Machine.narrow_padAll isa (isa.gap (UInt32.ofNat (slotTotal isa checked)))⟩
  refine ⟨_, m.run_of_narrow narrow, ?_⟩
  rw [(m.effects_enterCode sound room).1]
  exact dvd_toNat_sub aligned multiple

theorem leaveCode (sound : ∀ c ∈ checked, c.Sound isa) (fits : slotTotal isa checked < UInt32.size) :
    KeepsAlignment isa (Frame.leaveCode isa checked) := by
  intro m aligned
  obtain ⟨multiple, -⟩ := frameBytes_aligned fits
  refine ⟨_, m.run_of_narrow (Machine.narrow_leaveCode isa checked), ?_⟩
  have low : m.sp isa =
      m.sp isa + BitVec.ofNat 64 (frameBytes isa checked) - BitVec.ofNat 64 (frameBytes isa checked) :=
    (BitVec.add_sub_cancel _ _).symm
  rw [m.sp_effects_leaveCode sound low]
  exact dvd_toNat_add aligned multiple

end KeepsAlignment

theorem Frame.preserve_never_overflows (few : pairs.length < 0x10000000) (e : Emission Code)
    (t : Frame × Emission Code) : preserve isa ({ pairs }, e) ≠ .error .counterOverflow t := by
  intro failed
  by_cases savable : ∀ p ∈ pairs, p.Savable isa
  · obtain ⟨checked, checks⟩ := ChecksTo.exists_of_savable savable
    rw [preserve_checked checks (checks.slotTotal_lt few) e] at failed
    cases failed
  · obtain ⟨before, p, first⟩ := FirstUnsavable.of_unsavable savable
    rw [preserve_refused first few (Emit.emitAll_code _ e)] at failed
    cases failed

/-- The size of a preserved frame, the code that enters it and the stack pointer that this code leaves. Every addition
of bytes is checked, so operations that succeed have added without overflow. -/
theorem preserved_frame_is_aligned (isa : Isa) (pairs : List SavePair) (few : pairs.length < 0x10000000)
    (e : Emission Code) :
    let general := fileCount .general pairs
    let vector := fileCount .vector pairs
    (∀ t, Frame.preserve isa ({ pairs }, e) ≠ .error .counterOverflow t) ∧
      ∀ f e₁, Frame.preserve isa ({ pairs }, e) = .ok () (f, e₁) →
        ∃ bytes code,
          f.bytes = .ok bytes ∧
          bytes.toNat = f.pushed.toNat + f.padding.toNat ∧
          16 ∣ bytes.toNat ∧
          bytes.toNat < f.pushed.toNat + 16 ∧
          e₁.sink.toList = e.sink.toList ++ code ∧
          (match isa with
            | .x86_64 =>
              f.pushed.toNat = 8 * general + 16 * vector ∧
                f.padding = (if general % 2 = 1 then 8 else 0) ∧
                code = pairs.flatMap (·.saveCode .x86_64) ++ (if general % 2 = 1 then [.push X86.rax] else []) ∧
                code.length = general + 2 * vector + general % 2
            | .aarch64 =>
              f.pushed.toNat = 16 * (general + vector) ∧
                f.padding = 0 ∧
                code = pairs.flatMap (·.saveCode .aarch64) ∧
                code.length = general + vector) ∧
          KeepsAlignment isa code ∧
          ∀ (phase : Phase) (e₂ : Emission Code), Frame.Operation.restore.allowedIn phase = true →
            ∃ t exit, Frame.restore isa ({ f with phase }, e₂) = .ok () t ∧
              t.2.sink.toList = e₂.sink.toList ++ exit ∧ KeepsAlignment isa exit := by
  intro general vector
  refine ⟨Frame.preserve_never_overflows few e, ?_⟩
  intro f e₁ preserved
  obtain ⟨checked, checks, fits, rfl, added⟩ := Frame.saved_of_preserve preserved
  have small := checks.frameBytes_lt few
  have size : (UInt32.ofNat (frameBytes isa checked)).toNat = frameBytes isa checked := UInt32.toNat_ofNat_of_lt small
  have sized := Frame.bytes_saved pairs fits .preserved
  rw [if_pos small] at sized
  obtain ⟨multiple, near⟩ := frameBytes_aligned fits
  refine ⟨_, Frame.enterCode isa checked, sized, ?_, ?_, ?_, added, ?_, .enterCode checks.sound fits, ?_⟩
  · rw [size, Frame.pushed_saved pairs fits]
    rfl
  · rw [size]
    exact multiple
  · rw [size, Frame.pushed_saved pairs fits]
    exact near
  · cases isa with
    | x86_64 => exact Frame.saved_x86 checks fits
    | aarch64 => exact Frame.saved_a64 checks fits
  · intro phase e₂ turn
    exact ⟨_, Frame.leaveCode isa checked, Frame.restore_saved checks fits turn e₂, Code.toList_append _ _,
      .leaveCode checks.sound fits⟩

/-- Three general registers and a vector register: forty bytes of slots and one more push. -/
theorem preserved_frame_is_aligned_by_push :
    let pairs : List SavePair := [.ofRegisters X86.rbx X86.rcx, .ofRegisters (X86.xmm 0) (X86.xmm 1),
      .ofRegisters X86.rdx X86.rcx, .ofRegisters X86.rsi X86.rsi]
    pairs.length < 0x10000000 ∧
      ∃ f e₁ bytes, Frame.preserve .x86_64 ({ pairs }, ({ sink := {} } : Emission Code)) = .ok () (f, e₁) ∧
        f.bytes = .ok bytes ∧ f.pushed.toNat = 40 ∧ f.padding = 8 ∧ bytes.toNat = 48 ∧ 16 ∣ bytes.toNat ∧
        e₁.sink.toList = [.push X86.rbx, .subImm X86.rsp X86.rsp 16, .store (X86.xmm 0) (.ofBase X86.rsp),
          .push X86.rdx, .push X86.rsi, .push X86.rax] ∧
        KeepsAlignment .x86_64 e₁.sink.toList := by
  intro pairs
  have few : pairs.length < 0x10000000 := by decide
  have checks : ChecksTo .x86_64 pairs [⟨X86.rbx, X86.rcx, .general⟩, ⟨X86.xmm 0, X86.xmm 1, .vector⟩,
      ⟨X86.rdx, X86.rcx, .general⟩, ⟨X86.rsi, X86.rsi, .general⟩] := rfl
  have preserved := Frame.preserve_checked checks (by decide) { sink := {} }
  obtain ⟨-, sizes⟩ := preserved_frame_is_aligned .x86_64 pairs few { sink := {} }
  obtain ⟨bytes, code, sized, sum, multiple, -, added, ⟨pushed, padding, emitted, -⟩, aligned, -⟩ := sizes _ _ preserved
  have general : fileCount .general pairs = 3 := by decide
  have vector : fileCount .vector pairs = 1 := by decide
  rw [general, vector] at pushed
  rw [general, if_pos rfl] at padding emitted
  rw [padding, pushed] at sum
  have whole := added.trans (List.nil_append code)
  refine ⟨few, _, _, bytes, preserved, sized, pushed, padding, sum, multiple, whole.trans emitted, ?_⟩
  rw [whole]
  exact aligned

end CallFrame
