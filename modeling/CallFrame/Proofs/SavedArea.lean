import CallFrame.Proofs.SavePairs

/-! The slots below the old stack pointer, filled from the top and emptied from the bottom. -/
namespace CallFrame

variable {isa : Isa} {checked : List CheckedPair}

/-- Going down from `top`, each slot holds the value of its pair's source. -/
def SlotsHold (isa : Isa) (memory : Memory) (value : Register → Value) : Addr → List CheckedPair → Prop
  | _, [] => True
  | top, c :: checked =>
    memory.load (top - BitVec.ofNat 64 (isa.slotBytes c.file).toNat) c.source.bytes.toNat = value c.source ∧
      SlotsHold isa memory value (top - BitVec.ofNat 64 (isa.slotBytes c.file).toNat) checked

theorem sub_ofNat_ofNat (top : Addr) (a b : Nat) :
    top - BitVec.ofNat 64 a - BitVec.ofNat 64 b = top - BitVec.ofNat 64 (a + b) := by
  rw [BitVec.ofNat_add]
  grind

namespace SlotsHold

variable {memory memory' : Memory} {value value' : Register → Value} {top : Addr}

theorem congr_value (hold : SlotsHold isa memory value top checked)
    (same : ∀ c ∈ checked, value' c.source = value c.source) : SlotsHold isa memory value' top checked := by
  induction checked generalizing top with
  | nil => trivial
  | cons c checked ih =>
    obtain ⟨first, rest⟩ := hold
    obtain ⟨same, others⟩ := List.forall_mem_cons.mp same
    exact ⟨by rw [first, same], ih rest others⟩

theorem congr_memory (hold : SlotsHold isa memory value top checked) (sound : ∀ c ∈ checked, c.Sound isa)
    (room : slotTotal isa checked ≤ UInt64.size)
    (same : ∀ a, InSpan (top - BitVec.ofNat 64 (slotTotal isa checked)) (slotTotal isa checked) a →
      memory' a = memory a) : SlotsHold isa memory' value top checked := by
  induction checked generalizing top with
  | nil => trivial
  | cons c checked ih =>
    obtain ⟨first, rest⟩ := hold
    obtain ⟨slot, others⟩ := List.forall_mem_cons.mp sound
    simp only [slotTotal] at room same
    have fits := Isa.bytes_le_slot slot.source
    refine ⟨?_, ih rest others (by omega) ?_⟩
    · rw [← first]
      apply Memory.load_congr
      intro a inside
      apply same
      have within : InSpan (top - BitVec.ofNat 64 (isa.slotBytes c.file).toNat) (isa.slotBytes c.file).toNat a :=
        Nat.lt_of_lt_of_le inside fits
      rw [inSpan_below (by omega)] at within ⊢
      omega
    · intro a inside
      apply same
      rw [inSpan_below (by omega), toNat_sub_lowered] at inside
      rw [inSpan_below (by omega)]
      have near := (a - top).isLt
      simp only [UInt64.size] at *
      omega

end SlotsHold

namespace Machine

theorem sp_effects_saveAll (m : Machine) (sound : ∀ c ∈ checked, c.Sound isa) :
    (m.effects isa (saveAll isa checked)).sp isa = m.sp isa - BitVec.ofNat 64 (slotTotal isa checked) := by
  induction checked generalizing m with
  | nil => simp [saveAll, slotTotal]
  | cons c checked ih =>
    obtain ⟨slot, others⟩ := List.forall_mem_cons.mp sound
    rw [saveAll_cons, effects_append, effects_saveCode m slot.source, ih _ others, sp_pushSlot, sub_ofNat_ofNat,
      slotTotal]

theorem memory_effects_saveAll (m : Machine) (sound : ∀ c ∈ checked, c.Sound isa)
    (room : slotTotal isa checked ≤ UInt64.size) :
    Memory.SameButBelow (m.sp isa) (slotTotal isa checked) m.memory (m.effects isa (saveAll isa checked)).memory := by
  induction checked generalizing m with
  | nil => exact Memory.SameButBelow.refl _ _ _
  | cons c checked ih =>
    obtain ⟨slot, others⟩ := List.forall_mem_cons.mp sound
    simp only [slotTotal] at room ⊢
    rw [saveAll_cons, effects_append, effects_saveCode m slot.source]
    have first : Memory.SameButBelow (m.sp isa) (isa.slotBytes c.file).toNat m.memory
        (m.pushSlot isa c.source (isa.slotBytes c.file)).memory :=
      Memory.SameButBelow.store m.memory (m.sp isa) (m.get c.source) (Isa.bytes_le_slot slot.source)
    have rest := ih (m.pushSlot isa c.source (isa.slotBytes c.file)) others (by omega)
    rw [sp_pushSlot] at rest
    exact (first.mono (by omega) room).trans (rest.lower room)

theorem lowBits_get (m : Machine) (r : Register) : lowBits r.cls.bits.toNat (m.get r) = m.get r := by
  rw [get, lowBits_lowBits, Nat.min_self]

theorem slotsHold_saveAll (m : Machine) (sound : ∀ c ∈ checked, c.Sound isa)
    (room : slotTotal isa checked ≤ UInt64.size) :
    SlotsHold isa (m.effects isa (saveAll isa checked)).memory m.get (m.sp isa) checked := by
  induction checked generalizing m with
  | nil => trivial
  | cons c checked ih =>
    obtain ⟨slot, others⟩ := List.forall_mem_cons.mp sound
    have fits := Isa.bytes_le_slot slot.source
    simp only [slotTotal] at room
    rw [saveAll_cons, effects_append, effects_saveCode m slot.source]
    have rest := ih (m.pushSlot isa c.source (isa.slotBytes c.file)) others (by omega)
    have below := memory_effects_saveAll (m.pushSlot isa c.source (isa.slotBytes c.file)) others (by omega)
    rw [sp_pushSlot] at rest below
    refine ⟨?_, rest.congr_value fun d member => ?_⟩
    · -- The later saves stay below the slot that was just filled.
      have kept : ∀ a, InSpan (m.sp isa - BitVec.ofNat 64 (isa.slotBytes c.file).toNat) c.source.bytes.toNat a →
          ((m.pushSlot isa c.source (isa.slotBytes c.file)).effects isa (saveAll isa checked)).memory a =
            (m.pushSlot isa c.source (isa.slotBytes c.file)).memory a :=
        fun a inside => below.above room (Nat.lt_of_lt_of_le inside fits)
      have narrow : c.source.bytes.toNat ≤ 16 := Nat.le_trans fits (Isa.slotBytes_le isa c.file)
      rw [Memory.load_congr kept, memory_pushSlot, Memory.load_store_same _ _ _ narrow,
        ← Isa.bits_eq_bytes slot.source, lowBits_get]
    · exact (get_congr (cells_pushSlot m _ _ (Isa.cell_ne_stackPointer (others d member).source))).symm

theorem quiet_moveAll (sound : ∀ c ∈ checked, c.Sound isa) : ∀ i ∈ moveAll checked, i.Quiet isa := by
  intro i member
  simp only [moveAll, List.mem_map, List.mem_filter] at member
  obtain ⟨c, ⟨present, -⟩, rfl⟩ := member
  have other := Isa.cell_ne_stackPointer (sound c present).destination
  exact ⟨rfl, by simpa [Instr.writtenCells] using Ne.symm other⟩

@[simp] theorem memory_effects_reloadAll (m : Machine) (sound : ∀ c ∈ checked, c.Sound isa) :
    (m.effects isa (reloadAll isa checked)).memory = m.memory := by
  induction checked with
  | nil => rfl
  | cons c checked ih =>
    obtain ⟨slot, others⟩ := List.forall_mem_cons.mp sound
    rw [reloadAll_cons, effects_append, effects_reloadCode _ slot.destination, memory_popSlot, ih others]

theorem sp_effects_reloadAll {top : Addr} (m : Machine) (sound : ∀ c ∈ checked, c.Sound isa)
    (low : m.sp isa = top - BitVec.ofNat 64 (slotTotal isa checked)) :
    (m.effects isa (reloadAll isa checked)).sp isa = top := by
  induction checked generalizing top with
  | nil => simpa [reloadAll, slotTotal] using low
  | cons c checked ih =>
    obtain ⟨slot, others⟩ := List.forall_mem_cons.mp sound
    -- All slots but the topmost are closed first.
    have rest := ih others (low.trans (sub_ofNat_ofNat top (isa.slotBytes c.file).toNat _).symm)
    rw [reloadAll_cons, effects_append, effects_reloadCode _ slot.destination, sp_popSlot, rest, BitVec.sub_add_cancel]

/-- A destination ends with the value of the first pair that names its cell: that pair is reloaded last. -/
theorem get_effects_reloadAll {top : Addr} {value : Register → Value} (m : Machine)
    (sound : ∀ c ∈ checked, c.Sound isa) (low : m.sp isa = top - BitVec.ofNat 64 (slotTotal isa checked))
    (hold : SlotsHold isa m.memory value top checked)
    (proper : ∀ c ∈ checked, lowBits c.source.cls.bits.toNat (value c.source) = value c.source)
    {before after : List CheckedPair} {c : CheckedPair} (place : checked = before ++ c :: after)
    (first : ∀ d ∈ before, d.destination.cell ≠ c.destination.cell) :
    (m.effects isa (reloadAll isa checked)).get c.destination = value c.source := by
  induction checked generalizing top before with
  | nil => simp at place
  | cons d checked ih =>
    obtain ⟨slot, others⟩ := List.forall_mem_cons.mp sound
    obtain ⟨intact, properOthers⟩ := List.forall_mem_cons.mp proper
    have low' := low.trans (sub_ofNat_ofNat top (isa.slotBytes d.file).toNat (slotTotal isa checked)).symm
    obtain ⟨held, rest⟩ := hold
    rw [reloadAll_cons, effects_append, effects_reloadCode _ slot.destination]
    cases before with
    | nil =>
      simp only [List.nil_append, List.cons.injEq] at place
      obtain ⟨rfl, -⟩ := place
      have bytes : d.destination.bytes = d.source.bytes := by rw [Register.bytes, Register.bytes, slot.cls]
      rw [get_popSlot _ _ (Isa.cell_ne_stackPointer slot.destination), sp_effects_reloadAll m others low', read,
        memory_effects_reloadAll m others, bytes, held, ← slot.cls, intact]
    | cons b before =>
      simp only [List.cons_append, List.cons.injEq] at place
      obtain ⟨rfl, place⟩ := place
      obtain ⟨apart, firstOthers⟩ := List.forall_mem_cons.mp first
      have present : c ∈ checked := by simp [place]
      have kept := cells_popSlot (m.effects isa (reloadAll isa checked)) (isa.slotBytes d.file)
        (Isa.cell_ne_stackPointer (others c present).destination) (Ne.symm apart)
      rw [get_congr kept]
      exact ih others low' rest properOthers place firstOthers

theorem narrow_saveAll (sound : ∀ c ∈ checked, c.Sound isa) : ∀ i ∈ saveAll isa checked, i.writtenBytes ≤ 16 := by
  intro i member
  obtain ⟨c, present, inside⟩ := List.mem_flatMap.mp member
  exact Isa.narrow_saveCode (sound c present).source i inside

theorem narrow_reloadAll (isa : Isa) (checked : List CheckedPair) :
    ∀ i ∈ reloadAll isa checked, i.writtenBytes ≤ 16 := by
  intro i member
  obtain ⟨c, -, inside⟩ := List.mem_flatMap.mp member
  exact Isa.narrow_reloadCode isa c.destination c.file i inside

end Machine
end CallFrame
