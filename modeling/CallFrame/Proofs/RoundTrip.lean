import CallFrame.Proofs.Lifecycle
import CallFrame.Proofs.SavedArea

/-! Entering a frame fills the saved area, and leaving it brings the values back. -/
namespace CallFrame

variable {σ : Type} {isa : Isa} {pairs : List SavePair} {checked : List CheckedPair}

/-! ### Frames right after they were preserved -/

def Frame.saved (isa : Isa) (pairs : List SavePair) (checked : List CheckedPair) : Frame :=
  { pairs
    phase := .preserved
    pushed := UInt32.ofNat (slotTotal isa checked)
    padding := isa.gap (UInt32.ofNat (slotTotal isa checked)) }

namespace Frame

theorem pushed_saved (pairs : List SavePair) (fits : slotTotal isa checked < UInt32.size) :
    (saved isa pairs checked).pushed.toNat = slotTotal isa checked :=
  UInt32.toNat_ofNat_of_lt fits

def enterCode (isa : Isa) (checked : List CheckedPair) : List Instr :=
  saveAll isa checked ++ padAll isa (isa.gap (UInt32.ofNat (slotTotal isa checked)))

def leaveCode (isa : Isa) (checked : List CheckedPair) : List Instr :=
  unpadAll isa (isa.gap (UInt32.ofNat (slotTotal isa checked))) ++ reloadAll isa checked

theorem preserve_emitted [Sink σ] {e e' e'' : Emission σ} (checks : ChecksTo isa pairs checked)
    (fits : slotTotal isa checked < UInt32.size) (emitted : Emit.emitAll (saveAll isa checked) e = .ok () e')
    (padding : ∀ f, pad isa (isa.gap (UInt32.ofNat (slotTotal isa checked))) (f, e') =
      .ok () (f.padded (isa.gap (UInt32.ofNat (slotTotal isa checked))), e'')) :
    preserve isa ({ pairs }, e) = .ok () (saved isa pairs checked, e''.noted
      (.preserved isa pairs.length (saved isa pairs checked).pushed (saved isa pairs checked).padding)) := by
  have run := saves_emitted (f := { pairs }) checks (by simpa using fits) emitted
  have pushed : (({ pairs } : Frame).grown (slotTotal isa checked)).pushed = UInt32.ofNat (slotTotal isa checked) :=
    UInt32.zero_add _
  rw [← pushed] at padding
  rw [preserve_of_padded rfl run (padding _), padded_eq rfl, pushed]
  simp only [grown, UInt32.zero_add]
  rfl

theorem preserve_checked (checks : ChecksTo isa pairs checked) (fits : slotTotal isa checked < UInt32.size)
    (e : Emission Code) :
    preserve isa ({ pairs }, e) = .ok () (saved isa pairs checked, (e.recorded (enterCode isa checked)).noted
      (.preserved isa pairs.length (saved isa pairs checked).pushed (saved isa pairs checked).padding)) := by
  rw [enterCode, ← Emission.recorded_recorded]
  exact preserve_emitted checks fits (Emit.emitAll_code _ e) fun f => pad_code _ f _

def entryCode (isa : Isa) (checked : List CheckedPair) (remap : Bool) : List Instr :=
  enterCode isa checked ++ if remap then moveAll checked else []

theorem enter_saved (checks : ChecksTo isa pairs checked) (fits : slotTotal isa checked < UInt32.size)
    (remap : Bool) (e : Emission Code) :
    ∃ e₁ phase journal, preserve isa ({ pairs }, e) = .ok () (saved isa pairs checked, e₁) ∧
      (if remap then Frame.remap isa else pure ()) (saved isa pairs checked, e₁) =
        .ok () ({ saved isa pairs checked with phase }, ⟨e.sink.append (entryCode isa checked remap), journal⟩) ∧
      Operation.restore.allowedIn phase = true := by
  obtain ⟨e₁, preserved, sink⟩ : ∃ e₁, preserve isa ({ pairs }, e) = .ok () (saved isa pairs checked, e₁) ∧
      e₁.sink = e.sink.append (enterCode isa checked) := ⟨_, preserve_checked checks fits e, rfl⟩
  cases remap with
  | true =>
    have run := remap_checked (f := saved isa pairs checked) rfl checks e₁
    refine ⟨e₁, .remapped, (e₁.noted (.remapped isa (pairs.filter (!·.isIdentity)).length)).journal, preserved, ?_, rfl⟩
    rw [entryCode, if_pos rfl, if_pos rfl, ← Code.append_append, ← sink]
    exact run
  | false =>
    refine ⟨e₁, .preserved, e₁.journal, preserved, ?_, rfl⟩
    rw [entryCode, if_neg Bool.false_ne_true, if_neg Bool.false_ne_true, List.append_nil, ← sink]
    rfl

theorem restore_saved (checks : ChecksTo isa pairs checked) (fits : slotTotal isa checked < UInt32.size)
    {phase : Phase} (turn : Operation.restore.allowedIn phase = true) (e : Emission Code) :
    restore isa ({ saved isa pairs checked with phase }, e) =
      .ok () ({ saved isa pairs checked with phase := .restored }, (e.recorded (leaveCode isa checked)).noted
        (.restored isa (saved isa pairs checked).pushed (saved isa pairs checked).padding)) :=
  restore_checked (f := { saved isa pairs checked with phase }) turn checks (pushed_saved pairs fits) e

theorem checks_of_preserve {e : Emission Code} {t : Frame × Emission Code}
    (preserved : preserve isa ({ pairs }, e) = .ok () t) :
    ∃ checked, ChecksTo isa pairs checked ∧ slotTotal isa checked < UInt32.size := by
  rcases saves_cases isa pairs { pairs } e with
    ⟨checked, checks, fits, -⟩ | ⟨_, _, _, _, v, _, _, _, _, failed⟩ | ⟨_, _, overflow⟩
  · exact ⟨checked, checks, by simpa using fits⟩
  · rw [preserve_of_fault rfl failed] at preserved
    cases preserved
  · rw [preserve_of_fault rfl overflow] at preserved
    cases preserved

/-- A preserve that went through leaves the saved frame and has added the code that enters it. -/
theorem saved_of_preserve {e e₁ : Emission Code} {f : Frame}
    (preserved : preserve isa ({ pairs }, e) = .ok () (f, e₁)) :
    ∃ checked, ChecksTo isa pairs checked ∧ slotTotal isa checked < UInt32.size ∧ f = saved isa pairs checked ∧
      e₁.sink.toList = e.sink.toList ++ enterCode isa checked := by
  obtain ⟨checked, checks, fits⟩ := checks_of_preserve preserved
  rw [preserve_checked checks fits e] at preserved
  cases preserved
  exact ⟨checked, checks, fits, rfl, Code.toList_append _ _⟩

end Frame

/-! ### On the machine -/

def frameBytes (isa : Isa) (checked : List CheckedPair) : Nat :=
  slotTotal isa checked + (isa.gap (UInt32.ofNat (slotTotal isa checked))).toNat

theorem Frame.bytes_saved (pairs : List SavePair) (fits : slotTotal isa checked < UInt32.size) (phase : Phase) :
    ({ saved isa pairs checked with phase } : Frame).bytes =
      if frameBytes isa checked < UInt32.size then .ok (UInt32.ofNat (frameBytes isa checked))
      else .error .counterOverflow := by
  unfold Frame.bytes addBytes
  simp only [pushed_saved pairs fits, frameBytes, UInt32.ofNat_add, UInt32.ofNat_toNat]
  rfl

theorem Frame.size_of_bytes {bytes : UInt32} (fits : slotTotal isa checked < UInt32.size)
    (sized : (saved isa pairs checked).bytes = .ok bytes) :
    frameBytes isa checked < UInt32.size ∧ bytes.toNat = frameBytes isa checked := by
  have computed := (bytes_saved pairs fits .preserved).symm.trans sized
  split at computed
  · rename_i small
    cases computed
    exact ⟨small, UInt32.toNat_ofNat_of_lt small⟩
  · cases computed

namespace Machine

open CallFrame.Frame

theorem sp_effects_padAll (m : Machine) (bytes : UInt32) :
    (m.effects isa (padAll isa bytes)).sp isa = m.sp isa - BitVec.ofNat 64 bytes.toNat := by
  unfold padAll
  split
  · rename_i none
    simp [none]
  · exact sp_effects_padCode m bytes

theorem memory_effects_padAll (isa : Isa) (m : Machine) (bytes : UInt32) :
    Memory.SameButBelow (m.sp isa) bytes.toNat m.memory (m.effects isa (padAll isa bytes)).memory := by
  unfold padAll
  split
  · exact Memory.SameButBelow.refl _ _ _
  · exact memory_effects_padCode m bytes

theorem effects_unpadAll (isa : Isa) (m : Machine) (bytes : UInt32) :
    (m.effects isa (unpadAll isa bytes)).sp isa = m.sp isa + BitVec.ofNat 64 bytes.toNat ∧
      (m.effects isa (unpadAll isa bytes)).memory = m.memory := by
  unfold unpadAll
  split
  · rename_i none
    simp [none]
  · exact ⟨sp_set64 isa m _, rfl⟩

theorem effects_enterCode (m : Machine) (sound : ∀ c ∈ checked, c.Sound isa)
    (room : frameBytes isa checked ≤ UInt64.size) :
    let m₁ := m.effects isa (enterCode isa checked)
    m₁.sp isa = m.sp isa - BitVec.ofNat 64 (frameBytes isa checked) ∧
      Memory.SameButBelow (m.sp isa) (frameBytes isa checked) m.memory m₁.memory ∧
      SlotsHold isa m₁.memory m.get (m.sp isa) checked := by
  unfold frameBytes at room ⊢
  have saves := memory_effects_saveAll m sound (by omega)
  have hold := slotsHold_saveAll m sound (by omega)
  have low := sp_effects_saveAll m sound
  have pads := memory_effects_padAll isa (m.effects isa (saveAll isa checked))
    (isa.gap (UInt32.ofNat (slotTotal isa checked)))
  rw [low] at pads
  simp only [enterCode, effects_append]
  refine ⟨?_, (saves.mono (by omega) room).trans (pads.lower room), ?_⟩
  · rw [sp_effects_padAll, low, sub_ofNat_ofNat]
  · -- The padding lies below all slots.
    exact hold.congr_memory sound (by omega) fun a inside => pads.above room inside

theorem effects_entryCode (m : Machine) (sound : ∀ c ∈ checked, c.Sound isa)
    (room : frameBytes isa checked ≤ UInt64.size) (remap : Bool) :
    let m₁ := m.effects isa (entryCode isa checked remap)
    m₁.sp isa = m.sp isa - BitVec.ofNat 64 (frameBytes isa checked) ∧
      Memory.SameButBelow (m.sp isa) (frameBytes isa checked) m.memory m₁.memory ∧
      SlotsHold isa m₁.memory m.get (m.sp isa) checked := by
  have entered := effects_enterCode m sound room
  cases remap with
  | false => simpa [entryCode] using entered
  | true =>
    -- The copies change neither memory nor the stack pointer.
    obtain ⟨memory, sp⟩ := effects_quiet (m.effects isa (enterCode isa checked)) (quiet_moveAll sound)
    simp only [entryCode, if_true, effects_append]
    rw [memory, sp]
    exact entered

theorem sp_effects_dropped {top : Addr} (m : Machine)
    (low : m.sp isa = top - BitVec.ofNat 64 (frameBytes isa checked)) :
    (m.effects isa (unpadAll isa (isa.gap (UInt32.ofNat (slotTotal isa checked))))).sp isa =
      top - BitVec.ofNat 64 (slotTotal isa checked) := by
  rw [(effects_unpadAll isa m _).1, low, frameBytes, ← sub_ofNat_ofNat, BitVec.sub_add_cancel]

theorem sp_effects_leaveCode {top : Addr} (m : Machine) (sound : ∀ c ∈ checked, c.Sound isa)
    (low : m.sp isa = top - BitVec.ofNat 64 (frameBytes isa checked)) :
    (m.effects isa (leaveCode isa checked)).sp isa = top := by
  rw [leaveCode, effects_append]
  exact sp_effects_reloadAll _ sound (sp_effects_dropped m low)

theorem effects_leaveCode {top : Addr} {value : Register → Value} (m : Machine) (sound : ∀ c ∈ checked, c.Sound isa)
    (low : m.sp isa = top - BitVec.ofNat 64 (frameBytes isa checked))
    (hold : SlotsHold isa m.memory value top checked)
    (proper : ∀ c ∈ checked, lowBits c.source.cls.bits.toNat (value c.source) = value c.source) :
    let m₃ := m.effects isa (leaveCode isa checked)
    m₃.sp isa = top ∧ m₃.memory = m.memory ∧
      ∀ before c after, checked = before ++ c :: after →
        (∀ d ∈ before, d.destination.cell ≠ c.destination.cell) → m₃.get c.destination = value c.source := by
  have dropped := sp_effects_dropped m low
  have back := sp_effects_leaveCode m sound low
  obtain ⟨-, memory⟩ := effects_unpadAll isa m (isa.gap (UInt32.ofNat (slotTotal isa checked)))
  simp only [leaveCode, effects_append] at back ⊢
  refine ⟨back, ?_, ?_⟩
  · rw [memory_effects_reloadAll _ sound, memory]
  · intro before c after place first
    exact get_effects_reloadAll _ sound dropped (memory ▸ hold) proper place first

theorem narrow_padAll (isa : Isa) (bytes : UInt32) : ∀ i ∈ padAll isa bytes, i.writtenBytes ≤ 16 := by
  unfold padAll
  split
  · simp
  · exact isa.narrow_padCode bytes

theorem narrow_unpadAll (isa : Isa) (bytes : UInt32) : ∀ i ∈ unpadAll isa bytes, i.writtenBytes ≤ 16 := by
  unfold unpadAll
  split
  · simp
  · simp [Isa.unpadCode, Instr.writtenBytes]

theorem narrow_entryCode (sound : ∀ c ∈ checked, c.Sound isa) (remap : Bool) :
    ∀ i ∈ entryCode isa checked remap, i.writtenBytes ≤ 16 := by
  refine List.forall_mem_append.mpr ⟨List.forall_mem_append.mpr ⟨narrow_saveAll sound, narrow_padAll isa _⟩, ?_⟩
  intro i copy
  cases remap with
  | false => cases copy
  | true =>
    obtain ⟨silent, -⟩ := quiet_moveAll sound i copy
    omega

theorem narrow_leaveCode (isa : Isa) (checked : List CheckedPair) :
    ∀ i ∈ leaveCode isa checked, i.writtenBytes ≤ 16 :=
  List.forall_mem_append.mpr ⟨narrow_unpadAll isa _, narrow_reloadAll isa checked⟩

end Machine

/-! ### The round trip -/

/-- The pair from `source` into `destination` is the first of the list whose destination is a view of its cell. -/
def FirstInto (pairs : List SavePair) (source destination : Register) : Prop :=
  ∃ before after, pairs = before ++ .ofRegisters source destination :: after ∧
    ∀ p ∈ before, ∀ r, p.destination = .register r → r.cell ≠ destination.cell

theorem FirstInto.place {source destination : Register} (first : FirstInto pairs source destination)
    (checks : ChecksTo isa pairs checked) :
    ∃ before c after, checked = before ++ c :: after ∧ c.source = source ∧ c.destination = destination ∧
      ∀ d ∈ before, d.destination.cell ≠ c.destination.cell := by
  obtain ⟨before, after, rfl, others⟩ := first
  obtain ⟨front, c, back, rfl, ahead, -, rfl, rfl⟩ := checks.split
  refine ⟨front, c, back, rfl, rfl, rfl, ?_⟩
  intro d member
  exact others _ (ahead.mem_pairs member) d.destination rfl

/-- Leaving a frame undoes entering it, as long as the stack pointer and the saved area were kept. -/
theorem Machine.effects_bracket {m m₂ : Machine} (checks : ChecksTo isa pairs checked)
    (room : frameBytes isa checked ≤ UInt64.size) (remap : Bool)
    (sp : m₂.sp isa = (m.effects isa (Frame.entryCode isa checked remap)).sp isa)
    (kept : ∀ a, InSpan (m.sp isa - BitVec.ofNat 64 (slotTotal isa checked)) (slotTotal isa checked) a →
      m₂.memory a = (m.effects isa (Frame.entryCode isa checked remap)).memory a) :
    let m₃ := m₂.effects isa (Frame.leaveCode isa checked)
    m₃.sp isa = m.sp isa ∧ m₃.memory = m₂.memory ∧
      ∀ source destination, FirstInto pairs source destination → m₃.get destination = m.get source := by
  obtain ⟨low, -, hold⟩ := effects_entryCode m checks.sound room remap
  have total : slotTotal isa checked ≤ UInt64.size := Nat.le_trans (Nat.le_add_right _ _) room
  obtain ⟨back, memory, values⟩ := effects_leaveCode m₂ checks.sound (sp.trans low)
    (hold.congr_memory checks.sound total kept) fun c _ => lowBits_get m c.source
  refine ⟨back, memory, ?_⟩
  intro source destination first
  obtain ⟨before, c, after, place, rfl, rfl, others⟩ := first.place checks
  exact values before c after place others

/-- Preserving, remapping or not, and restoring: in between, the registers and everything outside the saved area may
change as they like. -/
theorem restore_undoes_preserve (isa : Isa) {pairs : List SavePair} {e e₁ : Emission Code} {f : Frame}
    {bytes : UInt32} (preserved : Frame.preserve isa ({ pairs }, e) = .ok () (f, e₁))
    (sized : f.bytes = .ok bytes) (remap : Bool) (m : Machine) :
    ∃ f₂ e₂ entry m₁,
      (if remap then Frame.remap isa else pure ()) (f, e₁) = .ok () (f₂, e₂) ∧
      e₂.sink.toList = e.sink.toList ++ entry ∧
      Machine.run isa entry m = .ok () m₁ ∧
      m₁.sp isa = m.sp isa - BitVec.ofNat 64 bytes.toNat ∧
      ∀ (m₂ : Machine) (e' : Emission Code),
        m₂.sp isa = m₁.sp isa →
        (∀ a, InSpan (m₁.sp isa + BitVec.ofNat 64 f.padding.toNat) f.pushed.toNat a →
          m₂.memory a = m₁.memory a) →
        ∃ f₃ e₃ exit m₃,
          Frame.restore isa (f₂, e') = .ok () (f₃, e₃) ∧
          e₃.sink.toList = e'.sink.toList ++ exit ∧
          Machine.run isa exit m₂ = .ok () m₃ ∧
          m₃.sp isa = m.sp isa ∧
          ∀ source destination, FirstInto pairs source destination → m₃.get destination = m.get source := by
  obtain ⟨checked, checks, fits⟩ := Frame.checks_of_preserve preserved
  obtain ⟨e₂, phase, journal, run, remapped, turn⟩ := Frame.enter_saved checks fits remap e
  rw [run] at preserved
  simp only [EStateM.Result.ok.injEq, Prod.mk.injEq, true_and] at preserved
  obtain ⟨rfl, rfl⟩ := preserved
  have small : frameBytes isa checked < UInt32.size ∧ bytes = UInt32.ofNat (frameBytes isa checked) := by
    have computed := (Frame.bytes_saved pairs fits .preserved).symm.trans sized
    split at computed
    · exact ⟨‹_›, (Except.ok.inj computed).symm⟩
    · cases computed
  obtain ⟨small, rfl⟩ := small
  have size : (UInt32.ofNat (frameBytes isa checked)).toNat = frameBytes isa checked := UInt32.toNat_ofNat_of_lt small
  have room : frameBytes isa checked ≤ UInt64.size := Nat.le_trans (Nat.le_of_lt small) (by decide)
  have low := (Machine.effects_entryCode m checks.sound room remap).1
  refine ⟨_, _, Frame.entryCode isa checked remap, _, remapped, ?_,
    Machine.run_of_narrow m (Machine.narrow_entryCode checks.sound remap), ?_, ?_⟩
  · simp
  · rw [low, size]
  intro m₂ e' sp kept
  -- Above the padding begins the area that the slots fill up to the old stack pointer.
  have area : m.sp isa - BitVec.ofNat 64 (frameBytes isa checked) +
      BitVec.ofNat 64 (Frame.saved isa pairs checked).padding.toNat =
        m.sp isa - BitVec.ofNat 64 (slotTotal isa checked) := by
    rw [frameBytes, ← sub_ofNat_ofNat]
    exact BitVec.sub_add_cancel _ _
  rw [low, area, Frame.pushed_saved pairs fits] at kept
  obtain ⟨back, -, values⟩ := Machine.effects_bracket checks room remap sp kept
  refine ⟨_, _, Frame.leaveCode isa checked, _, Frame.restore_saved checks fits turn e', ?_,
    Machine.run_of_narrow m₂ (Machine.narrow_leaveCode isa checked), back, values⟩
  simp

/-- A padded frame in which two pairs share a destination: the first of them wins. -/
theorem rcx_receives_rbx :
    let pairs : List SavePair := [.ofRegisters X86.rbx X86.rcx, .ofRegisters (X86.xmm 0) (X86.xmm 1),
      .ofRegisters X86.rdx X86.rcx, .ofRegisters X86.rsi X86.rsi]
    let m := (Machine.new .x86_64).set X86.rbx 7
    ∃ f e₁, Frame.preserve .x86_64 ({ pairs }, ({ sink := {} } : Emission Code)) = .ok () (f, e₁) ∧
      f.bytes = .ok 48 ∧
      ∃ entry exit m₁ m₃, Machine.run .x86_64 entry m = .ok () m₁ ∧ m₁.sp .x86_64 = m.sp .x86_64 - 48 ∧
        Machine.run .x86_64 exit m₁ = .ok () m₃ ∧ m₃.sp .x86_64 = m.sp .x86_64 ∧ m₃.get X86.rcx = 7 := by
  intro pairs m
  have checks : ChecksTo .x86_64 pairs [⟨X86.rbx, X86.rcx, .general⟩, ⟨X86.xmm 0, X86.xmm 1, .vector⟩,
      ⟨X86.rdx, X86.rcx, .general⟩, ⟨X86.rsi, X86.rsi, .general⟩] := rfl
  have preserved := Frame.preserve_checked checks (by decide) { sink := {} }
  have sized : (Frame.saved .x86_64 pairs [⟨X86.rbx, X86.rcx, .general⟩, ⟨X86.xmm 0, X86.xmm 1, .vector⟩,
      ⟨X86.rdx, X86.rcx, .general⟩, ⟨X86.rsi, X86.rsi, .general⟩]).bytes = .ok 48 := rfl
  refine ⟨_, _, preserved, sized, ?_⟩
  obtain ⟨_, e₂, entry, m₁, -, -, entered, low, back⟩ := restore_undoes_preserve .x86_64 preserved sized true m
  obtain ⟨_, _, exit, m₃, -, -, left, high, values⟩ := back m₁ e₂ rfl fun _ _ => rfl
  refine ⟨entry, exit, m₁, m₃, entered, low, left, high, ?_⟩
  exact values X86.rbx X86.rcx ⟨[], _, rfl, by simp⟩

end CallFrame
