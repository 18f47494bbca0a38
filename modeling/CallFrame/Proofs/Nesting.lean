import CallFrame.Frame.Around
import CallFrame.Proofs.RoundTrip

namespace CallFrame

variable {σ : Type} {isa : Isa} {pairs : List SavePair} {checked : List CheckedPair} {α : Type}

/-! ### What `around` emits -/

/-- From every emission the computation succeeds with `a` and adds `code` to the recording. -/
def Emit.Appends (x : Emit Code α) (a : α) (code : List Instr) : Prop :=
  ∀ e, ∃ journal, x e = .ok a ⟨e.sink.append code, journal⟩

namespace Emit.Appends

variable {β : Type} {x : Emit Code α} {a : α} {first second : List Instr}

theorem bind {f : α → Emit Code β} {b : β} (head : Appends x a first) (tail : Appends (f a) b second) :
    Appends (x >>= f) b (first ++ second) := by
  intro e
  obtain ⟨journal, done⟩ := head e
  obtain ⟨last, finished⟩ := tail ⟨e.sink.append first, journal⟩
  refine ⟨last, ?_⟩
  rw [bind_ok done, finished, Code.append_append]

theorem pure (a : α) : Appends (Pure.pure a) a [] := by
  intro e
  refine ⟨e.journal, ?_⟩
  rw [Code.append_nil]
  rfl

theorem emit (i : Instr) : Appends (Emit.emit i) () [i] := by
  intro e
  refine ⟨e.journal, ?_⟩
  rw [Emit.emit_code, Code.append_cons, Code.append_nil]

end Emit.Appends

theorem around_ok [Sink σ] {remap : Bool} {body : UInt32 → Emit σ α} {bytes : UInt32} {a : α} {f f' f'' : Frame}
    {e e₁ e₂ e₃ e₄ : Emission σ} (preserved : Frame.preserve isa ({ pairs }, e.noted (.entered isa)) = .ok () (f, e₁))
    (remapped : (if remap then Frame.remap isa else pure ()) (f, e₁) = .ok () (f', e₂)) (sized : f'.bytes = .ok bytes)
    (done : body bytes e₂ = .ok a e₃) (restored : Frame.restore isa (f', e₃) = .ok () (f'', e₄)) :
    around isa pairs remap body e = .ok (bytes, a) e₄ := by
  unfold around
  rw [bind_ok (show Emit.note (.entered isa) e = .ok () (e.noted (.entered isa)) from rfl)]
  unfold FrameM.withFrame
  rw [bind_ok preserved]
  rw [optional_bind, bind_ok remapped]
  dsimp only
  rw [bind_ok (show FrameM.frame _ = .ok _ _ from rfl), bind_ok (FrameM.ofExcept_ok sized _),
    bind_ok (FrameM.onEmission_ok done _), bind_ok restored]
  rfl

theorem around_appends (checks : ChecksTo isa pairs checked) (small : frameBytes isa checked < UInt32.size)
    (remap : Bool) {body : UInt32 → Emit Code α} {a : α} {code : List Instr}
    (inner : ∀ bytes, (body bytes).Appends a code) :
    (around isa pairs remap body).Appends (UInt32.ofNat (frameBytes isa checked), a)
      (Frame.entryCode isa checked remap ++ code ++ Frame.leaveCode isa checked) := by
  intro e
  have fits : slotTotal isa checked < UInt32.size := Nat.lt_of_le_of_lt (Nat.le_add_right _ _) small
  obtain ⟨e₁, phase, journal, preserved, remapped, turn⟩ := Frame.enter_saved checks fits remap (e.noted (.entered isa))
  have sized := Frame.bytes_saved pairs fits phase
  rw [if_pos small] at sized
  obtain ⟨last, done⟩ := inner (UInt32.ofNat (frameBytes isa checked))
    ⟨(e.noted (.entered isa)).sink.append (Frame.entryCode isa checked remap), journal⟩
  rw [around_ok preserved remapped sized done (Frame.restore_saved checks fits turn _), ← Code.append_append,
    ← Code.append_append]
  exact ⟨_, rfl⟩

/-! ### Staying below the stack pointer -/

/-- The code comes back to the stack pointer it started from and changes only the `depth` bytes below it. -/
structure Contained (isa : Isa) (depth : Nat) (code : List Instr) : Prop where
  narrow : ∀ i ∈ code, i.writtenBytes ≤ 16
  sp : ∀ m : Machine, (m.effects isa code).sp isa = m.sp isa
  memory : ∀ m : Machine, Memory.SameButBelow (m.sp isa) depth m.memory (m.effects isa code).memory

/-- A frame around contained code: that code starts below the frame, so it reaches neither the saved area nor anything
above it. -/
theorem Machine.effects_around {depth : Nat} {code : List Instr} (checks : ChecksTo isa pairs checked)
    (inner : Contained isa depth code) (room : frameBytes isa checked + depth ≤ UInt64.size) (remap : Bool)
    (m : Machine) :
    let m' := m.effects isa (Frame.entryCode isa checked remap ++ code ++ Frame.leaveCode isa checked)
    m'.sp isa = m.sp isa ∧
      Memory.SameButBelow (m.sp isa) (frameBytes isa checked + depth) m.memory m'.memory ∧
      ∀ source destination, FirstInto pairs source destination → m'.get destination = m.get source := by
  have fits : frameBytes isa checked ≤ UInt64.size := by omega
  obtain ⟨low, entered, -⟩ := effects_entryCode m checks.sound fits remap
  have sp := inner.sp (m.effects isa (Frame.entryCode isa checked remap))
  have below := inner.memory (m.effects isa (Frame.entryCode isa checked remap))
  rw [low] at below
  simp only [effects_append]
  obtain ⟨back, memory, values⟩ := effects_bracket checks fits remap sp (by
    intro a saved
    apply below.above room
    rw [inSpan_below (by unfold frameBytes at fits; omega)] at saved
    rw [inSpan_below fits, frameBytes]
    omega)
  refine ⟨back, ?_, values⟩
  rw [memory]
  exact (entered.mono (Nat.le_add_right _ _) room).trans (below.lower room)

namespace Contained

variable {depth other : Nat} {first second code : List Instr}

theorem of_quiet (quiet : ∀ i ∈ code, i.Quiet isa) : Contained isa 0 code := by
  refine ⟨?_, fun m => (m.effects_quiet quiet).2, ?_⟩
  · intro i member
    have silent := (quiet i member).1
    omega
  · intro m a _
    rw [(m.effects_quiet quiet).1]

theorem mono (contained : Contained isa depth code) (le : depth ≤ other) (room : other ≤ UInt64.size) :
    Contained isa other code :=
  ⟨contained.narrow, contained.sp, fun m => (contained.memory m).mono le room⟩

theorem append (head : Contained isa depth first) (tail : Contained isa depth second) :
    Contained isa depth (first ++ second) := by
  refine ⟨List.forall_mem_append.mpr ⟨head.narrow, tail.narrow⟩, ?_, ?_⟩
  · intro m
    rw [Machine.effects_append, tail.sp, head.sp]
  · intro m
    have later := tail.memory (m.effects isa first)
    rw [head.sp] at later
    rw [Machine.effects_append]
    exact (head.memory m).trans later

theorem around (checks : ChecksTo isa pairs checked) (inner : Contained isa depth code)
    (room : frameBytes isa checked + depth ≤ UInt64.size) (remap : Bool) :
    Contained isa (frameBytes isa checked + depth)
      (Frame.entryCode isa checked remap ++ code ++ Frame.leaveCode isa checked) := by
  refine ⟨List.forall_mem_append.mpr ⟨List.forall_mem_append.mpr ⟨?_, inner.narrow⟩, ?_⟩, ?_, ?_⟩
  · exact Machine.narrow_entryCode checks.sound remap
  · exact Machine.narrow_leaveCode isa checked
  · exact fun m => (m.effects_around checks inner room remap).1
  · exact fun m => (m.effects_around checks inner room remap).2.1

end Contained

/-! ### Bodies -/

/-- A body of code: instructions, and frames around further bodies, in sequence. -/
inductive Body where
  | done
  | instr (i : Instr) (rest : Body)
  | frame (pairs : List SavePair) (remap : Bool) (inner rest : Body)

def frameSize (isa : Isa) (pairs : List SavePair) : Nat :=
  frameBytes isa (pairs.filterMap fun p => (p.check isa).toOption)

theorem frameSize_eq (checks : ChecksTo isa pairs checked) : frameSize isa pairs = frameBytes isa checked := by
  have kept : pairs.filterMap (fun p => (p.check isa).toOption) = checked := by
    induction pairs generalizing checked with
    | nil => exact checks.of_nil.symm
    | cons p pairs ih =>
      obtain ⟨c, rest, rfl, first, others⟩ := checks.of_cons
      rw [List.filterMap_cons, first, ih others]
      rfl
  rw [frameSize, kept]

namespace Body

def emit {σ : Type} [Sink σ] (isa : Isa) : Body → Emit σ Unit
  | .done => pure ()
  | .instr i rest => do
    Emit.emit i
    rest.emit isa
  | .frame pairs remap inner rest => do
    let _ ← around isa pairs remap fun _ => inner.emit isa
    rest.emit isa

/-- Single instructions stay off memory and off the stack pointer; the pairs of every frame can be saved, and its size
can be counted. -/
def Valid (isa : Isa) : Body → Prop
  | .done => True
  | .instr i rest => i.Quiet isa ∧ rest.Valid isa
  | .frame pairs _ inner rest =>
    (∀ p ∈ pairs, p.Savable isa) ∧ frameSize isa pairs < UInt32.size ∧ inner.Valid isa ∧ rest.Valid isa

instance decidableValid (isa : Isa) : (body : Body) → Decidable (body.Valid isa)
  | .done => .isTrue trivial
  | .instr _ rest =>
    haveI := decidableValid isa rest
    inferInstanceAs (Decidable (_ ∧ _))
  | .frame _ _ inner rest =>
    haveI := decidableValid isa inner
    haveI := decidableValid isa rest
    inferInstanceAs (Decidable (_ ∧ _ ∧ _ ∧ _))

/-- The largest sum of frame sizes along a chain of frames inside frames. -/
def depth (isa : Isa) : Body → Nat
  | .done => 0
  | .instr _ rest => rest.depth isa
  | .frame pairs _ inner rest => max (frameSize isa pairs + inner.depth isa) (rest.depth isa)

theorem emit_contained {body : Body} (valid : body.Valid isa) (room : body.depth isa ≤ UInt64.size) :
    ∃ code, (body.emit isa).Appends () code ∧ Contained isa (body.depth isa) code := by
  induction body with
  | done => exact ⟨[], .pure (), .of_quiet (by simp)⟩
  | instr i rest ih =>
    obtain ⟨quiet, others⟩ := valid
    obtain ⟨code, appends, contained⟩ := ih others room
    have leaf : Contained isa 0 [i] := .of_quiet (by simpa using quiet)
    exact ⟨[i] ++ code, (Emit.Appends.emit i).bind appends, (leaf.mono (Nat.zero_le _) room).append contained⟩
  | frame pairs remap inner rest innerIh restIh =>
    obtain ⟨savable, small, innerValid, restValid⟩ := valid
    obtain ⟨checked, checks⟩ := ChecksTo.exists_of_savable savable
    simp only [depth, frameSize_eq checks] at small room ⊢
    obtain ⟨innerCode, innerAppends, innerContained⟩ := innerIh innerValid (by omega)
    obtain ⟨restCode, restAppends, restContained⟩ := restIh restValid (by omega)
    have framed := Contained.around checks innerContained (by omega) remap
    exact ⟨_, (around_appends checks small remap fun _ => innerAppends).bind restAppends,
      (framed.mono (by omega) room).append (restContained.mono (by omega) room)⟩

end Body

/-- A frame around any body of frames. -/
theorem nested_frames_keep_apart (isa : Isa) {pairs : List SavePair} {inner : Body}
    (savable : ∀ p ∈ pairs, p.Savable isa) (small : frameSize isa pairs < UInt32.size) (valid : inner.Valid isa)
    (room : frameSize isa pairs + inner.depth isa < UInt64.size) (remap : Bool) (m : Machine) :
    ∃ bytes e m',
      around isa pairs remap (fun _ => inner.emit isa) ({ sink := {} } : Emission Code) = .ok (bytes, ()) e ∧
      bytes.toNat = frameSize isa pairs ∧
      Machine.run isa e.sink.toList m = .ok () m' ∧
      m'.sp isa = m.sp isa ∧
      (∀ a, ¬ InSpan (m.sp isa - BitVec.ofNat 64 (frameSize isa pairs + inner.depth isa))
          (frameSize isa pairs + inner.depth isa) a → m'.memory a = m.memory a) ∧
      ∀ source destination, FirstInto pairs source destination → m'.get destination = m.get source := by
  obtain ⟨checked, checks⟩ := ChecksTo.exists_of_savable savable
  rw [frameSize_eq checks] at small room ⊢
  obtain ⟨code, appends, contained⟩ := Body.emit_contained valid (by omega)
  obtain ⟨journal, emitted⟩ := around_appends checks small remap (fun _ => appends) { sink := {} }
  obtain ⟨sp, memory, values⟩ := m.effects_around checks contained (by omega) remap
  refine ⟨_, _, _, emitted, UInt32.toNat_ofNat_of_lt small, ?_, sp, memory, values⟩
  rw [Code.toList_append]
  exact Machine.run_of_narrow m (Contained.around checks contained (by omega) remap).narrow

/-- Two frames inside a third, each overwriting what it saved. -/
theorem rcx_receives_rbx_around_frames :
    let pairs : List SavePair := [.ofRegisters X86.rbx X86.rcx, .ofRegisters (X86.xmm 0) (X86.xmm 1)]
    let inner : Body := .frame [.ofRegisters X86.rcx X86.rcx] false (.instr (.movImm X86.rcx 1) .done)
      (.instr (.movImm X86.rbx 2) (.frame [.ofRegisters X86.rbx X86.rdx] true .done .done))
    let m := (Machine.new .x86_64).set X86.rbx 7
    frameSize .x86_64 pairs + inner.depth .x86_64 = 48 ∧
      ∃ bytes e m', around .x86_64 pairs true (fun _ => inner.emit .x86_64) ({ sink := {} } : Emission Code) =
          .ok (bytes, ()) e ∧
        Machine.run .x86_64 e.sink.toList m = .ok () m' ∧ m'.sp .x86_64 = m.sp .x86_64 ∧ m'.get X86.rcx = 7 := by
  intro pairs inner m
  have size : frameSize .x86_64 pairs + inner.depth .x86_64 = 48 := by decide
  refine ⟨size, ?_⟩
  have savable : ∀ p ∈ pairs, p.Savable .x86_64 := by decide
  have valid : inner.Valid .x86_64 := by decide
  obtain ⟨bytes, e, m', emitted, -, run, sp, -, values⟩ :=
    nested_frames_keep_apart .x86_64 savable (by decide) valid (by rw [size]; decide) true m
  exact ⟨bytes, e, m', emitted, run, sp, values X86.rbx X86.rcx ⟨[], _, rfl, by simp⟩⟩

end CallFrame
