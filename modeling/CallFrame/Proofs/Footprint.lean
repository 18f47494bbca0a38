import CallFrame.Proofs.Nesting

/-! The cells and the bytes that a frame writes. -/
namespace CallFrame

variable {isa : Isa} {pairs : List SavePair} {checked : List CheckedPair} {c : Cell}

def SavePair.Into (c : Cell) (p : SavePair) : Prop := p.destination.register?.map Register.cell = some c

instance (c : Cell) (p : SavePair) : Decidable (p.Into c) := inferInstanceAs (Decidable (_ = _))

theorem eq_of_mem_saveAll (written : c ∈ writtenCells isa (saveAll isa checked)) : c = isa.stackPointer.cell := by
  induction checked with
  | nil => cases written
  | cons d checked ih =>
    rw [saveAll_cons, writtenCells_append, Isa.writtenCells_saveCode] at written
    rcases List.mem_cons.mp written with here | later
    · exact here
    · exact ih later

theorem eq_of_mem_padAll {bytes : UInt32} (written : c ∈ writtenCells isa (padAll isa bytes)) :
    c = isa.stackPointer.cell := by
  unfold padAll at written
  split at written
  · cases written
  · rw [Isa.writtenCells_padCode] at written
    exact List.mem_singleton.mp written

theorem eq_of_mem_unpadAll {bytes : UInt32} (written : c ∈ writtenCells isa (unpadAll isa bytes)) :
    c = isa.stackPointer.cell := by
  unfold unpadAll at written
  split at written
  · cases written
  · exact List.mem_singleton.mp written

theorem mem_writtenCells_moveAll :
    c ∈ writtenCells isa (moveAll checked) ↔ ∃ d ∈ checked, d.source ≠ d.destination ∧ d.destination.cell = c := by
  simp only [writtenCells, moveAll, List.mem_flatMap, List.mem_map, List.mem_filter, decide_eq_true_eq]
  constructor
  · rintro ⟨_, ⟨d, ⟨present, moved⟩, rfl⟩, here⟩
    exact ⟨d, present, moved, (List.mem_singleton.mp here).symm⟩
  · rintro ⟨d, present, moved, rfl⟩
    exact ⟨_, ⟨d, ⟨present, moved⟩, rfl⟩, List.mem_singleton_self _⟩

theorem cases_of_mem_reloadAll (written : c ∈ writtenCells isa (reloadAll isa checked)) :
    c = isa.stackPointer.cell ∨ ∃ d ∈ checked, d.destination.cell = c := by
  induction checked with
  | nil => cases written
  | cons d checked ih =>
    rw [reloadAll_cons, writtenCells_append, Isa.writtenCells_reloadCode] at written
    rcases List.mem_append.mp written with later | here
    · rcases ih later with pointer | ⟨b, present, into⟩
      · exact .inl pointer
      · exact .inr ⟨b, List.mem_cons_of_mem _ present, into⟩
    · simp only [List.mem_cons, List.not_mem_nil, or_false] at here
      rcases here with rfl | rfl
      · exact .inr ⟨d, List.mem_cons_self, rfl⟩
      · exact .inl rfl

theorem cases_of_mem_frame (remap : Bool)
    (written : c ∈ writtenCells isa (Frame.entryCode isa checked remap ++ Frame.leaveCode isa checked)) :
    c = isa.stackPointer.cell ∨ ∃ d ∈ checked, d.destination.cell = c := by
  simp only [Frame.entryCode, Frame.enterCode, Frame.leaveCode, writtenCells_append, List.mem_append] at written
  rcases written with ((saved | padded) | copied) | (unpadded | reloaded)
  · exact .inl (eq_of_mem_saveAll saved)
  · exact .inl (eq_of_mem_padAll padded)
  · cases remap with
    | false => cases copied
    | true =>
      obtain ⟨d, present, -, into⟩ := mem_writtenCells_moveAll.mp copied
      exact .inr ⟨d, present, into⟩
  · exact .inl (eq_of_mem_unpadAll unpadded)
  · exact cases_of_mem_reloadAll reloaded

/-- A frame around an empty body leaves all registers alone but for its destinations, and all memory but for the bytes
that it takes. The padding pushes a register, but writes none. -/
theorem around_touches_only_destinations (isa : Isa) {pairs : List SavePair} {e e₁ : Emission Code} {f : Frame}
    {bytes : UInt32} (preserved : Frame.preserve isa ({ pairs }, e) = .ok () (f, e₁)) (sized : f.bytes = .ok bytes)
    (remap : Bool) (m : Machine) :
    ∃ e' m',
      around isa pairs remap (fun _ => pure ()) ({ sink := {} } : Emission Code) = .ok (bytes, ()) e' ∧
      Machine.run isa e'.sink.toList m = .ok () m' ∧
      m'.sp isa = m.sp isa ∧
      (∀ r, r.cell ≠ isa.stackPointer.cell → (∀ p ∈ pairs, ¬ p.Into r.cell) → m'.get r = m.get r) ∧
      ∀ a, ¬ InSpan (m.sp isa - BitVec.ofNat 64 bytes.toNat) bytes.toNat a → m'.memory a = m.memory a := by
  obtain ⟨checked, checks, fits, rfl, -⟩ := Frame.saved_of_preserve preserved
  obtain ⟨small, size⟩ := Frame.size_of_bytes fits sized
  have value : UInt32.ofNat (frameBytes isa checked) = bytes := by rw [← size, UInt32.ofNat_toNat]
  have room : frameBytes isa checked + 0 ≤ UInt64.size := Nat.le_trans (Nat.le_of_lt small) (by decide)
  have empty : Contained isa 0 [] := .of_quiet (List.forall_mem_nil _)
  obtain ⟨journal, emitted⟩ := around_appends checks small remap (fun _ => Emit.Appends.pure ()) { sink := {} }
  obtain ⟨sp, memory, -⟩ := m.effects_around checks empty room remap
  have narrow := (Contained.around checks empty room remap).narrow
  rw [List.append_nil] at emitted sp memory narrow
  rw [value] at emitted
  refine ⟨_, _, emitted, ?_, sp, ?_, ?_⟩
  · rw [Code.toList_append]
    exact m.run_of_narrow narrow
  · intro r pointer others
    apply Machine.get_congr
    apply m.cells_effects
    intro written
    rcases cases_of_mem_frame remap written with same | ⟨d, present, into⟩
    · exact pointer same
    · refine others _ (checks.mem_pairs present) ?_
      rw [← into]
      rfl
  · intro a outside
    rw [size] at outside
    exact memory a outside

/-- An odd number of pushes: the register that pads the stack comes out as it went in, and so does the byte right above
the frame. -/
theorem around_leaves_rax_alone :
    let pairs : List SavePair := [.ofRegisters X86.rbx X86.rcx, .ofRegisters (X86.xmm 0) (X86.xmm 1)]
    let m := (Machine.new .x86_64).set X86.rax 7
    ∃ e' m', around .x86_64 pairs true (fun _ => pure ()) ({ sink := {} } : Emission Code) = .ok (32, ()) e' ∧
      Machine.run .x86_64 e'.sink.toList m = .ok () m' ∧ m'.sp .x86_64 = m.sp .x86_64 ∧
      m'.get X86.rax = m.get X86.rax ∧ m'.get (X86.xmm 0) = m.get (X86.xmm 0) ∧
      m'.memory (m.sp .x86_64) = m.memory (m.sp .x86_64) := by
  intro pairs m
  have checks : ChecksTo .x86_64 pairs [⟨X86.rbx, X86.rcx, .general⟩, ⟨X86.xmm 0, X86.xmm 1, .vector⟩] := rfl
  obtain ⟨f, e₁, preserved, sized⟩ : ∃ f e₁,
      Frame.preserve .x86_64 ({ pairs }, ({ sink := {} } : Emission Code)) = .ok () (f, e₁) ∧ f.bytes = .ok 32 :=
    ⟨_, _, Frame.preserve_checked checks (by decide) _, rfl⟩
  obtain ⟨e', m', emitted, run, sp, registers, memory⟩ :=
    around_touches_only_destinations .x86_64 preserved sized true m
  refine ⟨e', m', emitted, run, sp, registers _ (by decide) (by decide), registers _ (by decide) (by decide), ?_⟩
  apply memory
  rw [inSpan_below (by decide), BitVec.sub_self]
  decide

end CallFrame
