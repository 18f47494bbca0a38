import CallFrame.Proofs.Alignment
import CallFrame.Proofs.ListingText
import CallFrame.Proofs.Nesting
import CallFrame.Proofs.RegisterWords

namespace CallFrame

variable {σ : Type} {isa : Isa} {pairs : List SavePair} {checked : List CheckedPair}

/-! ### What a frame sends -/

theorem sendAll_append [Sink σ] {first second : List Entry} {s s' : σ} (sent : sendAll (first ++ second) s = .ok () s') :
    ∃ middle, sendAll first s = .ok () middle ∧ sendAll second middle = .ok () s' := by
  have split : (sendAll (first ++ second) : EStateM Fault σ Unit) = sendAll first >>= fun _ => sendAll second :=
    List.forM_append
  rw [split] at sent
  obtain ⟨_, middle, head, tail⟩ := bind_eq_ok sent
  exact ⟨middle, head, tail⟩

theorem Emit.onSink_ok {α : Type} {x : EStateM Fault σ α} {a : α} {e : Emission σ} {s : σ}
    (done : x e.sink = .ok a s) : onSink x e = .ok a { e with sink := s } := by
  unfold onSink
  exact zoom_ok done

theorem Emit.emitAll_of_sent [Sink σ] {code : List Instr} {e : Emission σ} {s : σ}
    (sent : sendAll (code.map .instr) e.sink = .ok () s) : emitAll code e = .ok () { e with sink := s } := by
  induction code generalizing e with
  | nil =>
    cases sent
    rfl
  | cons i code ih =>
    have unrolled : sendAll ((i :: code).map .instr) e.sink =
        (Sink.emit i >>= fun _ => sendAll (code.map .instr)) e.sink := rfl
    rw [unrolled] at sent
    obtain ⟨_, middle, head, tail⟩ := bind_eq_ok sent
    have emitted : emit i e = .ok () { e with sink := middle } := onSink_ok head
    have here : emitAll (i :: code) e = (emit i >>= fun _ => emitAll code) e := rfl
    rw [here, bind_ok emitted, ih tail]

def padEntries (isa : Isa) (bytes : UInt32) : List Entry :=
  if bytes = 0 then [] else .comment "stack alignment padding" :: (isa.padCode bytes).map .instr

theorem Frame.pad_of_sent [Sink σ] {bytes : UInt32} {e : Emission σ} {s : σ}
    (sent : sendAll (padEntries isa bytes) e.sink = .ok () s) (f : Frame) :
    pad isa bytes (f, e) = .ok () (f.padded bytes, { e with sink := s }) := by
  unfold padEntries at sent
  unfold pad padded
  by_cases none : bytes = 0
  · rw [if_pos none] at sent
    cases sent
    simp only [none, ne_eq, not_true, if_false, if_true]
    rfl
  · have unrolled : sendAll (.comment "stack alignment padding" :: (isa.padCode bytes).map .instr) e.sink =
        (Sink.comment "stack alignment padding" >>= fun _ => sendAll ((isa.padCode bytes).map .instr)) e.sink := rfl
    rw [if_neg none, unrolled] at sent
    obtain ⟨_, middle, head, tail⟩ := bind_eq_ok sent
    have commented : FrameM.comment "stack alignment padding" (f, e) = .ok () (f, { e with sink := middle }) :=
      FrameM.onEmission_ok (Emit.onSink_ok head) f
    have emitted := Emit.emitAll_of_sent (e := { e with sink := middle }) tail
    simp only [none, ne_eq, not_false_eq_true, if_true, if_false]
    rw [bind_ok commented, bind_ok (FrameM.emitAll_ok emitted f)]
    rfl

theorem Frame.remap_of_sent [Sink σ] (checks : ChecksTo isa pairs checked) {remap : Bool} {e : Emission σ} {s : σ}
    (sent : sendAll ((if remap then moveAll checked else []).map .instr) e.sink = .ok () s) :
    ∃ phase journal, (if remap then Frame.remap isa else pure ()) (saved isa pairs checked, e) =
        .ok () ({ saved isa pairs checked with phase }, ⟨s, journal⟩) ∧
      Operation.restore.allowedIn phase = true := by
  cases remap with
  | true => exact ⟨.remapped, _, remap_emitted rfl checks (Emit.emitAll_of_sent sent), rfl⟩
  | false =>
    cases sent
    exact ⟨.preserved, e.journal, rfl, rfl⟩

namespace Frame

def entries (isa : Isa) (checked : List CheckedPair) (remap : Bool) : List Entry :=
  (saveAll isa checked).map .instr ++ padEntries isa (isa.gap (UInt32.ofNat (slotTotal isa checked))) ++
    (if remap then moveAll checked else []).map .instr ++ (leaveCode isa checked).map .instr

end Frame

theorem codeOf_append (first second : List Entry) : codeOf (first ++ second) = codeOf first ++ codeOf second :=
  List.filterMap_append

theorem codeOf_map (code : List Instr) : codeOf (code.map .instr) = code := by
  induction code with
  | nil => rfl
  | cons i code ih => exact congrArg (i :: ·) ih

theorem codeOf_padEntries (bytes : UInt32) : codeOf (padEntries isa bytes) = padAll isa bytes := by
  unfold padEntries padAll
  split
  · rfl
  · exact codeOf_map _

theorem Frame.codeOf_entries (remap : Bool) :
    codeOf (entries isa checked remap) = entryCode isa checked remap ++ leaveCode isa checked := by
  simp only [entries, codeOf_append, codeOf_map, codeOf_padEntries, entryCode, enterCode]

/-- In any sink, a frame around an empty body does what sending its entries does. -/
theorem around_sent [Sink σ] (checks : ChecksTo isa pairs checked) (small : frameBytes isa checked < UInt32.size)
    (remap : Bool) {e : Emission σ} {s : σ} (sent : sendAll (Frame.entries isa checked remap) e.sink = .ok () s) :
    ∃ journal, around isa pairs remap (fun _ => pure ()) e =
      .ok (UInt32.ofNat (frameBytes isa checked), ()) ⟨s, journal⟩ := by
  have fits : slotTotal isa checked < UInt32.size := Nat.lt_of_le_of_lt (Nat.le_add_right _ _) small
  obtain ⟨s₃, sent, left⟩ := sendAll_append sent
  obtain ⟨s₂, sent, moved⟩ := sendAll_append sent
  obtain ⟨s₁, saved, padded⟩ := sendAll_append sent
  obtain ⟨e₁, preserved, sink⟩ : ∃ e₁, Frame.preserve isa ({ pairs }, e.noted (.entered isa)) =
      .ok () (Frame.saved isa pairs checked, e₁) ∧ e₁.sink = s₂ :=
    ⟨_, Frame.preserve_emitted checks fits (Emit.emitAll_of_sent saved) (Frame.pad_of_sent padded), rfl⟩
  rw [← sink] at moved
  obtain ⟨phase, journal, remapped, turn⟩ := Frame.remap_of_sent checks moved
  have sized := Frame.bytes_saved pairs fits phase
  rw [if_pos small] at sized
  have restored := Frame.restore_emitted (f := { Frame.saved isa pairs checked with phase }) turn checks
    (Frame.pushed_saved pairs fits) (Emit.emitAll_of_sent (e := ⟨s₃, journal⟩) left)
  exact ⟨_, around_ok preserved remapped sized rfl restored⟩

/-! ### The lines of a frame -/

theorem Frame.framed (checks : ChecksTo isa pairs checked) (remap : Bool) :
    ∀ i ∈ entryCode isa checked remap ++ leaveCode isa checked, isa.Framed i := by
  -- A larger padding would take two lines on AArch64.
  have small : isa.gap (UInt32.ofNat (slotTotal isa checked)) < 4096 := by
    rw [UInt32.lt_iff_toNat_lt, Isa.toNat_gap]
    exact Nat.lt_trans (Nat.mod_lt _ (by decide)) (by decide)
  have saves : ∀ i ∈ saveAll isa checked, isa.Framed i := by
    intro i member
    obtain ⟨c, present, here⟩ := List.mem_flatMap.mp member
    exact Isa.framed_saveCode (checks.sound c present).source i here
  have reloads : ∀ i ∈ reloadAll isa checked, isa.Framed i := by
    intro i member
    obtain ⟨c, present, here⟩ := List.mem_flatMap.mp member
    exact Isa.framed_reloadCode (checks.sound c (List.mem_reverse.mp present)).destination i here
  have moves : ∀ i ∈ moveAll checked, isa.Framed i := by
    intro i member
    obtain ⟨c, present, rfl⟩ := List.mem_map.mp member
    have sound := checks.sound c (List.mem_filter.mp present).1
    exact Isa.framed_mov sound.destination sound.source
  have pads : ∀ i ∈ padAll isa (isa.gap (UInt32.ofNat (slotTotal isa checked))), isa.Framed i := by
    unfold padAll
    split
    · exact List.forall_mem_nil _
    · exact Isa.framed_padCode small
  have unpads : ∀ i ∈ unpadAll isa (isa.gap (UInt32.ofNat (slotTotal isa checked))), isa.Framed i := by
    unfold unpadAll
    split
    · exact List.forall_mem_nil _
    · exact Isa.framed_unpadCode small
  intro i member
  simp only [entryCode, enterCode, leaveCode, List.mem_append] at member
  rcases member with ((saved | padded) | moved) | (unpadded | reloaded)
  · exact saves i saved
  · exact pads i padded
  · cases remap with
    | true => exact moves i moved
    | false => cases moved
  · exact unpads i unpadded
  · exact reloads i reloaded

theorem Frame.comment_mem_entries {remap : Bool} {text : String} (member : .comment text ∈ entries isa checked remap) :
    text = "stack alignment padding" := by
  have instrs : ∀ code : List Instr, .comment text ∉ code.map Entry.instr := by
    intro code present
    obtain ⟨i, -, same⟩ := List.mem_map.mp present
    cases same
  simp only [entries, padEntries, List.mem_append, instrs, false_or, or_false] at member
  split at member
  · cases member
  · simpa [instrs] using member

theorem length_flatMap_render {code : List Instr} (single : ∀ i ∈ code, ∃ line, isa.render i = [line]) :
    (code.flatMap isa.render).length = code.length := by
  induction code with
  | nil => rfl
  | cons i code ih =>
    obtain ⟨⟨line, rendered⟩, others⟩ := List.forall_mem_cons.mp single
    rw [List.flatMap_cons, rendered, List.length_append, ih others, List.length_singleton, List.length_cons, Nat.add_comm]

/-- A frame around an empty body, recorded and listed. Each recorded instruction is one line of the listing, and the words
for registers in that line are the names of its operands, in their order; none is the canonical text that stands in for a
missing name. -/
theorem frame_listing_shows_names (isa : Isa) {pairs : List SavePair} {e e₁ : Emission Code} {f : Frame} {bytes : UInt32}
    (preserved : Frame.preserve isa ({ pairs }, e) = .ok () (f, e₁)) (sized : f.bytes = .ok bytes) (remap : Bool)
    (layout : Layout) (narrow : layout.indent ≤ 65535) :
    ∃ (c : Emission Code) (t : Emission (Listing isa)),
      around isa pairs remap (fun _ => pure ()) ({ sink := {} } : Emission Code) = .ok (bytes, ()) c ∧
      around isa pairs remap (fun _ => pure ()) ({ sink := { layout } } : Emission (Listing isa)) = .ok (bytes, ()) t ∧
      c.sink.size = t.sink.lines ∧
      (rowsOf t.sink.text).filter (fun row => !isComment isa layout.indent row) =
        (c.sink.toList.flatMap isa.render).map (margin layout.indent ++ ·) ∧
      ∀ i ∈ c.sink.toList, ∃ line, i.Spelled isa line ∧ ∀ r : Register, r.text ∉ Asm.registerWords line := by
  obtain ⟨checked, checks, fits, rfl, -⟩ := Frame.saved_of_preserve preserved
  obtain ⟨small, size⟩ := Frame.size_of_bytes fits sized
  have value : UInt32.ofNat (frameBytes isa checked) = bytes := by rw [← size, UInt32.ofNat_toNat]
  have spelled : ∀ i ∈ codeOf (Frame.entries isa checked remap), ∃ line, i.Spelled isa line := by
    rw [Frame.codeOf_entries]
    intro i member
    obtain ⟨form, named⟩ := Frame.framed checks remap i member
    exact Instr.spelled form named
  obtain ⟨recording, recorded⟩ := around_appends checks small remap (fun _ => Emit.Appends.pure ()) { sink := {} }
  obtain ⟨journal, listed⟩ := around_sent checks small remap (e := { sink := ({ layout } : Listing isa) })
    (Listing.sendAll_fresh isa layout narrow (Frame.entries isa checked remap))
  rw [List.append_nil, ← Frame.codeOf_entries, value] at recorded
  rw [value] at listed
  have code : (({} : Code).append (codeOf (Frame.entries isa checked remap))).toList =
      codeOf (Frame.entries isa checked remap) := by
    rw [Code.toList_append]
    rfl
  have single : ∀ text, .comment text ∈ Frame.entries isa checked remap → '\n' ∉ text.toList := by
    intro text member
    rw [Frame.comment_mem_entries member]
    decide
  have rows : rowsOf (unlines (rowsFor isa layout (Frame.entries isa checked remap))) =
      rowsFor isa layout (Frame.entries isa checked remap) :=
    rowsOf_unlines fun row member => (rowsFor_shape single row member).2
  refine ⟨_, _, recorded, listed, ?_, ?_, ?_⟩
  · have lines := length_flatMap_render fun i member => (spelled i member).imp fun _ shown => shown.rendered
    calc (({} : Code).append (codeOf (Frame.entries isa checked remap))).size
      _ = (({} : Code).append (codeOf (Frame.entries isa checked remap))).toList.length := Array.length_toList.symm
      _ = (codeOf (Frame.entries isa checked remap)).length := congrArg List.length code
      _ = lineCount isa (codeOf (Frame.entries isa checked remap)) := lines.symm
  · rw [rows, filter_rowsFor, rowsFor_bare, code]
  · rw [code]
    intro i member
    obtain ⟨line, shown⟩ := spelled i member
    exact ⟨line, shown, shown.not_text⟩

/-- A frame of each instruction set. The padding of the first is a push of its own, and a comment that is not counted; the
second needs none. -/
theorem frames_list_ten_and_nine_lines :
    let layout : Layout := { indent := 2 }
    (let pairs : List SavePair := [.ofRegisters X86.rbx X86.rcx, .ofRegisters (X86.xmm 0) (X86.xmm 1)]
    ∃ (c : Emission Code) (t : Emission (Listing .x86_64)),
      around .x86_64 pairs true (fun _ => pure ()) ({ sink := {} } : Emission Code) = .ok (32, ()) c ∧
      around .x86_64 pairs true (fun _ => pure ()) ({ sink := { layout } } : Emission (Listing .x86_64)) =
        .ok (32, ()) t ∧
      t.sink.lines = 10 ∧
      (rowsOf t.sink.text).filter (fun row => !isComment .x86_64 layout.indent row) =
        ["  pushq %rbx", "  subq $16, %rsp", "  movdqu %xmm0, (%rsp)", "  pushq %rax", "  movq %rbx, %rcx",
          "  movdqa %xmm0, %xmm1", "  addq $8, %rsp", "  movdqu (%rsp), %xmm1", "  addq $16, %rsp", "  popq %rcx"] ∧
      (Instr.mov (X86.xmm 1) (X86.xmm 0)).Spelled .x86_64 "movdqa %xmm0, %xmm1") ∧
    (let pairs : List SavePair :=
      [.ofRegisters (A64.x 19) (A64.x 0), .ofRegisters (A64.d 8) (A64.d 1), .ofRegisters (A64.q 2) (A64.q 3)]
    ∃ (c : Emission Code) (t : Emission (Listing .aarch64)),
      around .aarch64 pairs true (fun _ => pure ()) ({ sink := {} } : Emission Code) = .ok (48, ()) c ∧
      around .aarch64 pairs true (fun _ => pure ()) ({ sink := { layout } } : Emission (Listing .aarch64)) =
        .ok (48, ()) t ∧
      t.sink.lines = 9 ∧
      (rowsOf t.sink.text).filter (fun row => !isComment .aarch64 layout.indent row) =
        ["  str x19, [sp, #-16]!", "  str d8, [sp, #-16]!", "  str q2, [sp, #-16]!", "  mov x0, x19", "  fmov d1, d8",
          "  mov v3.16b, v2.16b", "  ldr q3, [sp], #16", "  ldr d1, [sp], #16", "  ldr x0, [sp], #16"] ∧
      (Instr.mov (A64.q 3) (A64.q 2)).Spelled .aarch64 "mov v3.16b, v2.16b") := by
  intro layout
  constructor
  · intro pairs
    have checks : ChecksTo .x86_64 pairs [⟨X86.rbx, X86.rcx, .general⟩, ⟨X86.xmm 0, X86.xmm 1, .vector⟩] := rfl
    obtain ⟨f, e₁, preserved, sized⟩ : ∃ f e₁,
        Frame.preserve .x86_64 ({ pairs }, ({ sink := {} } : Emission Code)) = .ok () (f, e₁) ∧ f.bytes = .ok 32 :=
      ⟨_, _, Frame.preserve_checked checks (by decide) _, rfl⟩
    obtain ⟨journal, run⟩ := around_appends checks (by decide) true (fun _ => Emit.Appends.pure ()) { sink := {} }
    obtain ⟨c, t, recorded, listed, lines, rows, shown⟩ :=
      frame_listing_shows_names .x86_64 preserved sized true layout (by decide)
    rw [run] at recorded
    cases recorded
    obtain ⟨line, spelled, -⟩ := shown (.mov (X86.xmm 1) (X86.xmm 0)) (by change _ ∈ (Code.append {} _).toList; decide)
    cases spelled.rendered
    exact ⟨_, t, run, listed, lines.symm, rows.trans rfl, spelled⟩
  · intro pairs
    have checks : ChecksTo .aarch64 pairs
        [⟨A64.x 19, A64.x 0, .general⟩, ⟨A64.d 8, A64.d 1, .vector⟩, ⟨A64.q 2, A64.q 3, .vector⟩] := rfl
    obtain ⟨f, e₁, preserved, sized⟩ : ∃ f e₁,
        Frame.preserve .aarch64 ({ pairs }, ({ sink := {} } : Emission Code)) = .ok () (f, e₁) ∧ f.bytes = .ok 48 :=
      ⟨_, _, Frame.preserve_checked checks (by decide) _, rfl⟩
    obtain ⟨journal, run⟩ := around_appends checks (by decide) true (fun _ => Emit.Appends.pure ()) { sink := {} }
    obtain ⟨c, t, recorded, listed, lines, rows, shown⟩ :=
      frame_listing_shows_names .aarch64 preserved sized true layout (by decide)
    rw [run] at recorded
    cases recorded
    obtain ⟨line, spelled, -⟩ := shown (.mov (A64.q 3) (A64.q 2)) (by change _ ∈ (Code.append {} _).toList; decide)
    cases spelled.rendered
    exact ⟨_, t, run, listed, lines.symm, rows.trans rfl, spelled⟩

end CallFrame
