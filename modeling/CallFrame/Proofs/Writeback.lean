import CallFrame.Proofs.AttLines

/-! Indexed accesses, and where their x86-64 lines part from the instruction. -/
namespace CallFrame

variable {r : Register} {mem : MemOperand}

/-! ### Displacements -/

theorem Asm.Displacement.value_ofInt32 (d : Int32) : (ofInt32 d).value = d.toInt := by
  have low := d.le_toInt
  have high := d.toInt_lt
  have magnitude : (UInt32.ofNat d.toInt.natAbs).toNat = d.toInt.natAbs := by
    apply UInt32.toNat_ofNat_of_lt'
    simp only [UInt32.size]
    omega
  unfold value ofInt32
  rw [magnitude]
  by_cases negative : d < 0
  · rw [Int32.lt_iff_toInt_lt, Int32.toInt_zero] at negative
    simp only [Int32.lt_iff_toInt_lt, Int32.toInt_zero, negative, decide_true, if_true]
    omega
  · rw [Int32.lt_iff_toInt_lt, Int32.toInt_zero] at negative
    simp only [Int32.lt_iff_toInt_lt, Int32.toInt_zero, negative, decide_false, Bool.false_eq_true, if_false]
    omega

theorem add_disp_ne (a : Addr) {disp : Int32} (moved : disp ≠ 0) : a + BitVec.ofInt 64 disp.toInt ≠ a := by
  intro same
  have low := disp.le_toInt
  have high := disp.toInt_lt
  have zero : BitVec.ofInt 64 disp.toInt = 0 := by
    have cancelled := congrArg (· - a) same
    simpa [BitVec.add_comm a, BitVec.add_sub_cancel] using cancelled
  have exact_ : (BitVec.ofInt 64 disp.toInt).toInt = disp.toInt := by
    rw [BitVec.toInt_ofInt]
    apply Int.bmod_eq_of_le <;> omega
  rw [zero] at exact_
  exact moved (Int32.toInt_inj.mp exact_.symm)

/-! ### The base and the register moved -/

namespace Machine

theorem get_eq_get64 (m : Machine) (wide : r.cls = .gp64) : m.get r = (m.get64 r).setWidth 128 := by
  have bits : r.cls.bits.toNat = 64 := by rw [wide]; rfl
  rw [get64, get, bits, lowBits]
  simp

theorem set64_get64_set (m : Machine) (v : Value) (wide : r.cls = .gp64) :
    m.set64 r ((m.set r v).get64 r) = m.set r v := by
  have bits : r.cls.bits.toNat = 64 := by rw [wide]; rfl
  have low : lowBits 64 (((m.set r v).get64 r).setWidth 128) = lowBits 64 v := by
    rw [get64, get_set_same m v rfl, bits]
    simp [lowBits]
  generalize (m.set r v).get64 r = a at low ⊢
  simp only [set64, set, bits, low]

end Machine

namespace Asm.Att

theorem Named.eq_of_cell {base : Register} (named : Named r) (general : Gp64 base) (same : r.cell = base.cell) :
    r = base := by
  obtain ⟨cls, index⟩ := r
  obtain ⟨cls', index'⟩ := base
  have wide : cls' = .gp64 := general.1
  subst wide
  simp only [Register.cell, Cell.mk.injEq] at same
  obtain ⟨file, rfl⟩ := same
  rcases named.1 with here | other
  · have here : cls = .gp64 := here
    rw [here]
  · have other : cls = .vec128 := other
    rw [other] at file
    cases file

theorem get_writeBack (m : Machine) (named : Named r) (general : Gp64 mem.base)
    (kept : r ≠ mem.base ∨ mem.disp = 0) : (m.writeBack mem).get r = m.get r := by
  unfold Machine.writeBack
  split
  · by_cases same : r = mem.base
    · have still : mem.disp = 0 := kept.resolve_left (not_not_intro same)
      subst same
      rw [Machine.get_eq_get64 _ general.1, Machine.get64_set64_same m _ general.1, Machine.indexed, still,
        Machine.get_eq_get64 m general.1]
      simp
    · exact m.get_set64_other _ fun shared => same (named.eq_of_cell general shared)
  · rfl

theorem writeBack_set (m : Machine) (v : Value) (named : Named r) (general : Gp64 mem.base)
    (kept : r ≠ mem.base ∨ mem.disp = 0) : (m.set r v).writeBack mem = (m.writeBack mem).set r v := by
  unfold Machine.writeBack
  split
  · by_cases same : r = mem.base
    · have still : mem.disp = 0 := kept.resolve_left (not_not_intro same)
      subst same
      have first : (m.set mem.base v).set64 mem.base ((m.set mem.base v).get64 mem.base) = m.set mem.base v :=
        (m.set_set mem.base v _).trans (m.set64_get64_set v general.1)
      have last : (m.set64 mem.base (m.get64 mem.base)).set mem.base v = m.set mem.base v := m.set_set mem.base _ v
      simpa [Machine.indexed, still] using first.trans last.symm
    · have apart : r.cell ≠ mem.base.cell := fun shared => same (named.eq_of_cell general shared)
      have address : (m.set r v).indexed mem = m.indexed mem := by
        simp only [Machine.indexed, Machine.get64, Machine.get_set_other m v (Ne.symm apart)]
      rw [address]
      exact m.set_comm v _ apart
  · rfl

/-! ### Lines of an access -/

theorem sum_offset (m : Machine) (base : Register) (disp : Int32) :
    (Address.offset base disp).sum m = m.get64 base + BitVec.ofInt 64 disp.toInt := by
  unfold Address.offset
  split
  · rename_i zero
    rw [zero]
    rfl
  · simp only [Address.sum, Option.elim_some, Displacement.value_ofInt32]

theorem sum_ofBase (m : Machine) (base : Register) : (Address.ofBase base).sum m = m.get64 base :=
  BitVec.add_zero _

theorem base_offset (base : Register) (disp : Int32) : (Address.offset base disp).base = base := by
  unfold Address.offset
  split <;> rfl

theorem Named.transfer (named : Named r) :
    (Transfer.ofClass r.cls = .movq ∨ Transfer.ofClass r.cls = .movdqu) ∧
      (Transfer.ofClass r.cls).bytes = r.bytes.toNat := by
  unfold Register.bytes
  rcases named.1 with wide | vector
  · rw [wide]
    exact ⟨.inl rfl, rfl⟩
  · rw [vector]
    exact ⟨.inr rfl, rfl⟩

theorem runLines_pair {m m₁ : Machine} {first : Line} (second : Line) (head : first.effect? m = some m₁) :
    runLines m [first, second] = second.effect? m₁ := by
  rw [runLines, List.foldlM_cons, head]
  exact Option.bind_fun_some _

theorem effect?_bump (m : Machine) (mem : MemOperand) :
    Line.effect? m (.leaq (.offset mem.base mem.disp) mem.base) = some (m.set64 mem.base (m.indexed mem)) := by
  rw [Line.effect?, sum_offset]
  rfl

/-- Behind a pre-indexed base the store finds the register as the base left it. -/
theorem runLines_store (m : Machine) {src : Register} (named : Named src) (general : Gp64 mem.base) :
    runLines m (lower (.store src mem)) =
      some ((m.writeBack mem).poke (m.effectiveAddress mem) src.bytes.toNat
        (if mem.mode = .preIndex then (m.writeBack mem).get src else m.get src)) := by
  obtain ⟨base, disp, mode⟩ := mem
  have wide : base.cls = .gp64 := general.1
  have bytes := named.transfer.2
  cases mode with
  | offset =>
    change some (m.poke ((Address.offset base disp).sum m) (Transfer.ofClass src.cls).bytes (m.get src)) = _
    rw [sum_offset, bytes]
    rfl
  | preIndex =>
    have bump := effect?_bump m ⟨base, disp, .preIndex⟩
    have top := m.get64_set64_same (m.indexed ⟨base, disp, .preIndex⟩) wide
    change runLines m [.leaq (.offset base disp) base, .store (.ofClass src.cls) src (.ofBase base)] = _
    rw [runLines_pair _ bump, Line.effect?, sum_ofBase, bytes, top]
    rfl
  | postIndex =>
    have store : Line.effect? m (.store (.ofClass src.cls) src (.ofBase base)) =
        some (m.poke (m.get64 base) src.bytes.toNat (m.get src)) := by
      rw [Line.effect?, sum_ofBase, bytes]
    change runLines m [.store (.ofClass src.cls) src (.ofBase base), .leaq (.offset base disp) base] = _
    rw [runLines_pair _ store]
    exact effect?_bump _ ⟨base, disp, .postIndex⟩

/-- Before a post-indexed base moves, the load has already written its register. -/
theorem runLines_load (m : Machine) {dst : Register} (named : Named dst) (general : Gp64 mem.base) :
    runLines m (lower (.load dst mem)) =
      some (if mem.mode = .postIndex then
          (m.set dst (m.read (m.effectiveAddress mem) dst.bytes.toNat)).writeBack mem
        else (m.writeBack mem).set dst (m.read (m.effectiveAddress mem) dst.bytes.toNat)) := by
  obtain ⟨base, disp, mode⟩ := mem
  have wide : base.cls = .gp64 := general.1
  have bytes := named.transfer.2
  cases mode with
  | offset =>
    change some (m.set dst (m.read ((Address.offset base disp).sum m) (Transfer.ofClass dst.cls).bytes)) = _
    rw [sum_offset, bytes]
    rfl
  | preIndex =>
    have bump := effect?_bump m ⟨base, disp, .preIndex⟩
    have top := m.get64_set64_same (m.indexed ⟨base, disp, .preIndex⟩) wide
    change runLines m [.leaq (.offset base disp) base, .load (.ofClass dst.cls) (.ofBase base) dst] = _
    rw [runLines_pair _ bump, Line.effect?, sum_ofBase, bytes, top]
    rfl
  | postIndex =>
    have load : Line.effect? m (.load (.ofClass dst.cls) (.ofBase base) dst) =
        some (m.set dst (m.read (m.get64 base) dst.bytes.toNat)) := by
      rw [Line.effect?, sum_ofBase, bytes]
    change runLines m [.load (.ofClass dst.cls) (.ofBase base) dst, .leaq (.offset base disp) base] = _
    rw [runLines_pair _ load]
    exact effect?_bump _ ⟨base, disp, .postIndex⟩

/-! ### Accesses -/

/-- A store or a load of a full-width register through one of the sixteen general registers. -/
def Access : Instr → Prop
  | .store data mem | .load data mem => Named data ∧ Gp64 mem.base
  | _ => False

/-- The register moved is the base, and the line that moves the base comes before its store or after its load. -/
def Overtaken : Instr → Prop
  | .store src mem => mem.mode = .preIndex ∧ src = mem.base ∧ mem.disp ≠ 0
  | .load dst mem => mem.mode = .postIndex ∧ dst = mem.base ∧ mem.disp ≠ 0
  | _ => False

variable {i : Instr}

theorem plain_through {body : Address → Line} (general : Gp64 mem.base)
    (plain : ∀ a : Address, a.base = mem.base → (body a).Plain) : ∀ l ∈ through mem body, l.Plain := by
  have bump : (Line.leaq (.offset mem.base mem.disp) mem.base).Plain := by
    refine ⟨?_, general.named⟩
    rw [base_offset]
    exact general.named
  have bare : (body (.ofBase mem.base)).Plain := plain _ rfl
  unfold through
  cases mem.mode with
  | offset => exact List.forall_mem_singleton.mpr (plain _ (base_offset _ _))
  | preIndex => exact List.forall_mem_cons.mpr ⟨bump, List.forall_mem_singleton.mpr bare⟩
  | postIndex => exact List.forall_mem_cons.mpr ⟨bare, List.forall_mem_singleton.mpr bump⟩

theorem Access.plain (access : Access i) : ∀ l ∈ lower i, l.Plain := by
  cases i with
  | store src mem =>
    obtain ⟨named, general⟩ := access
    apply plain_through general
    intro a same
    refine ⟨named.transfer.1, named, ?_⟩
    rw [same]
    exact general.named
  | load dst mem =>
    obtain ⟨named, general⟩ := access
    change ∀ l ∈ through mem fun a => .load (.ofClass dst.cls) a dst, l.Plain
    apply plain_through general
    intro a same
    refine ⟨named.transfer.1, ?_, named⟩
    rw [same]
    exact general.named
  | _ => exact access.elim

theorem Access.narrow (access : Access i) : i.overwide = false := by
  cases i with
  | store src mem =>
    apply Instr.narrow_of_writtenBytes
    change src.bytes.toNat ≤ 16
    rw [← access.1.transfer.2]
    cases Transfer.ofClass src.cls <;> decide
  | load dst mem => rfl
  | _ => exact access.elim

theorem Access.runText_eq (access : Access i) (m : Machine) :
    runText readLine? Line.effect? m (Isa.x86_64.render i) = runLines m (lower i) :=
  runText_map m fun l member => readLine?_text (access.plain l member)

theorem runLines_of_not_overtaken (m : Machine) (access : Access i) (ahead : ¬ Overtaken i) :
    runLines m (lower i) = some (m.effect .x86_64 i) := by
  cases i with
  | store src mem =>
    obtain ⟨named, general⟩ := access
    rw [runLines_store m named general]
    split
    · rename_i mode
      have kept : src ≠ mem.base ∨ mem.disp = 0 := by
        by_cases same : src = mem.base
        · exact .inr (Decidable.not_not.mp fun moved => ahead ⟨mode, same, moved⟩)
        · exact .inl same
      rw [get_writeBack m named general kept]
      rfl
    · rfl
  | load dst mem =>
    obtain ⟨named, general⟩ := access
    rw [runLines_load m named general]
    split
    · rename_i mode
      have kept : dst ≠ mem.base ∨ mem.disp = 0 := by
        by_cases same : dst = mem.base
        · exact .inr (Decidable.not_not.mp fun moved => ahead ⟨mode, same, moved⟩)
        · exact .inl same
      rw [writeBack_set m _ named general kept]
      rfl
    · rfl
  | _ => exact access.elim

theorem stored_base_differs (m : Machine) {base : Register} {disp : Int32} (wide : base.cls = .gp64) (moved : disp ≠ 0)
    (memory : Memory) (a : Addr) :
    memory.store a base.bytes.toNat ((m.writeBack (.preIndex base disp)).get base) ≠
      memory.store a base.bytes.toNat (m.get base) := by
  have bytes : base.bytes.toNat = 8 := by rw [Register.bytes, wide]; rfl
  have written : (m.writeBack (.preIndex base disp)).get64 base = m.get64 base + BitVec.ofInt 64 disp.toInt :=
    m.get64_set64_same _ wide
  intro same
  -- Reading the eight bytes back gives both values.
  have loaded := congrArg (fun s : Memory => (s.load a 8).setWidth 64) same
  simp only [bytes, Memory.load_store_same _ _ _ (show 8 ≤ 16 by decide), Machine.get_eq_get64 _ wide, written] at loaded
  apply add_disp_ne (m.get64 base) moved
  simpa [Machine.lowBits] using loaded

theorem loaded_base_differs (m : Machine) {base : Register} {disp : Int32} (wide : base.cls = .gp64) (moved : disp ≠ 0)
    (v : Value) :
    ((m.set base v).writeBack (.postIndex base disp)).get64 base ≠
      ((m.writeBack (.postIndex base disp)).set base v).get64 base := by
  have late : ((m.set base v).writeBack (.postIndex base disp)).get64 base =
      (m.set base v).get64 base + BitVec.ofInt 64 disp.toInt := (m.set base v).get64_set64_same _ wide
  have kept : (m.writeBack (.postIndex base disp)).set base v = m.set base v := m.set_set base _ v
  rw [late, kept]
  exact add_disp_ne _ moved

theorem runLines_of_overtaken (m : Machine) (access : Access i) (overtaken : Overtaken i) :
    ∃ written, runLines m (lower i) = some written ∧
      (written.memory ≠ (m.effect .x86_64 i).memory ∨ ∃ r, written.get64 r ≠ (m.effect .x86_64 i).get64 r) := by
  cases i with
  | store src mem =>
    obtain ⟨named, general⟩ := access
    obtain ⟨base, disp, mode⟩ := mem
    obtain ⟨rfl, rfl, moved⟩ := overtaken
    refine ⟨_, runLines_store m named general, .inl ?_⟩
    exact stored_base_differs m general.1 moved _ _
  | load dst mem =>
    obtain ⟨named, general⟩ := access
    obtain ⟨base, disp, mode⟩ := mem
    obtain ⟨rfl, rfl, moved⟩ := overtaken
    refine ⟨_, runLines_load m named general, .inr ⟨dst, ?_⟩⟩
    exact loaded_base_differs m general.1 moved _
  | _ => exact access.elim

/-- The lines of an access follow the instruction from every machine exactly if the access is not overtaken. Where it
is, both run, and they differ in memory or in a register, whatever the machine. -/
theorem access_lines_follow_unless_overtaken {i : Instr} (access : Access i) :
    ((∀ m, TextFollows .x86_64 readLine? Line.effect? m i) ↔ ¬ Overtaken i) ∧
      (Overtaken i → ∀ m : Machine, ∃ done written,
        Machine.step .x86_64 i m = .ok () done ∧
        runText readLine? Line.effect? m (Isa.x86_64.render i) = some written ∧
        (written.memory ≠ done.memory ∨ ∃ r, written.get64 r ≠ done.get64 r)) := by
  have differ : Overtaken i → ∀ m : Machine, ∃ done written,
      Machine.step .x86_64 i m = .ok () done ∧
      runText readLine? Line.effect? m (Isa.x86_64.render i) = some written ∧
      (written.memory ≠ done.memory ∨ ∃ r, written.get64 r ≠ done.get64 r) := by
    intro overtaken m
    obtain ⟨written, run, different⟩ := runLines_of_overtaken m access overtaken
    refine ⟨_, written, Machine.step_narrow .x86_64 m access.narrow, ?_, different⟩
    rw [access.runText_eq, run]
  refine ⟨⟨?_, ?_⟩, differ⟩
  · intro follows overtaken
    obtain ⟨done, written, step, run, different⟩ := differ overtaken (.new .x86_64)
    obtain ⟨both, step', run'⟩ := follows (.new .x86_64)
    rw [step] at step'
    rw [run] at run'
    cases step'
    cases run'
    rcases different with memory | ⟨r, register⟩
    · exact memory rfl
    · exact register rfl
  · intro ahead m
    exact textFollows_of_lines rfl access.narrow (fun l member => readLine?_text (access.plain l member))
      (runLines_of_not_overtaken m access ahead)

/-- The stack pointer stored through itself: pushed below its old value it is overtaken, stored before it moves it is
not. -/
theorem stack_pointer_stored_through_itself :
    let below := Instr.store X86.rsp (.preIndex X86.rsp (-8))
    let after := Instr.store X86.rsp (.postIndex X86.rsp (-8))
    (Access below ∧ Overtaken below ∧
      Isa.x86_64.render below = ["leaq -8(%rsp), %rsp", "movq %rsp, (%rsp)"] ∧
      ¬ ∀ m, TextFollows .x86_64 readLine? Line.effect? m below) ∧
    Access after ∧ ¬ Overtaken after ∧
      Isa.x86_64.render after = ["movq %rsp, (%rsp)", "leaq -8(%rsp), %rsp"] ∧
      ∀ m, TextFollows .x86_64 readLine? Line.effect? m after := by
  intro below after
  have pointer : Gp64 X86.rsp := ⟨rfl, by decide⟩
  have first : Access below := ⟨pointer.named, pointer⟩
  have second : Access after := ⟨pointer.named, pointer⟩
  have overtaken : Overtaken below := ⟨rfl, rfl, by decide⟩
  have ahead : ¬ Overtaken after := fun wrong => nomatch wrong.1
  refine ⟨⟨first, overtaken, by decide, ?_⟩, second, ahead, by decide, ?_⟩
  · intro follows
    exact (access_lines_follow_unless_overtaken first).1.mp follows overtaken
  · exact (access_lines_follow_unless_overtaken second).1.mpr ahead

end Asm.Att
end CallFrame
