import CallFrame.Proofs.Footprint

/-! Remapping as a parallel copy, as far as copies that run one after another are one. -/
namespace CallFrame

variable {isa : Isa} {pairs : List SavePair} {checked : List CheckedPair} {c : Cell}

def SavePair.MovesInto (c : Cell) (p : SavePair) : Prop := p.source ≠ p.destination ∧ p.Into c

instance (c : Cell) (p : SavePair) : Decidable (p.MovesInto c) := inferInstanceAs (Decidable (_ ∧ _))

theorem SavePair.movesInto_ofRegisters {source destination : Register} :
    (SavePair.ofRegisters source destination).MovesInto c ↔ source ≠ destination ∧ destination.cell = c := by
  simp [MovesInto, Into, ofRegisters, Location.register?]

/-- The pair from `source` into `destination` stands in the list, with no copy before it into the cell of its source
and no copy after it into the cell of its destination. -/
def Undisturbed (pairs : List SavePair) (source destination : Register) : Prop :=
  ∃ before after, pairs = before ++ .ofRegisters source destination :: after ∧
    (∀ p ∈ before, ¬ p.MovesInto source.cell) ∧ ∀ p ∈ after, ¬ p.MovesInto destination.cell

theorem ChecksTo.length_moveAll (checks : ChecksTo isa pairs checked) :
    (moveAll checked).length = pairs.countP fun p => p.source ≠ p.destination := by
  rw [checks.pairs_eq, List.countP_map, moveAll, List.length_map, List.countP_eq_length_filter]
  simp [Function.comp_def, SavePair.ofRegisters]

namespace Machine

theorem cells_effects_moveAll (m : Machine) (checks : ChecksTo isa pairs checked)
    (others : ∀ p ∈ pairs, ¬ p.MovesInto c) : (m.effects isa (moveAll checked)).cells c = m.cells c := by
  apply m.cells_effects
  intro written
  obtain ⟨d, present, moved, into⟩ := mem_writtenCells_moveAll.mp written
  exact others _ (checks.mem_pairs present) (SavePair.movesInto_ofRegisters.mpr ⟨moved, into⟩)

theorem effects_moveAll_append (m : Machine) (first second : List CheckedPair) :
    m.effects isa (moveAll (first ++ second)) = (m.effects isa (moveAll first)).effects isa (moveAll second) := by
  rw [← effects_append]
  simp [moveAll]

/-- The first copy of a list gives its destination the value of its source, if it is a copy at all; if not, the two are
one register. -/
theorem get_effects_moveAll_cons (m : Machine) {d : CheckedPair} (sound : d.Sound isa) {after : List SavePair}
    {back : List CheckedPair} (checks : ChecksTo isa after back)
    (later : ∀ p ∈ after, ¬ p.MovesInto d.destination.cell) :
    (m.effects isa (moveAll (d :: back))).get d.destination = m.get d.source := by
  by_cases same : d.source = d.destination
  · rw [moveAll_cons_same back same, get_congr (cells_effects_moveAll m checks later), same]
  · have written : (m.set d.destination (m.get d.source)).get d.destination = m.get d.source := by
      rw [get_set_same m _ rfl, Nat.min_self, ← sound.cls, lowBits_get]
    rw [moveAll_cons_other back same, effects_cons, get_congr (cells_effects_moveAll _ checks later)]
    exact written

theorem get_effects_moveAll (m : Machine) (checks : ChecksTo isa pairs checked) {source destination : Register}
    (undisturbed : Undisturbed pairs source destination) :
    (m.effects isa (moveAll checked)).get destination = m.get source := by
  obtain ⟨before, after, rfl, earlier, later⟩ := undisturbed
  have sound := checks.sound
  obtain ⟨front, d, back, rfl, ahead, behind, rfl, rfl⟩ := checks.split
  rw [effects_moveAll_append, get_effects_moveAll_cons _ (sound d (by simp)) behind later]
  exact get_congr (cells_effects_moveAll m ahead earlier)

end Machine

/-- Remapping a preserved frame, on whatever machine and behind whatever code it comes. -/
theorem remap_is_parallel_copy (isa : Isa) {pairs : List SavePair} {e e₁ : Emission Code} {f : Frame}
    (preserved : Frame.preserve isa ({ pairs }, e) = .ok () (f, e₁)) (e₂ : Emission Code) (m : Machine) :
    ∃ f' e₃ code m',
      Frame.remap isa (f, e₂) = .ok () (f', e₃) ∧
      e₃.sink.toList = e₂.sink.toList ++ code ∧
      (∀ i ∈ code, ∃ destination source, i = .mov destination source) ∧
      code.length = pairs.countP (fun p => p.source ≠ p.destination) ∧
      Machine.run isa code m = .ok () m' ∧
      (∀ source destination, Undisturbed pairs source destination → m'.get destination = m.get source) ∧
      (∀ c, (∀ p ∈ pairs, ¬ p.MovesInto c) → m'.cells c = m.cells c) ∧
      m'.memory = m.memory ∧
      m'.sp isa = m.sp isa := by
  obtain ⟨checked, checks, fits, rfl, -⟩ := Frame.saved_of_preserve preserved
  have quiet := Machine.quiet_moveAll checks.sound
  have narrow : ∀ i ∈ moveAll checked, i.writtenBytes ≤ 16 := by
    intro i member
    obtain ⟨silent, -⟩ := quiet i member
    omega
  obtain ⟨memory, sp⟩ := m.effects_quiet quiet
  refine ⟨_, _, moveAll checked, _, Frame.remap_checked rfl checks e₂, Code.toList_append _ _, ?_,
    checks.length_moveAll, m.run_of_narrow narrow, ?_, ?_, memory, sp⟩
  · intro i member
    obtain ⟨d, -, rfl⟩ := List.mem_map.mp member
    exact ⟨_, _, rfl⟩
  · intro source destination undisturbed
    exact m.get_effects_moveAll checks undisturbed
  · intro c others
    exact m.cells_effects_moveAll checks others

/-- The second pair reads what the first one has written; the first and the third get what they should. -/
theorem remap_copies_around_chain :
    let pairs : List SavePair := [.ofRegisters (A64.x 19) (A64.x 20), .ofRegisters (A64.x 20) (A64.x 21),
      .ofRegisters (A64.d 8) (A64.d 20), .ofRegisters (A64.x 22) (A64.x 22)]
    let m := (Machine.new .aarch64).set (A64.x 19) 7
    ∃ f e₁ f' e₂ code m', Frame.preserve .aarch64 ({ pairs }, ({ sink := {} } : Emission Code)) = .ok () (f, e₁) ∧
      Frame.remap .aarch64 (f, e₁) = .ok () (f', e₂) ∧ e₂.sink.toList = e₁.sink.toList ++ code ∧ code.length = 3 ∧
      Machine.run .aarch64 code m = .ok () m' ∧ m'.get (A64.x 20) = 7 ∧ m'.get (A64.d 20) = m.get (A64.d 8) ∧
      m'.cells (A64.x 22).cell = m.cells (A64.x 22).cell ∧ m'.sp .aarch64 = m.sp .aarch64 := by
  intro pairs m
  have checks : ChecksTo .aarch64 pairs [⟨A64.x 19, A64.x 20, .general⟩, ⟨A64.x 20, A64.x 21, .general⟩,
      ⟨A64.d 8, A64.d 20, .vector⟩, ⟨A64.x 22, A64.x 22, .general⟩] := rfl
  have preserved := Frame.preserve_checked checks (by decide) { sink := {} }
  obtain ⟨f', e₂, code, m', remapped, added, -, length, run, copied, kept, -, sp⟩ :=
    remap_is_parallel_copy .aarch64 preserved _ m
  have first : Undisturbed pairs (A64.x 19) (A64.x 20) := ⟨[], pairs.drop 1, rfl, by decide, by decide⟩
  have third : Undisturbed pairs (A64.d 8) (A64.d 20) := ⟨pairs.take 2, pairs.drop 3, rfl, by decide, by decide⟩
  exact ⟨_, _, f', e₂, code, m', preserved, remapped, added, length, run, copied _ _ first, copied _ _ third,
    kept _ (by decide), sp⟩

/-- A chain: the last register gets the value of the first. -/
example : ((Machine.new .aarch64).set (A64.x 19) 7 |>.effects .aarch64
    (moveAll [⟨A64.x 19, A64.x 20, .general⟩, ⟨A64.x 20, A64.x 21, .general⟩])).get (A64.x 21) = 7 := by
  decide

end CallFrame
