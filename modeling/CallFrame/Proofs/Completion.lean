import CallFrame.Proofs.CallSequence

/-! A preserved frame was preserved in one go, so remapping and restoring it cannot fail. -/
namespace CallFrame

theorem Emission.drop_journal_noted {σ : Type} (e : Emission σ) (event : Event) :
    (e.noted event).journal.toList.drop e.journal.size = [event] := by
  simp [Emission.noted]

namespace Frame

variable {isa : Isa} {f : Frame} {e : Emission Code} {pairs : List SavePair} {log : List Call}

theorem Sound.checked (sound : Sound isa f) (turn : f.phase = .preserved ∨ f.phase = .remapped) :
    ∃ checked, ChecksTo isa f.pairs checked ∧ f.pushed.toNat = slotTotal isa checked := by
  cases sound with
  | idle phase _ _ => rw [phase] at turn; rcases turn with turn | turn <;> cases turn
  | held checked _ checks count => exact ⟨checked, checks, count⟩
  | restored phase => rw [phase] at turn; rcases turn with turn | turn <;> cases turn

def Call.events (c : Call) : List Event := c.after.2.journal.toList.drop c.before.2.journal.size

namespace Ending

variable {c : Call}

theorem sound (ending : Ending isa c) : Sound isa c.after.1 := by
  cases ending with
  | done _ _ _ _ _ _ _ sound => exact sound
  | gaveUp _ _ _ _ _ _ sound => exact sound
  | overflowed _ _ _ sound => exact sound
  | refused _ sound => exact sound

theorem same_pairs (ending : Ending isa c) : c.after.1.pairs = c.before.1.pairs := by
  cases ending with
  | done _ _ _ pairs _ _ _ _ => exact pairs
  | gaveUp _ _ _ _ pairs _ _ => exact pairs
  | overflowed _ _ pairs _ => exact pairs
  | refused _ _ => rfl

end Ending

/-- Every operation that succeeded lies behind the frame, and its report still describes the frame. -/
def Reported (isa : Isa) (log : List Call) (f : Frame) : Prop :=
  ∀ c ∈ log, c.fault = none → c.op.target.rank ≤ f.phase.rank ∧ c.events = [c.op.report isa f]

theorem target_rank_pos (op : Operation) : 0 < op.target.rank := by
  cases op <;> decide

theorem Reported.none_succeeded (reported : Reported isa log f) (idle : f.phase = .idle) :
    ∀ c ∈ log, c.fault ≠ none := by
  intro c member succeeded
  have rank := (reported c member succeeded).1
  rw [idle] at rank
  exact Nat.not_lt.mpr rank (target_rank_pos c.op)

theorem Reported.failed {c : Call} {f' : Frame} (reported : Reported isa log f) (idle : f.phase = .idle)
    (failed : c.fault ≠ none) : Reported isa (c :: log) f' := by
  intro d member succeeded
  rcases List.mem_cons.mp member with rfl | earlier
  · exact (failed succeeded).elim
  · exact (reported.none_succeeded idle d earlier succeeded).elim

theorem report_congr {f' : Frame} (pairs : f'.pairs = f.pairs) (pushed : f'.pushed = f.pushed)
    (padding : f'.padding = f.padding) (op : Operation) : op.report isa f' = op.report isa f := by
  cases op <;> simp only [Operation.report, pairs, pushed, padding]

theorem Reported.call {c : Call} (reported : Reported isa log c.before.1) (ending : Ending isa c) :
    Reported isa (c :: log) c.after.1 := by
  cases ending with
  | @done op f f' e code event turn savable phase pairs bytes shift report sound =>
    refine List.forall_mem_cons.mpr ⟨fun _ => ⟨Nat.le_of_eq (by rw [phase]), ?_⟩, ?_⟩
    · rw [← report]
      exact Emission.drop_journal_noted (e.recorded code) event
    · intro d member succeeded
      -- An earlier success rules out that this is the preserve, so the bytes are the same as before.
      have later : op ≠ .preserve := by
        rintro rfl
        have idle : f.phase = .idle := by
          rcases turn_cases turn with ⟨-, idle⟩ | ⟨other, -⟩ | ⟨other, -⟩
          · exact idle
          · cases other
          · cases other
        exact reported.none_succeeded idle d member succeeded
      obtain ⟨pushed, padding⟩ := bytes later
      obtain ⟨rank, events⟩ := reported d member succeeded
      refine ⟨?_, by rw [report_congr pairs pushed padding]; exact events⟩
      rw [phase]
      exact Nat.le_trans rank (Nat.le_of_lt (rank_lt_target turn))
  | gaveUp idle _ _ _ _ _ _ => exact reported.failed idle nofun
  | overflowed idle _ _ _ => exact reported.failed idle nofun
  | refused _ _ => exact List.forall_mem_cons.mpr ⟨nofun, reported⟩

/-- The states that a frame over `pairs` can reach, each with the calls that were made on it, the latest first. Between
calls the emission is its owner's, who may change it in any way. -/
inductive Reached (isa : Isa) (pairs : List SavePair) : List Call → Frame × Emission Code → Prop
  | fresh (e : Emission Code) : Reached isa pairs [] ({ pairs }, e)
  | call {log : List Call} {s : Frame × Emission Code} (before : Reached isa pairs log s) (op : Operation) :
      Reached isa pairs (op.call isa s :: log) (op.call isa s).after
  | between {log : List Call} {s : Frame × Emission Code} (before : Reached isa pairs log s) (e : Emission Code) :
      Reached isa pairs log (s.1, e)

theorem Reached.invariant {s : Frame × Emission Code} (reached : Reached isa pairs log s) :
    s.1.pairs = pairs ∧ Sound isa s.1 ∧ Reported isa log s.1 := by
  induction reached with
  | fresh e => exact ⟨rfl, .idle rfl rfl (.inl rfl), List.forall_mem_nil _⟩
  | @call log s before op ih =>
    obtain ⟨f, e⟩ := s
    obtain ⟨same, sound, reported⟩ := ih
    have ending := call_ending op sound e
    have pairs := ending.same_pairs
    rw [before_call] at pairs
    rw [← before_call isa op (f, e)] at reported
    exact ⟨pairs.trans same, ending.sound, reported.call ending⟩
  | between before e ih => exact ih

end Frame

open CallFrame.Frame

/-- In every reached state remapping and restoring succeed in their turn, and out of turn they are refused for that
reason and no other; so neither a pair nor the count of bytes ever stops them. The report of a restore carries the
bytes that the preserve reported. -/
theorem preserved_frame_completes (isa : Isa) (pairs : List SavePair) (log : List Call) (f : Frame)
    (e : Emission Code) (reached : Reached isa pairs log (f, e)) :
    (f.phase = .preserved → ∃ e', Frame.remap isa (f, e) = .ok () ({ f with phase := .remapped }, e')) ∧
      (f.phase = .preserved ∨ f.phase = .remapped →
        ∃ e', Frame.restore isa (f, e) = .ok () ({ f with phase := .restored }, e')) ∧
      (∀ fault t, Frame.remap isa (f, e) = .error fault t → fault = .violation (.outOfOrder "remap" f.phase)) ∧
      (∀ fault t, Frame.restore isa (f, e) = .error fault t → fault = .violation (.outOfOrder "restore" f.phase)) ∧
      ∀ c ∈ log, c.fault = none →
        (c.op = .preserve → c.events = [.preserved isa pairs.length f.pushed f.padding]) ∧
          (c.op = .restore → c.events = [.restored isa f.pushed f.padding]) := by
  obtain ⟨same, sound, reported⟩ := reached.invariant
  refine ⟨?_, ?_, ?_, ?_, ?_⟩
  · intro turn
    obtain ⟨checked, checks, -⟩ := sound.checked (.inl turn)
    exact ⟨_, remap_checked turn checks e⟩
  · intro turn
    obtain ⟨checked, checks, count⟩ := sound.checked turn
    have allowed : Operation.restore.allowedIn f.phase = true := by
      rcases turn with turn | turn <;> rw [turn] <;> rfl
    exact ⟨_, restore_checked allowed checks count e⟩
  · intro fault t failed
    have ending := call_ending .remap sound e
    rw [call_error .remap failed] at ending
    cases ending with
    | refused turn _ => rfl
  · intro fault t failed
    have ending := call_ending .restore sound e
    rw [call_error .restore failed] at ending
    cases ending with
    | refused turn _ => rfl
  · intro c member succeeded
    obtain ⟨-, events⟩ := reported c member succeeded
    rw [← same]
    refine ⟨?_, ?_⟩
    · intro op
      rw [events, op]
      rfl
    · intro op
      rw [events, op]
      rfl

/-- A restore out of turn, a preserve, a recording that is thrown away, and a restore: the reports agree. -/
theorem preserved_frame_completes_without_code :
    let pairs : List SavePair := [.ofRegisters X86.rbx X86.rcx, .identity (.register (X86.xmm 1))]
    let early := Operation.restore.call .x86_64 ({ pairs }, { sink := {} })
    let preserve := Operation.preserve.call .x86_64 early.after
    let restore := Operation.restore.call .x86_64 (preserve.after.1, { sink := {} })
    Reached .x86_64 pairs [restore, preserve, early] restore.after ∧
      early.fault = some (.violation (.outOfOrder "restore" .idle)) ∧
      preserve.fault = none ∧ preserve.events = [.preserved .x86_64 2 24 8] ∧
      restore.fault = none ∧ restore.events = [.restored .x86_64 24 8] := by
  intro pairs early preserve restore
  have reached : Reached .x86_64 pairs [restore, preserve, early] restore.after :=
    ((((Reached.fresh { sink := {} }).call .restore).call .preserve).between { sink := {} }).call .restore
  obtain ⟨-, -, -, -, reports⟩ := preserved_frame_completes .x86_64 pairs _ _ _ reached
  have preserved : preserve.fault = none := by decide
  have restored : restore.fault = none := by decide
  have pushed : restore.after.1.pushed = 24 := by decide
  have padding : restore.after.1.padding = 8 := by decide
  refine ⟨reached, by decide, preserved, ?_, restored, ?_⟩
  · have event := (reports preserve (by simp) preserved).1 (op_call _ _ _)
    exact event.trans (by rw [pushed, padding]; rfl)
  · have event := (reports restore (by simp) restored).2 (op_call _ _ _)
    exact event.trans (by rw [pushed, padding])

end CallFrame
