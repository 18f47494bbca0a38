import CallFrame.Proofs.Lifecycle

/-! Calls on one frame in any order. A call that fails is caught, and the next goes on from what it left behind. -/
namespace CallFrame

theorem Code.stackShift_append (sp : Register) (c : Code) (code : List Instr) :
    (c.append code).stackShift sp = c.stackShift sp + CallFrame.stackShift sp code := by
  unfold Code.stackShift
  rw [Code.toList_append, CallFrame.stackShift_append]

theorem SavePair.check_ne_outOfOrder {isa : Isa} {p : SavePair} {v : Violation} (bad : p.check isa = .error v)
    (name : String) (phase : Phase) : v ≠ .outOfOrder name phase := by
  rw [(SavePair.check_error bad).2, SavePair.refusal]
  split
  · exact Violation.noConfusion
  · split <;> exact Violation.noConfusion

def Phase.rank : Phase → Nat
  | .idle => 0
  | .preserved => 1
  | .remapped => 2
  | .restored => 3

/-- The ways in which a frame can still go on. -/
def Phase.plans : Phase → List (List Frame.Operation)
  | .idle => [[.preserve, .remap, .restore], [.preserve, .restore]]
  | .preserved => [[.remap, .restore], [.restore]]
  | .remapped => [[.restore]]
  | .restored => [[]]

namespace Frame

variable {isa : Isa} {f : Frame} {e : Emission Code} {s : Frame × Emission Code}

theorem stackShift_padAll (isa : Isa) (bytes : UInt32) :
    stackShift isa.stackPointer (padAll isa bytes) = -(bytes.toNat : Int) := by
  unfold padAll
  split
  · rename_i none
    rw [none]
    rfl
  · exact isa.stackShift_padCode bytes

theorem stackShift_unpadAll (isa : Isa) (bytes : UInt32) :
    stackShift isa.stackPointer (unpadAll isa bytes) = bytes.toNat := by
  unfold unpadAll
  split
  · rename_i none
    rw [none]
    rfl
  · exact isa.stackShift_unpadCode bytes

/-! ### Calls -/

/-- A call on a frame: the states before it and after it, and the fault that it ended in, if any. -/
structure Call where
  op : Operation
  before : Frame × Emission Code
  fault : Option Fault
  after : Frame × Emission Code

def Operation.call (isa : Isa) (op : Operation) (s : Frame × Emission Code) : Call :=
  match op.perform isa s with
  | .ok _ t => ⟨op, s, none, t⟩
  | .error fault t => ⟨op, s, some fault, t⟩

def calls (isa : Isa) : List Operation → Frame × Emission Code → List Call
  | [], _ => []
  | op :: ops, s => op.call isa s :: calls isa ops (op.call isa s).after

def succeeded (log : List Call) : List Operation := (log.filter (·.fault.isNone)).map Call.op

theorem call_ok (op : Operation) {t : Frame × Emission Code} (done : op.perform isa s = .ok () t) :
    op.call isa s = ⟨op, s, none, t⟩ := by
  rw [Operation.call, done]

theorem call_error (op : Operation) {fault : Fault} {t : Frame × Emission Code}
    (failed : op.perform isa s = .error fault t) : op.call isa s = ⟨op, s, some fault, t⟩ := by
  rw [Operation.call, failed]

/-! ### One call -/

def Operation.target : Operation → Phase
  | .preserve => .preserved
  | .remap => .remapped
  | .restore => .restored

theorem target_ne_idle (op : Operation) : op.target ≠ .idle := by
  cases op <;> decide

def Preservable (isa : Isa) (pairs : List SavePair) : Prop :=
  ∃ checked, ChecksTo isa pairs checked ∧ slotTotal isa checked < UInt32.size

/-- What holds of a frame between calls, whatever became of its code. -/
inductive Sound (isa : Isa) (f : Frame) : Prop
  | idle (phase : f.phase = .idle) (unpadded : f.padding = 0) (start : f.pushed = 0 ∨ ¬ Preservable isa f.pairs)
  | held (checked : List CheckedPair) (phase : f.phase = .preserved ∨ f.phase = .remapped)
      (checks : ChecksTo isa f.pairs checked) (count : f.pushed.toNat = slotTotal isa checked)
  | restored (phase : f.phase = .restored)

def depth (f : Frame) : Int := if f.phase = .restored then 0 else f.pushed.toNat + f.padding.toNat

def Operation.report (isa : Isa) (f : Frame) : Operation → Event
  | .preserve => .preserved isa f.pairs.length f.pushed f.padding
  | .remap => .remapped isa (f.pairs.filter (!·.isIdentity)).length
  | .restore => .restored isa f.pushed f.padding

/-- All that can come of a call on a sound frame, with the code it emits and the event it notes. -/
inductive Ending (isa : Isa) : Call → Prop
  | done {op : Operation} {f f' : Frame} {e : Emission Code} {code : List Instr} {event : Event}
      (turn : op.allowedIn f.phase = true) (savable : ∀ p ∈ f.pairs, p.Savable isa) (phase : f'.phase = op.target)
      (pairs : f'.pairs = f.pairs) (bytes : op ≠ .preserve → f'.pushed = f.pushed ∧ f'.padding = f.padding)
      (shift : stackShift isa.stackPointer code = f.depth - f'.depth) (report : event = op.report isa f')
      (sound : Sound isa f') : Ending isa ⟨op, (f, e), none, (f', (e.recorded code).noted event)⟩
  | gaveUp {f f' : Frame} {e : Emission Code} {code : List Instr} {v : Violation} (idle : f.phase = .idle)
      (unsavable : ¬ ∀ p ∈ f.pairs, p.Savable isa) (other : ∀ name phase, v ≠ .outOfOrder name phase)
      (phase : f'.phase = .idle) (pairs : f'.pairs = f.pairs)
      (shift : stackShift isa.stackPointer code = f.depth - f'.depth) (sound : Sound isa f') :
      Ending isa ⟨.preserve, (f, e), some (.violation v), (f', (e.recorded code).noted (.violated v))⟩
  | overflowed {f f' : Frame} {e e' : Emission Code} (idle : f.phase = .idle) (phase : f'.phase = .idle)
      (pairs : f'.pairs = f.pairs) (sound : Sound isa f') :
      Ending isa ⟨.preserve, (f, e), some .counterOverflow, (f', e')⟩
  | refused {op : Operation} {f : Frame} {e : Emission Code} (turn : op.allowedIn f.phase = false)
      (sound : Sound isa f) :
      Ending isa ⟨op, (f, e), some (.violation (.outOfOrder op.name f.phase)),
        (f, e.noted (.violated (.outOfOrder op.name f.phase)))⟩

/-- A list that can be preserved is preserved at the first try, so a failed preserve means that it cannot. -/
theorem not_preservable_of_fault {fault : Fault} {t : Frame × Emission Code}
    (start : f.pushed = 0 ∨ ¬ Preservable isa f.pairs)
    (failed : f.pairs.forM (save isa) (f, e) = .error fault t) : ¬ Preservable isa f.pairs := by
  rintro ⟨checked, checks, fits⟩
  have fresh : f.pushed = 0 := start.resolve_right fun hopeless => hopeless ⟨checked, checks, fits⟩
  have room : f.pushed.toNat + slotTotal isa checked < UInt32.size := by
    rw [fresh, UInt32.toNat_zero, Nat.zero_add]
    exact fits
  rw [saves_checked checks room e] at failed
  cases failed

theorem preserve_ending (idle : f.phase = .idle) (unpadded : f.padding = 0)
    (start : f.pushed = 0 ∨ ¬ Preservable isa f.pairs) : Ending isa (Operation.preserve.call isa (f, e)) := by
  have turn : Operation.preserve.allowedIn f.phase = true := by rw [idle]; rfl
  rcases saves_cases isa f.pairs f e with
    ⟨checked, checks, fits, run⟩ | ⟨before, p, after, checked, v, place, checks, bad, fits, run⟩ | ⟨bytes, e', run⟩
  · have fresh : f.pushed = 0 := start.resolve_right fun hopeless => hopeless ⟨checked, checks, by omega⟩
    have total := toNat_grown fits
    rw [fresh, UInt32.toNat_zero, Nat.zero_add] at total
    rw [call_ok .preserve (preserve_of_saves idle run), padded_eq (show (f.grown _).padding = 0 from unpadded),
      Emission.recorded_recorded]
    refine .done turn checks.savable rfl rfl (fun other => (other rfl).elim) ?_ rfl
      (.held checked (.inl rfl) checks total)
    rw [CallFrame.stackShift_append, stackShift_saveAll checks.sound, stackShift_padAll]
    simp only [depth, idle, unpadded, fresh, total, reduceCtorEq, if_false, UInt32.toNat_zero]
    omega
  · have hopeless := not_preservable_of_fault start run
    have unsavable : ¬ ∀ p ∈ f.pairs, p.Savable isa := by
      intro all
      exact (SavePair.check_error bad).1 (all p (by simp [place]))
    have total := toNat_grown fits
    have stays : (f.grown (slotTotal isa checked)).phase = .idle := idle
    have bare : (f.grown (slotTotal isa checked)).padding = 0 := unpadded
    rw [call_error .preserve (preserve_of_fault idle run)]
    refine .gaveUp idle unsavable (SavePair.check_ne_outOfOrder bad) stays rfl ?_ (.idle stays bare (.inr hopeless))
    rw [stackShift_saveAll checks.sound]
    simp only [depth, idle, stays, unpadded, bare, total, reduceCtorEq, if_false]
    omega
  · have hopeless := not_preservable_of_fault start run
    rw [call_error .preserve (preserve_of_fault idle run)]
    exact .overflowed idle idle rfl (.idle idle unpadded (.inr hopeless))

theorem remap_ending {checked : List CheckedPair} (turn : f.phase = .preserved) (checks : ChecksTo isa f.pairs checked)
    (count : f.pushed.toNat = slotTotal isa checked) : Ending isa (Operation.remap.call isa (f, e)) := by
  rw [call_ok .remap (remap_checked turn checks e)]
  refine .done (by rw [turn]; rfl) checks.savable rfl rfl (fun _ => ⟨rfl, rfl⟩) ?_ rfl
    (.held checked (.inr rfl) checks count)
  rw [stackShift_moveAll]
  simp only [depth, turn, reduceCtorEq, if_false]
  omega

theorem restore_ending {checked : List CheckedPair} (phase : f.phase = .preserved ∨ f.phase = .remapped)
    (checks : ChecksTo isa f.pairs checked) (count : f.pushed.toNat = slotTotal isa checked) :
    Ending isa (Operation.restore.call isa (f, e)) := by
  have turn : Operation.restore.allowedIn f.phase = true := by rcases phase with phase | phase <;> rw [phase] <;> rfl
  have live : f.phase ≠ .restored := by rcases phase with phase | phase <;> rw [phase] <;> decide
  rw [call_ok .restore (restore_checked turn checks count e)]
  refine .done turn checks.savable rfl rfl (fun _ => ⟨rfl, rfl⟩) ?_ rfl (.restored rfl)
  -- The padding is dropped, and the reloads add back what the saves took.
  rw [CallFrame.stackShift_append, stackShift_unpadAll, stackShift_reloadAll checks.sound]
  simp only [depth, live, count, if_true, if_false]
  omega

theorem call_ending (op : Operation) (sound : Sound isa f) (e : Emission Code) :
    Ending isa (op.call isa (f, e)) := by
  by_cases turn : op.allowedIn f.phase = true
  · cases sound with
    | idle phase unpadded start =>
      cases op with
      | preserve => exact preserve_ending phase unpadded start
      | remap | restore => rw [phase] at turn; cases turn
    | held checked phase checks count =>
      cases op with
      | preserve => rcases phase with phase | phase <;> rw [phase] at turn <;> cases turn
      | remap =>
        rcases phase with phase | phase
        · exact remap_ending phase checks count
        · rw [phase] at turn; cases turn
      | restore => exact restore_ending phase checks count
    | restored phase => cases op <;> rw [phase] at turn <;> cases turn
  · have turn := Bool.eq_false_iff.mpr turn
    rw [call_error op (perform_out_of_turn turn)]
    exact .refused turn sound

/-! ### One call with its account -/

/-- What holds of a frame and its code between calls. -/
inductive Standing (isa : Isa) (f : Frame) (code : Code) : Prop
  | idle (phase : f.phase = .idle) (unpadded : f.padding = 0)
      (start : f.pushed = 0 ∨ ¬ ∀ p ∈ f.pairs, p.Savable isa)
      (shift : code.stackShift isa.stackPointer = -(f.pushed.toNat : Int))
  | held (checked : List CheckedPair) (phase : f.phase = .preserved ∨ f.phase = .remapped)
      (checks : ChecksTo isa f.pairs checked) (count : f.pushed.toNat = slotTotal isa checked)
      (shift : code.stackShift isa.stackPointer = -(f.pushed.toNat + f.padding.toNat : Int))
  | restored (phase : f.phase = .restored) (shift : code.stackShift isa.stackPointer = 0)

/-- All that can come of a call as long as the bytes can be counted. -/
inductive Outcome (isa : Isa) : Call → Prop
  | advanced {op : Operation} {s t : Frame × Emission Code} (turn : op.allowedIn s.1.phase = true)
      (savable : ∀ p ∈ s.1.pairs, p.Savable isa) (phase : t.1.phase = op.target) (pairs : t.1.pairs = s.1.pairs)
      (standing : Standing isa t.1 t.2.sink) : Outcome isa ⟨op, s, none, t⟩
  | stuck {op : Operation} {s t : Frame × Emission Code} {v : Violation} (turn : op.allowedIn s.1.phase = true)
      (unsavable : ¬ ∀ p ∈ s.1.pairs, p.Savable isa) (other : ∀ name phase, v ≠ .outOfOrder name phase)
      (phase : t.1.phase = s.1.phase) (pairs : t.1.pairs = s.1.pairs) (standing : Standing isa t.1 t.2.sink) :
      Outcome isa ⟨op, s, some (.violation v), t⟩
  | refused {op : Operation} {s : Frame × Emission Code} {e : Emission Code} (turn : op.allowedIn s.1.phase = false)
      (sink : e.sink = s.2.sink) (standing : Standing isa s.1 s.2.sink) :
      Outcome isa ⟨op, s, some (.violation (.outOfOrder op.name s.1.phase)), (s.1, e)⟩

theorem op_call (isa : Isa) (op : Operation) (s : Frame × Emission Code) : (op.call isa s).op = op := by
  unfold Operation.call
  split <;> rfl

theorem before_call (isa : Isa) (op : Operation) (s : Frame × Emission Code) : (op.call isa s).before = s := by
  unfold Operation.call
  split <;> rfl

theorem Standing.sound {code : Code} (standing : Standing isa f code) : Sound isa f := by
  cases standing with
  | idle phase unpadded start shift =>
    refine .idle phase unpadded (start.imp_right fun unsavable => ?_)
    rintro ⟨checked, checks, -⟩
    exact unsavable checks.savable
  | held checked phase checks count shift => exact .held checked phase checks count
  | restored phase shift => exact .restored phase

theorem Standing.accounts {code : Code} (standing : Standing isa f code) :
    (f.phase = .idle → f.padding = 0) ∧
      code.stackShift isa.stackPointer =
        if f.phase = .restored then 0 else -(f.pushed.toNat + f.padding.toNat : Int) := by
  cases standing with
  | idle phase unpadded start shift =>
    refine ⟨fun _ => unpadded, ?_⟩
    rw [phase, if_neg (by decide), shift, unpadded, UInt32.toNat_zero]
    omega
  | held checked phase checks count shift =>
    refine ⟨?_, ?_⟩
    · intro idle
      rw [idle] at phase
      rcases phase with phase | phase <;> cases phase
    · rw [if_neg (by rcases phase with phase | phase <;> rw [phase] <;> decide), shift]
  | restored phase shift =>
    refine ⟨?_, by rw [if_pos phase, shift]⟩
    intro idle
    rw [idle] at phase
    cases phase

theorem Standing.shift_eq {code : Code} (standing : Standing isa f code) :
    code.stackShift isa.stackPointer = -f.depth := by
  rw [standing.accounts.2, depth]
  split
  · rfl
  · rfl

theorem Sound.standing {code : Code} (sound : Sound isa f)
    (start : f.phase = .idle → f.pushed = 0 ∨ ¬ ∀ p ∈ f.pairs, p.Savable isa)
    (account : code.stackShift isa.stackPointer = -f.depth) : Standing isa f code := by
  unfold depth at account
  cases sound with
  | idle phase unpadded _ =>
    rw [phase, unpadded, if_neg (by decide), UInt32.toNat_zero] at account
    exact .idle phase unpadded (start phase) (by omega)
  | held checked phase checks count =>
    rw [if_neg (by rcases phase with phase | phase <;> rw [phase] <;> decide)] at account
    exact .held checked phase checks count account
  | restored phase =>
    rw [if_pos phase] at account
    exact .restored phase account

theorem call_outcome (op : Operation) (standing : Standing isa s.1 s.2.sink)
    (counted : (op.call isa s).fault ≠ some .counterOverflow) : Outcome isa (op.call isa s) := by
  obtain ⟨f, e⟩ := s
  have ending := call_ending op standing.sound e
  have before := before_call isa op (f, e)
  have account := standing.shift_eq
  generalize op.call isa (f, e) = c at ending before counted
  cases ending with
  | done turn savable phase pairs bytes shift report sound =>
    cases before
    refine .advanced turn savable phase pairs (sound.standing (fun idle => ?_) ?_)
    · exact (target_ne_idle _ (phase.symm.trans idle)).elim
    · simp only [Emission.sink_noted, Emission.sink_recorded, Code.stackShift_append, account, shift]
      omega
  | gaveUp idle unsavable other phase pairs shift sound =>
    cases before
    refine .stuck (by rw [idle]; rfl) unsavable other (phase.trans idle.symm) pairs (sound.standing (fun _ => ?_) ?_)
    · rw [pairs]
      exact .inr unsavable
    · simp only [Emission.sink_noted, Emission.sink_recorded, Code.stackShift_append, account, shift]
      omega
  | overflowed => exact (counted rfl).elim
  | refused turn sound =>
    cases before
    exact .refused turn rfl standing

namespace Outcome

variable {c : Call}

theorem standing (outcome : Outcome isa c) : Standing isa c.after.1 c.after.2.sink := by
  cases outcome with
  | advanced _ _ _ _ standing => exact standing
  | stuck _ _ _ _ _ standing => exact standing
  | refused _ sink standing =>
    rw [← sink] at standing
    exact standing

theorem pairs (outcome : Outcome isa c) : c.after.1.pairs = c.before.1.pairs := by
  cases outcome with
  | advanced _ _ _ pairs _ => exact pairs
  | stuck _ _ _ _ pairs _ => exact pairs
  | refused _ _ _ => rfl

theorem succeeds_iff (outcome : Outcome isa c) :
    c.fault = none ↔ c.op.allowedIn c.before.1.phase = true ∧ ∀ p ∈ c.before.1.pairs, p.Savable isa := by
  cases outcome with
  | advanced turn savable _ _ _ => exact ⟨fun _ => ⟨turn, savable⟩, fun _ => rfl⟩
  | stuck _ unsavable _ _ _ _ => exact ⟨nofun, fun both => (unsavable both.2).elim⟩
  | refused turn _ _ =>
    refine ⟨nofun, fun both => ?_⟩
    rw [both.1] at turn
    cases turn

theorem unchanged (outcome : Outcome isa c) {name : String} {phase : Phase}
    (refused : c.fault = some (.violation (.outOfOrder name phase))) :
    c.after.1 = c.before.1 ∧ c.after.2.sink = c.before.2.sink := by
  cases outcome with
  | advanced _ _ _ _ _ => cases refused
  | stuck _ _ other _ _ _ =>
    cases refused
    exact (other name phase rfl).elim
  | refused _ sink _ => exact ⟨rfl, sink⟩

theorem moves (outcome : Outcome isa c) :
    (c.fault = none ∧ c.op.allowedIn c.before.1.phase = true ∧ c.after.1.phase = c.op.target) ∨
      (c.fault ≠ none ∧ c.after.1.phase = c.before.1.phase) := by
  cases outcome with
  | advanced turn _ phase _ _ => exact .inl ⟨rfl, turn, phase⟩
  | stuck _ _ _ phase _ _ => exact .inr ⟨nofun, phase⟩
  | refused _ _ _ => exact .inr ⟨nofun, rfl⟩

end Outcome

/-! ### The order of phases -/

theorem turn_cases {op : Operation} {phase : Phase} (turn : op.allowedIn phase = true) :
    (op = .preserve ∧ phase = .idle) ∨ (op = .remap ∧ phase = .preserved) ∨
      (op = .restore ∧ (phase = .preserved ∨ phase = .remapped)) := by
  cases op <;> cases phase <;> simp [Operation.allowedIn] at turn ⊢

theorem rank_lt_target {op : Operation} {phase : Phase} (turn : op.allowedIn phase = true) :
    phase.rank < op.target.rank := by
  rcases turn_cases turn with ⟨rfl, rfl⟩ | ⟨rfl, rfl⟩ | ⟨rfl, rfl | rfl⟩ <;> decide

theorem cons_mem_plans {op : Operation} {phase : Phase} {plan : List Operation} (turn : op.allowedIn phase = true)
    (member : plan ∈ op.target.plans) : op :: plan ∈ phase.plans := by
  rcases turn_cases turn with ⟨rfl, rfl⟩ | ⟨rfl, rfl⟩ | ⟨rfl, rfl | rfl⟩ <;>
    simpa [Operation.target, Phase.plans] using member

/-! ### Sequences of calls -/

theorem calls_outcome {ops : List Operation} (standing : Standing isa s.1 s.2.sink)
    (counted : ∀ c ∈ calls isa ops s, c.fault ≠ some .counterOverflow) :
    ∀ c ∈ calls isa ops s, Outcome isa c ∧ c.before.1.pairs = s.1.pairs := by
  induction ops generalizing s with
  | nil => simp [calls]
  | cons op ops ih =>
    obtain ⟨first, others⟩ := List.forall_mem_cons.mp counted
    have outcome := call_outcome op standing first
    refine List.forall_mem_cons.mpr ⟨⟨outcome, by rw [before_call]⟩, ?_⟩
    intro c member
    obtain ⟨later, pairs⟩ := ih outcome.standing others c member
    exact ⟨later, by rw [pairs, outcome.pairs, before_call]⟩

/-- What goes through is the beginning of a plan that was open at the start. -/
theorem succeeded_prefix {ops : List Operation} (standing : Standing isa s.1 s.2.sink)
    (counted : ∀ c ∈ calls isa ops s, c.fault ≠ some .counterOverflow) :
    ∃ plan ∈ s.1.phase.plans, succeeded (calls isa ops s) <+: plan := by
  induction ops generalizing s with
  | nil =>
    obtain ⟨plan, member⟩ : ∃ plan, plan ∈ s.1.phase.plans := by
      cases s.1.phase <;> exact ⟨_, List.mem_cons_self⟩
    exact ⟨plan, member, List.nil_prefix⟩
  | cons op ops ih =>
    obtain ⟨first, others⟩ := List.forall_mem_cons.mp counted
    have outcome := call_outcome op standing first
    obtain ⟨plan, member, order⟩ := ih outcome.standing others
    have moved := outcome.moves
    rw [op_call, before_call] at moved
    rcases moved with ⟨done, turn, phase⟩ | ⟨failed, phase⟩
    · rw [phase] at member
      refine ⟨op :: plan, cons_mem_plans turn member, ?_⟩
      simpa [succeeded, calls, done, op_call] using order
    · rw [phase] at member
      refine ⟨plan, member, ?_⟩
      simpa [succeeded, calls, failed] using order

theorem phases_forward {ops : List Operation} (standing : Standing isa s.1 s.2.sink)
    (counted : ∀ c ∈ calls isa ops s, c.fault ≠ some .counterOverflow) :
    (s :: (calls isa ops s).map Call.after).Pairwise (·.1.phase.rank ≤ ·.1.phase.rank) := by
  induction ops generalizing s with
  | nil => simp [calls]
  | cons op ops ih =>
    obtain ⟨first, others⟩ := List.forall_mem_cons.mp counted
    have outcome := call_outcome op standing first
    have rest := ih outcome.standing others
    have forward : s.1.phase.rank ≤ (op.call isa s).after.1.phase.rank := by
      have moved := outcome.moves
      rw [before_call] at moved
      rcases moved with ⟨-, turn, phase⟩ | ⟨-, phase⟩
      · rw [phase]
        exact Nat.le_of_lt (rank_lt_target turn)
      · exact Nat.le_of_eq (congrArg Phase.rank phase.symm)
    refine List.pairwise_cons.mpr ⟨?_, rest⟩
    intro t member
    rcases List.mem_cons.mp member with rfl | later
    · exact forward
    · exact Nat.le_trans forward (List.rel_of_pairwise_cons rest later)

end Frame

open CallFrame.Frame

/-- Calls in any order on one frame, over a recording that starts empty. -/
theorem calls_keep_account (isa : Isa) (pairs : List SavePair) (ops : List Operation)
    (counted : ∀ c ∈ calls isa ops ({ pairs }, { sink := {} }), c.fault ≠ some .counterOverflow) :
    let log := calls isa ops ({ pairs }, { sink := {} })
    let states := (({ pairs }, { sink := {} }) : Frame × Emission Code) :: log.map Call.after
    (succeeded log).Nodup ∧
      (succeeded log <+: [.preserve, .remap, .restore] ∨ succeeded log <+: [.preserve, .restore]) ∧
      (∀ c ∈ log, c.fault = none ↔ c.op.allowedIn c.before.1.phase = true ∧ ∀ p ∈ pairs, p.Savable isa) ∧
      states.Pairwise (·.1.phase.rank ≤ ·.1.phase.rank) ∧
      (∀ c ∈ log, ∀ name phase, c.fault = some (.violation (.outOfOrder name phase)) →
        c.after.1 = c.before.1 ∧ c.after.2.sink = c.before.2.sink) ∧
      ∀ s ∈ states, (s.1.phase = .idle → s.1.padding = 0) ∧
        s.2.sink.stackShift isa.stackPointer =
          if s.1.phase = .restored then 0 else -(s.1.pushed.toNat + s.1.padding.toNat : Int) := by
  have start : Standing isa { pairs } ({} : Code) := .idle rfl rfl (.inl rfl) rfl
  intro log states
  have outcomes := calls_outcome start counted
  obtain ⟨plan, open_, order⟩ := succeeded_prefix start counted
  have plans : plan = [.preserve, .remap, .restore] ∨ plan = [.preserve, .restore] := by
    simpa [Phase.plans] using open_
  refine ⟨?_, ?_, ?_, phases_forward start counted, ?_, ?_⟩
  · apply order.sublist.nodup
    rcases plans with rfl | rfl <;> decide
  · rcases plans with rfl | rfl
    · exact .inl order
    · exact .inr order
  · intro c member
    obtain ⟨outcome, same⟩ := outcomes c member
    rw [outcome.succeeds_iff, same]
  · intro c member name phase refused
    exact (outcomes c member).1.unchanged refused
  · intro s member
    rcases List.mem_cons.mp member with rfl | later
    · exact start.accounts
    · obtain ⟨c, called, rfl⟩ := List.mem_map.mp later
      exact (outcomes c called).1.standing.accounts

/-- First every operation is tried in and out of its turn. Then a preserve gives up midway and keeps what it pushed, the
next one pushes it again, and nothing that follows has its turn. -/
theorem calls_keep_account_in_life_and_failure :
    (let ops : List Operation := [.restore, .preserve, .preserve, .remap, .remap, .restore, .preserve]
    let log := calls .x86_64 ops ({ pairs := [.ofRegisters X86.rbx X86.rcx] }, { sink := {} })
    (∀ c ∈ log, c.fault ≠ some .counterOverflow) ∧ succeeded log = [.preserve, .remap, .restore] ∧
      log.map (·.after.1.phase) = [.idle, .preserved, .preserved, .remapped, .remapped, .restored, .restored] ∧
      ∀ c ∈ log, c.after.2.sink.stackShift Isa.x86_64.stackPointer =
        if c.after.1.phase = .restored then 0 else -(c.after.1.pushed.toNat + c.after.1.padding.toNat : Int)) ∧
    (let ops : List Operation := [.preserve, .restore, .preserve, .remap]
    let pairs : List SavePair := [.ofRegisters X86.rbx X86.rcx, .ofRegisters (.gp32 1) (.gp32 1)]
    let log := calls .x86_64 ops ({ pairs }, { sink := {} })
    (∀ c ∈ log, c.fault ≠ some .counterOverflow) ∧ succeeded log = [] ∧
      log.map (·.after.1.phase) = [.idle, .idle, .idle, .idle] ∧ log.map (·.after.1.pushed) = [8, 8, 16, 16] ∧
      log.map (·.after.2.sink.stackShift Isa.x86_64.stackPointer) = [-8, -8, -16, -16]) := by
  have account : ∀ pairs ops, (∀ c ∈ calls .x86_64 ops ({ pairs }, { sink := {} }), c.fault ≠ some .counterOverflow) →
      ∀ c ∈ calls .x86_64 ops ({ pairs }, { sink := {} }), c.after.2.sink.stackShift Isa.x86_64.stackPointer =
        if c.after.1.phase = .restored then 0 else -(c.after.1.pushed.toNat + c.after.1.padding.toNat : Int) := by
    intro pairs ops counted c member
    obtain ⟨-, -, -, -, -, accounts⟩ := calls_keep_account .x86_64 pairs ops counted
    exact (accounts c.after (List.mem_cons_of_mem _ (List.mem_map_of_mem member))).2
  constructor
  · intro ops log
    have counted : ∀ c ∈ log, c.fault ≠ some .counterOverflow := by decide
    exact ⟨counted, by decide, by decide, account _ ops counted⟩
  · intro ops pairs log
    have counted : ∀ c ∈ log, c.fault ≠ some .counterOverflow := by decide
    refine ⟨counted, by decide, by decide, by decide, ?_⟩
    rw [List.map_congr_left (account pairs ops counted)]
    decide

end CallFrame
