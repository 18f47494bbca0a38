import CallFrame.Frame.Lifecycle
import CallFrame.Proofs.SavePairs
import CallFrame.Sink.Code

/-! What each operation on a frame does: the state it leaves, the code it adds and how it can fail. -/
namespace CallFrame

variable {ε σ α β : Type}

theorem bind_ok {x : EStateM ε σ α} {f : α → EStateM ε σ β} {s t : σ} {a : α} (done : x s = .ok a t) :
    (x >>= f) s = f a t := by
  simp only [bind, EStateM.bind, done]

theorem bind_error {x : EStateM ε σ α} {f : α → EStateM ε σ β} {s t : σ} {fault : ε} (failed : x s = .error fault t) :
    (x >>= f) s = .error fault t := by
  simp only [bind, EStateM.bind, failed]

theorem bind_eq_ok {x : EStateM ε σ α} {f : α → EStateM ε σ β} {s t : σ} {b : β} (done : (x >>= f) s = .ok b t) :
    ∃ a s', x s = .ok a s' ∧ f a s' = .ok b t := by
  cases first : x s with
  | ok a s' =>
    rw [bind_ok first] at done
    exact ⟨a, s', rfl, done⟩
  | error fault s' =>
    rw [bind_error first] at done
    cases done

theorem optional_bind (b : Bool) (x : EStateM ε σ Unit) (f : Unit → EStateM ε σ β) :
    (if b then x >>= f else f ()) = ((if b then x else pure ()) >>= f) := by
  cases b <;> rfl

theorem Code.append_append (c : Code) (first second : List Instr) :
    (c.append first).append second = c.append (first ++ second) := by
  simp [Code.append, Array.append_assoc]

namespace Emission

def recorded (e : Emission Code) (code : List Instr) : Emission Code := { e with sink := e.sink.append code }

def noted (e : Emission σ) (event : Event) : Emission σ := { e with journal := e.journal.push event }

@[simp] theorem sink_recorded (e : Emission Code) (code : List Instr) :
    (e.recorded code).sink = e.sink.append code := rfl

@[simp] theorem sink_noted (e : Emission σ) (event : Event) : (e.noted event).sink = e.sink := rfl

@[simp] theorem recorded_recorded (e : Emission Code) (first second : List Instr) :
    (e.recorded first).recorded second = e.recorded (first ++ second) := by
  simp [recorded, Code.append_append]

@[simp] theorem recorded_nil (e : Emission Code) : e.recorded [] = e := by
  simp [recorded, Code.append_nil]

end Emission

theorem Emit.emitAll_append [Sink σ] {first second : List Instr} {e e' : Emission σ}
    (emitted : emitAll (first ++ second) e = .ok () e') :
    ∃ middle, emitAll first e = .ok () middle ∧ emitAll second middle = .ok () e' := by
  have split : (emitAll (first ++ second) : Emit σ Unit) = emitAll first >>= fun _ => emitAll second := List.forM_append
  rw [split] at emitted
  obtain ⟨_, middle, head, tail⟩ := bind_eq_ok emitted
  exact ⟨middle, head, tail⟩

namespace FrameM

theorem onEmission_ok {x : Emit σ α} {a : α} {e e' : Emission σ} (done : x e = .ok a e') (f : Frame) :
    onEmission x (f, e) = .ok a (f, e') := by
  unfold onEmission
  exact zoom_ok (s := (f, e)) done

theorem emitAll_ok [Sink σ] {code : List Instr} {e e' : Emission σ} (emitted : Emit.emitAll code e = .ok () e')
    (f : Frame) : emitAll code (f, e) = .ok () (f, e') :=
  onEmission_ok emitted f

theorem emitAll_code (code : List Instr) (f : Frame) (e : Emission Code) :
    emitAll code (f, e) = .ok () (f, e.recorded code) :=
  emitAll_ok (Emit.emitAll_code code e) f

theorem orReject_ok {x : Except Violation α} {a : α} (found : x = .ok a) (s : Frame × Emission σ) :
    orReject x s = .ok a s := by
  rw [found]
  rfl

theorem orReject_error {x : Except Violation α} {v : Violation} (bad : x = .error v) (f : Frame) (e : Emission σ) :
    orReject x (f, e) = .error (.violation v) (f, e.noted (.violated v)) := by
  rw [bad]
  rfl

theorem ofExcept_ok {x : Except Fault α} {a : α} (found : x = .ok a) (s : Frame × Emission σ) :
    (ofExcept x : FrameM σ α) s = .ok a s := by
  rw [found]
  rfl

theorem ofExcept_error {x : Except Fault α} {fault : Fault} (failed : x = .error fault) (s : Frame × Emission σ) :
    (ofExcept x : FrameM σ α) s = .error fault s := by
  rw [failed]
  rfl

end FrameM

theorem addBytes_ok {a b : UInt32} (fits : a.toNat + b.toNat < UInt32.size) : addBytes a b = .ok (a + b) := by
  rw [addBytes, if_pos fits]

theorem addBytes_overflow {a b : UInt32} (large : ¬ a.toNat + b.toNat < UInt32.size) :
    addBytes a b = .error .counterOverflow := by
  rw [addBytes, if_neg large]

def Isa.gap (isa : Isa) (pushed : UInt32) : UInt32 :=
  let excess := pushed % isa.profile.stackAlignment
  if excess = 0 then 0 else isa.profile.stackAlignment - excess

theorem Isa.alignGap_eq (isa : Isa) (pushed : UInt32) : isa.profile.alignGap pushed = .ok (isa.gap pushed) := by
  cases isa <;> rfl

def padAll (isa : Isa) (bytes : UInt32) : List Instr := if bytes = 0 then [] else isa.padCode bytes

def unpadAll (isa : Isa) (bytes : UInt32) : List Instr := if bytes = 0 then [] else isa.unpadCode bytes

namespace Frame

open FrameM

variable {isa : Isa} {f : Frame} {e : Emission Code} {pairs : List SavePair} {checked : List CheckedPair}

def grown (f : Frame) (bytes : Nat) : Frame := { f with pushed := f.pushed + UInt32.ofNat bytes }

def padded (f : Frame) (bytes : UInt32) : Frame := if bytes = 0 then f else { f with padding := bytes }

/-! ### Turns -/

theorem requireTurn_ok {op : Operation} {s : Frame × Emission σ} (allowed : op.allowedIn s.1.phase = true) :
    requireTurn op s = .ok () s := by
  have passed : (!op.allowedIn s.1.phase) = false := by rw [allowed]; rfl
  unfold requireTurn
  rw [bind_ok (show frame s = .ok s.1 s from rfl), passed]
  rfl

theorem requireTurn_error {op : Operation} {f : Frame} {e : Emission σ} (refused : op.allowedIn f.phase = false) :
    requireTurn op (f, e) = .error (.violation (.outOfOrder op.name f.phase))
      (f, e.noted (.violated (.outOfOrder op.name f.phase))) := by
  have failed : (!op.allowedIn f.phase) = true := by rw [refused]; rfl
  unfold requireTurn
  rw [bind_ok (show frame (f, e) = .ok f (f, e) from rfl), failed]
  rfl

/-- An operation out of its turn is refused before it does anything. -/
theorem perform_out_of_turn [Sink σ] {op : Operation} {f : Frame} {e : Emission σ}
    (refused : op.allowedIn f.phase = false) :
    op.perform isa (f, e) = .error (.violation (.outOfOrder op.name f.phase))
      (f, e.noted (.violated (.outOfOrder op.name f.phase))) := by
  cases op <;> exact bind_error (requireTurn_error refused)

/-! ### Saving -/

theorem save_emitted [Sink σ] {p : SavePair} {c : CheckedPair} {e e' : Emission σ} (first : p.check isa = .ok c)
    (fits : f.pushed.toNat + (isa.slotBytes c.file).toNat < UInt32.size)
    (emitted : Emit.emitAll (isa.saveCode c.source c.file) e = .ok () e') :
    save isa p (f, e) = .ok () (f.grown (isa.slotBytes c.file).toNat, e') := by
  unfold save
  rw [bind_ok (orReject_ok first _), bind_ok (emitAll_ok emitted f), bind_ok (show frame _ = .ok f _ from rfl),
    bind_ok (ofExcept_ok (addBytes_ok fits) _), grown, UInt32.ofNat_toNat]
  rfl

theorem save_checked {p : SavePair} {c : CheckedPair} (first : p.check isa = .ok c)
    (fits : f.pushed.toNat + (isa.slotBytes c.file).toNat < UInt32.size) :
    save isa p (f, e) = .ok () (f.grown (isa.slotBytes c.file).toNat, e.recorded (isa.saveCode c.source c.file)) :=
  save_emitted first fits (Emit.emitAll_code _ e)

theorem save_overflow {p : SavePair} {c : CheckedPair} (first : p.check isa = .ok c)
    (large : ¬ f.pushed.toNat + (isa.slotBytes c.file).toNat < UInt32.size) :
    save isa p (f, e) = .error .counterOverflow (f, e.recorded (isa.saveCode c.source c.file)) := by
  unfold save
  rw [bind_ok (orReject_ok first _), bind_ok (emitAll_code _ f e), bind_ok (show frame _ = .ok f _ from rfl),
    bind_error (ofExcept_error (addBytes_overflow large) _)]

theorem save_rejected [Sink σ] {p : SavePair} {v : Violation} {e : Emission σ} (bad : p.check isa = .error v) :
    save isa p (f, e) = .error (.violation v) (f, e.noted (.violated v)) := by
  unfold save
  rw [bind_error (orReject_error bad f e)]

theorem toNat_grown {n : Nat} (fits : f.pushed.toNat + n < UInt32.size) :
    (f.grown n).pushed.toNat = f.pushed.toNat + n := by
  simp only [grown, UInt32.toNat_add, UInt32.toNat_ofNat']
  simp only [UInt32.size] at fits
  omega

theorem grown_grown (f : Frame) (a b : Nat) : (f.grown a).grown b = f.grown (a + b) := by
  simp [grown, UInt32.ofNat_add, UInt32.add_assoc]

theorem grown_zero (f : Frame) : f.grown 0 = f := by
  simp [grown]

theorem saves_emitted [Sink σ] {e e' : Emission σ} (checks : ChecksTo isa pairs checked)
    (fits : f.pushed.toNat + slotTotal isa checked < UInt32.size)
    (emitted : Emit.emitAll (saveAll isa checked) e = .ok () e') :
    pairs.forM (save isa) (f, e) = .ok () (f.grown (slotTotal isa checked), e') := by
  induction pairs generalizing f e checked with
  | nil =>
    rw [checks.of_nil] at emitted ⊢
    cases emitted
    rw [slotTotal, grown_zero]
    rfl
  | cons p pairs ih =>
    obtain ⟨c, rest, rfl, first, others⟩ := checks.of_cons
    rw [saveAll_cons] at emitted
    obtain ⟨middle, head, tail⟩ := Emit.emitAll_append emitted
    simp only [slotTotal] at fits
    have room : f.pushed.toNat + (isa.slotBytes c.file).toNat < UInt32.size := by omega
    have unrolled : (p :: pairs).forM (save isa) (f, e) = (save isa p >>= fun _ => pairs.forM (save isa)) (f, e) := rfl
    rw [unrolled, bind_ok (save_emitted first room head), ih others (by rw [toNat_grown room]; omega) tail, grown_grown,
      slotTotal]

theorem saves_checked (checks : ChecksTo isa pairs checked)
    (fits : f.pushed.toNat + slotTotal isa checked < UInt32.size) (e : Emission Code) :
    pairs.forM (save isa) (f, e) = .ok () (f.grown (slotTotal isa checked), e.recorded (saveAll isa checked)) :=
  saves_emitted checks fits (Emit.emitAll_code _ e)

/-- The saves stop at the first pair that fails its check, after the ones before it. -/
theorem saves_refused [Sink σ] {before after : List SavePair} {p : SavePair} {v : Violation} {e e' : Emission σ}
    (place : pairs = before ++ p :: after) (checks : ChecksTo isa before checked) (bad : p.check isa = .error v)
    (fits : f.pushed.toNat + slotTotal isa checked < UInt32.size)
    (emitted : Emit.emitAll (saveAll isa checked) e = .ok () e') :
    pairs.forM (save isa) (f, e) =
      .error (.violation v) (f.grown (slotTotal isa checked), e'.noted (.violated v)) := by
  have split : (before ++ p :: after).forM (save isa) =
      (before.forM (save isa) >>= fun _ => (p :: after).forM (save isa) : FrameM σ Unit) := List.forM_append
  have unrolled (s : Frame × Emission σ) :
      (p :: after).forM (save isa) s = (save isa p >>= fun _ => after.forM (save isa)) s := rfl
  rw [place, split, bind_ok (saves_emitted checks fits emitted), unrolled, bind_error (save_rejected bad)]

/-- Every way in which the saves of a list can end: all are done, a pair is refused after the ones before it were
saved, or the count of bytes overflows. -/
theorem saves_cases (isa : Isa) (pairs : List SavePair) (f : Frame) (e : Emission Code) :
    (∃ checked, ChecksTo isa pairs checked ∧ f.pushed.toNat + slotTotal isa checked < UInt32.size ∧
      pairs.forM (save isa) (f, e) =
        .ok () (f.grown (slotTotal isa checked), e.recorded (saveAll isa checked))) ∨
    (∃ before p after checked v, pairs = before ++ p :: after ∧ ChecksTo isa before checked ∧
      p.check isa = .error v ∧ f.pushed.toNat + slotTotal isa checked < UInt32.size ∧
      pairs.forM (save isa) (f, e) = .error (.violation v)
        (f.grown (slotTotal isa checked), (e.recorded (saveAll isa checked)).noted (.violated v))) ∨
    ∃ bytes e', pairs.forM (save isa) (f, e) = .error .counterOverflow (f.grown bytes, e') := by
  induction pairs generalizing f e with
  | nil =>
    refine Or.inl ⟨[], rfl, f.pushed.toNat_lt, ?_⟩
    simp [slotTotal, saveAll, grown_zero]
    rfl
  | cons p pairs ih =>
    have unrolled : (p :: pairs).forM (save isa) (f, e) = (save isa p >>= fun _ => pairs.forM (save isa)) (f, e) := rfl
    rw [unrolled]
    cases first : p.check isa with
    | error v =>
      refine Or.inr (Or.inl ⟨[], p, pairs, [], v, rfl, rfl, first, f.pushed.toNat_lt, ?_⟩)
      rw [bind_error (save_rejected first)]
      simp [slotTotal, saveAll, grown_zero]
    | ok c =>
      by_cases fits : f.pushed.toNat + (isa.slotBytes c.file).toNat < UInt32.size
      · rw [bind_ok (save_checked first fits)]
        have counted := toNat_grown fits
        rcases ih (f.grown (isa.slotBytes c.file).toNat) (e.recorded (isa.saveCode c.source c.file)) with
          ⟨checked, checks, room, run⟩ | ⟨before, q, after, checked, v, split, checks, bad, room, run⟩ |
          ⟨bytes, e', run⟩
        · refine Or.inl ⟨c :: checked, ChecksTo.cons_iff.mpr ⟨first, checks⟩, by simp only [slotTotal]; omega, ?_⟩
          rw [run, grown_grown, Emission.recorded_recorded, saveAll_cons, slotTotal]
        · refine Or.inr (Or.inl ⟨p :: before, q, after, c :: checked, v, by rw [split, List.cons_append],
            ChecksTo.cons_iff.mpr ⟨first, checks⟩, bad, by simp only [slotTotal]; omega, ?_⟩)
          rw [run, grown_grown, Emission.recorded_recorded, saveAll_cons, slotTotal]
        · refine Or.inr (Or.inr ⟨(isa.slotBytes c.file).toNat + bytes, e', ?_⟩)
          rw [run, grown_grown]
      · refine Or.inr (Or.inr ⟨0, e.recorded (isa.saveCode c.source c.file), ?_⟩)
        rw [bind_error (save_overflow first fits), grown_zero]

theorem padded_eq {f : Frame} (unpadded : f.padding = 0) (bytes : UInt32) :
    f.padded bytes = { f with padding := bytes } := by
  unfold padded
  split
  · rename_i none
    rw [none, ← unpadded]
  · rfl

theorem pad_code (bytes : UInt32) (f : Frame) (e : Emission Code) :
    pad isa bytes (f, e) = .ok () (f.padded bytes, e.recorded (padAll isa bytes)) := by
  unfold pad padded padAll
  by_cases none : bytes = 0
  · simp only [none, ne_eq, not_true, if_false, if_true, Emission.recorded_nil]
    rfl
  · simp only [none, ne_eq, not_false_eq_true, if_true, if_false]
    rw [bind_ok (show comment _ (f, e) = .ok () (f, e) from rfl), bind_ok (emitAll_code _ f e)]
    rfl

theorem preserve_of_padded [Sink σ] {f' f'' : Frame} {e e' e'' : Emission σ} (idle : f.phase = .idle)
    (saved : f.pairs.forM (save isa) (f, e) = .ok () (f', e'))
    (padded : pad isa (isa.gap f'.pushed) (f', e') = .ok () (f'', e'')) :
    preserve isa (f, e) = .ok () ({ f'' with phase := .preserved },
      e''.noted (.preserved isa f.pairs.length f'.pushed (isa.gap f'.pushed))) := by
  have turn : Operation.preserve.allowedIn f.phase = true := by rw [idle]; rfl
  unfold preserve
  rw [bind_ok (requireTurn_ok turn), bind_ok (show frame _ = .ok f _ from rfl), bind_ok saved,
    bind_ok (show frame _ = .ok f' _ from rfl), bind_ok (ofExcept_ok (isa.alignGap_eq f'.pushed) _), bind_ok padded]
  rfl

theorem preserve_of_saves {f' : Frame} {e' : Emission Code} (idle : f.phase = .idle)
    (saved : f.pairs.forM (save isa) (f, e) = .ok () (f', e')) :
    preserve isa (f, e) = .ok () ({ f'.padded (isa.gap f'.pushed) with phase := .preserved },
      (e'.recorded (padAll isa (isa.gap f'.pushed))).noted
        (.preserved isa f.pairs.length f'.pushed (isa.gap f'.pushed))) :=
  preserve_of_padded idle saved (pad_code _ f' e')

theorem preserve_of_fault [Sink σ] {e : Emission σ} {fault : Fault} {t : Frame × Emission σ} (idle : f.phase = .idle)
    (failed : f.pairs.forM (save isa) (f, e) = .error fault t) : preserve isa (f, e) = .error fault t := by
  have turn : Operation.preserve.allowedIn f.phase = true := by rw [idle]; rfl
  unfold preserve
  rw [bind_ok (requireTurn_ok turn), bind_ok (show frame _ = .ok f _ from rfl), bind_error failed]

/-! ### Remapping -/

theorem move_emitted [Sink σ] {p : SavePair} {c : CheckedPair} {e e' : Emission σ} (first : p.check isa = .ok c)
    (emitted : Emit.emitAll [.mov c.destination c.source] e = .ok () e') (f : Frame) :
    move isa p (f, e) = .ok () (f, e') := by
  unfold move
  rw [bind_ok (orReject_ok first _), emitAll_ok emitted f]

theorem isIdentity_of_check {p : SavePair} {c : CheckedPair} (first : p.check isa = .ok c) :
    p.isIdentity = decide (c.source = c.destination) := by
  rw [(SavePair.check_ok first).1]
  simp [SavePair.isIdentity, SavePair.ofRegisters]

theorem moves_emitted [Sink σ] {e e' : Emission σ} (checks : ChecksTo isa pairs checked)
    (emitted : Emit.emitAll (moveAll checked) e = .ok () e') (f : Frame) :
    (pairs.filter (!·.isIdentity)).forM (move isa) (f, e) = .ok () (f, e') := by
  induction pairs generalizing checked e with
  | nil =>
    rw [checks.of_nil] at emitted
    cases emitted
    rfl
  | cons p pairs ih =>
    obtain ⟨c, rest, rfl, first, others⟩ := checks.of_cons
    by_cases same : c.source = c.destination
    · rw [moveAll_cons_same rest same] at emitted
      rw [List.filter_cons, isIdentity_of_check first]
      simp only [same, decide_true, Bool.not_true, Bool.false_eq_true, if_false]
      exact ih others emitted
    · rw [moveAll_cons_other rest same, ← List.singleton_append] at emitted
      obtain ⟨middle, head, tail⟩ := Emit.emitAll_append emitted
      rw [List.filter_cons, isIdentity_of_check first]
      simp only [same, decide_false, Bool.not_false, if_true]
      have unrolled : (p :: pairs.filter (!·.isIdentity)).forM (move isa) (f, e) =
          (move isa p >>= fun _ => (pairs.filter (!·.isIdentity)).forM (move isa)) (f, e) := rfl
      rw [unrolled, bind_ok (move_emitted first head f), ih others tail]

theorem remap_emitted [Sink σ] {e e' : Emission σ} (turn : f.phase = .preserved)
    (checks : ChecksTo isa f.pairs checked) (emitted : Emit.emitAll (moveAll checked) e = .ok () e') :
    remap isa (f, e) = .ok () ({ f with phase := .remapped },
      e'.noted (.remapped isa (f.pairs.filter (!·.isIdentity)).length)) := by
  have allowed : Operation.remap.allowedIn f.phase = true := by rw [turn]; rfl
  unfold remap
  rw [bind_ok (requireTurn_ok allowed), bind_ok (show frame _ = .ok f _ from rfl),
    bind_ok (moves_emitted checks emitted f)]
  rfl

theorem remap_checked (turn : f.phase = .preserved) (checks : ChecksTo isa f.pairs checked) (e : Emission Code) :
    remap isa (f, e) = .ok () ({ f with phase := .remapped },
      (e.recorded (moveAll checked)).noted (.remapped isa (f.pairs.filter (!·.isIdentity)).length)) :=
  remap_emitted turn checks (Emit.emitAll_code _ e)

/-! ### Restoring -/

theorem reload_emitted [Sink σ] {p : SavePair} {c : CheckedPair} {popped : UInt32} {e e' : Emission σ}
    (first : p.check isa = .ok c) (fits : popped.toNat + (isa.slotBytes c.file).toNat < UInt32.size)
    (emitted : Emit.emitAll (isa.reloadCode c.destination c.file) e = .ok () e') (f : Frame) :
    reload isa popped p (f, e) = .ok (popped + isa.slotBytes c.file) (f, e') := by
  unfold reload
  rw [bind_ok (orReject_ok first _), bind_ok (emitAll_ok emitted f), ofExcept_ok (addBytes_ok fits)]

theorem reloads_emitted [Sink σ] {e e' : Emission σ} (checks : ChecksTo isa pairs checked)
    (fits : slotTotal isa checked < UInt32.size) (emitted : Emit.emitAll (reloadAll isa checked) e = .ok () e')
    (f : Frame) :
    pairs.reverse.foldlM (reload isa) 0 (f, e) = .ok (UInt32.ofNat (slotTotal isa checked)) (f, e') := by
  induction pairs generalizing checked e' with
  | nil =>
    rw [checks.of_nil] at emitted ⊢
    cases emitted
    rfl
  | cons p pairs ih =>
    obtain ⟨c, rest, rfl, first, others⟩ := checks.of_cons
    rw [reloadAll_cons] at emitted
    obtain ⟨middle, head, tail⟩ := Emit.emitAll_append emitted
    simp only [slotTotal] at fits
    have counted : (UInt32.ofNat (slotTotal isa rest)).toNat = slotTotal isa rest :=
      UInt32.toNat_ofNat_of_lt (by omega)
    rw [List.reverse_cons, List.foldlM_append, bind_ok (ih others (by omega) head), List.foldlM_cons,
      bind_ok (reload_emitted first (by omega) tail f), slotTotal, Nat.add_comm, UInt32.ofNat_add, UInt32.ofNat_toNat]
    rfl

theorem restore_emitted [Sink σ] {e e' : Emission σ} (turn : Operation.restore.allowedIn f.phase = true)
    (checks : ChecksTo isa f.pairs checked) (count : f.pushed.toNat = slotTotal isa checked)
    (emitted : Emit.emitAll (unpadAll isa f.padding ++ reloadAll isa checked) e = .ok () e') :
    restore isa (f, e) = .ok () ({ f with phase := .restored }, e'.noted (.restored isa f.pushed f.padding)) := by
  have fits : slotTotal isa checked < UInt32.size := count ▸ f.pushed.toNat_lt
  have popped : UInt32.ofNat (slotTotal isa checked) = f.pushed := by rw [← count, UInt32.ofNat_toNat]
  obtain ⟨middle, dropped, reloaded⟩ := Emit.emitAll_append emitted
  have unpadded : (if f.isPadded then emitAll (isa.unpadCode f.padding) else pure ()) (f, e) = .ok () (f, middle) := by
    unfold unpadAll at dropped
    unfold isPadded
    by_cases none : f.padding = 0
    · rw [if_pos none] at dropped
      cases dropped
      rw [if_neg (show ¬ decide (f.padding ≠ 0) = true by simp [none])]
      rfl
    · rw [if_neg none] at dropped
      rw [if_pos (show decide (f.padding ≠ 0) = true by simp [none])]
      exact emitAll_ok dropped f
  unfold restore
  rw [bind_ok (requireTurn_ok turn), bind_ok (show frame _ = .ok f _ from rfl), optional_bind, bind_ok unpadded]
  dsimp only
  rw [bind_ok (reloads_emitted checks fits reloaded f), popped, if_neg (not_not_intro rfl)]
  rfl

theorem restore_checked (turn : Operation.restore.allowedIn f.phase = true) (checks : ChecksTo isa f.pairs checked)
    (count : f.pushed.toNat = slotTotal isa checked) (e : Emission Code) :
    restore isa (f, e) = .ok () ({ f with phase := .restored },
      (e.recorded (unpadAll isa f.padding ++ reloadAll isa checked)).noted
        (.restored isa f.pushed f.padding)) :=
  restore_emitted turn checks count (Emit.emitAll_code _ e)

end Frame
end CallFrame
