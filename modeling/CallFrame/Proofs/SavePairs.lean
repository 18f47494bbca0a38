import CallFrame.Frame.Basic
import CallFrame.Proofs.Slot

/-! Pairs that pass their check, and the code of whole lists of them. -/
namespace CallFrame

variable {isa : Isa}

def SavePair.Savable (isa : Isa) (p : SavePair) : Prop :=
  ∃ source destination, p = .ofRegisters source destination ∧ (isa.slotFile? source).isSome ∧
    (isa.slotFile? destination).isSome ∧ source.cls = destination.cls

structure CheckedPair.Sound (isa : Isa) (c : CheckedPair) : Prop where
  source : isa.slotFile? c.source = some c.file
  destination : isa.slotFile? c.destination = some c.file
  cls : c.source.cls = c.destination.cls

theorem Location.savable_ok {l : Location} {r : Register} {file : RegFile}
    (found : l.savable isa = .ok (r, file)) : l = .register r ∧ isa.slotFile? r = some file := by
  cases l with
  | stack offset => simp [savable, register?] at found
  | register s =>
    cases slot : isa.slotFile? s with
    | none => simp [savable, register?, slot] at found
    | some f =>
      simp only [savable, register?, Option.bind_some, slot, Option.map_some, Except.ok.injEq, Prod.mk.injEq] at found
      obtain ⟨rfl, rfl⟩ := found
      exact ⟨rfl, slot⟩

theorem Location.savable_register {r : Register} {file : RegFile} (slot : isa.slotFile? r = some file) :
    (Location.register r).savable isa = .ok (r, file) := by
  simp [savable, register?, slot]

def Location.hasSlot (isa : Isa) : Location → Bool
  | .register r => (isa.slotFile? r).isSome
  | .stack _ => false

theorem Location.register_of_hasSlot {l : Location} (saved : l.hasSlot isa = true) :
    ∃ r file, l = .register r ∧ isa.slotFile? r = some file := by
  cases l with
  | register r =>
    obtain ⟨file, slot⟩ := Option.isSome_iff_exists.mp saved
    exact ⟨r, file, rfl, slot⟩
  | stack offset => cases saved

theorem Location.savable_of_no_slot {l : Location} (unsaved : l.hasSlot isa = false) :
    l.savable isa = .error (.unsavable isa.name (isa.nameOf l)) := by
  cases l with
  | register r =>
    have none : isa.slotFile? r = none := by simpa [hasSlot] using unsaved
    simp [savable, register?, none]
  | stack offset => simp [savable, register?]

namespace SavePair

variable {p : SavePair} {c : CheckedPair}

theorem check_ok (checked : p.check isa = .ok c) :
    p = .ofRegisters c.source c.destination ∧ c.Sound isa := by
  obtain ⟨from_, to_⟩ := p
  unfold check at checked
  cases source : from_.savable isa with
  | error v => simp [source, bind, Except.bind] at checked
  | ok found =>
    cases destination : to_.savable isa with
    | error v => simp [source, destination, bind, Except.bind] at checked
    | ok target =>
      obtain ⟨r, file⟩ := found
      obtain ⟨s, file'⟩ := target
      simp only [source, destination, bind, Except.bind] at checked
      split at checked
      · rename_i cls
        simp only [pure, Except.pure, Except.ok.injEq] at checked
        subst checked
        obtain ⟨rfl, sourceSlot⟩ := Location.savable_ok source
        obtain ⟨rfl, targetSlot⟩ := Location.savable_ok destination
        -- The class decides the file, so both ends use the same kind of slot.
        have files : file' = file := by
          rw [Isa.slotFile?_file sourceSlot, Isa.slotFile?_file targetSlot, cls]
        exact ⟨rfl, sourceSlot, files ▸ targetSlot, cls⟩
      · simp [throw, throwThe, MonadExceptOf.throw] at checked

theorem check_of_savable (savable : p.Savable isa) : ∃ c, p.check isa = .ok c := by
  obtain ⟨source, destination, rfl, sourceSome, destinationSome, cls⟩ := savable
  obtain ⟨file, sourceSlot⟩ := Option.isSome_iff_exists.mp sourceSome
  obtain ⟨file', destinationSlot⟩ := Option.isSome_iff_exists.mp destinationSome
  refine ⟨⟨source, destination, file⟩, ?_⟩
  simp only [check, ofRegisters, Location.savable_register sourceSlot, Location.savable_register destinationSlot,
    bind, Except.bind, cls, if_true]
  rfl

theorem savable_iff_check : p.Savable isa ↔ (p.check isa).isOk = true := by
  constructor
  · intro savable
    obtain ⟨c, checked⟩ := check_of_savable savable
    rw [checked]
    rfl
  · intro accepted
    cases checked : p.check isa with
    | error v => simp [checked, Except.isOk, Except.toBool] at accepted
    | ok c =>
      obtain ⟨rfl, sound⟩ := check_ok checked
      exact ⟨c.source, c.destination, rfl, by simp [sound.source], by simp [sound.destination], sound.cls⟩

instance (isa : Isa) (p : SavePair) : Decidable (p.Savable isa) := decidable_of_iff _ savable_iff_check.symm

/-- What is wrong with a pair that cannot be saved: its source has no slot, or else its destination has none, or else
the two differ in class. -/
def refusal (isa : Isa) (p : SavePair) : Violation :=
  if p.source.hasSlot isa = false then .unsavable isa.name (isa.nameOf p.source)
  else if p.destination.hasSlot isa = false then .unsavable isa.name (isa.nameOf p.destination)
  else .mixedClasses (isa.nameOf p.source) (isa.nameOf p.destination)

theorem check_of_unsavable (unsavable : ¬ p.Savable isa) : p.check isa = .error (p.refusal isa) := by
  obtain ⟨from_, to_⟩ := p
  cases source : from_.hasSlot isa with
  | false => simp [check, refusal, source, Location.savable_of_no_slot source, bind, Except.bind]
  | true =>
    obtain ⟨r, file, rfl, slot⟩ := Location.register_of_hasSlot source
    cases destination : to_.hasSlot isa with
    | false =>
      simp [check, refusal, source, destination, Location.savable_register slot,
        Location.savable_of_no_slot destination, bind, Except.bind]
    | true =>
      obtain ⟨s, file', rfl, slot'⟩ := Location.register_of_hasSlot destination
      have mixed : r.cls ≠ s.cls := by
        intro cls
        exact unsavable ⟨r, s, rfl, by simp [slot], by simp [slot'], cls⟩
      simp [check, refusal, source, destination, Location.savable_register slot, Location.savable_register slot', mixed,
        bind, Except.bind, throw, throwThe, MonadExceptOf.throw]

theorem check_error {v : Violation} (bad : p.check isa = .error v) : ¬ p.Savable isa ∧ v = p.refusal isa := by
  have unsavable : ¬ p.Savable isa := by
    intro savable
    obtain ⟨c, checked⟩ := check_of_savable savable
    rw [checked] at bad
    cases bad
  rw [check_of_unsavable unsavable] at bad
  exact ⟨unsavable, (Except.error.inj bad).symm⟩

end SavePair

/-! ### Checked lists -/

/-- `checked` holds the checked form of each pair, in order. -/
def ChecksTo (isa : Isa) (pairs : List SavePair) (checked : List CheckedPair) : Prop :=
  pairs.map (·.check isa) = checked.map .ok

namespace ChecksTo

variable {pairs : List SavePair} {checked : List CheckedPair}

theorem cons_iff {p : SavePair} {c : CheckedPair} :
    ChecksTo isa (p :: pairs) (c :: checked) ↔ p.check isa = .ok c ∧ ChecksTo isa pairs checked := by
  simp [ChecksTo]

theorem of_nil (checks : ChecksTo isa [] checked) : checked = [] := by
  simpa [ChecksTo] using checks.symm

theorem of_cons {p : SavePair} (checks : ChecksTo isa (p :: pairs) checked) :
    ∃ c rest, checked = c :: rest ∧ p.check isa = .ok c ∧ ChecksTo isa pairs rest := by
  cases checked with
  | nil => simp [ChecksTo] at checks
  | cons c rest => exact ⟨c, rest, rfl, cons_iff.mp checks⟩

theorem exists_of_savable (savable : ∀ p ∈ pairs, p.Savable isa) : ∃ checked, ChecksTo isa pairs checked := by
  induction pairs with
  | nil => exact ⟨[], rfl⟩
  | cons p pairs ih =>
    obtain ⟨c, first⟩ := SavePair.check_of_savable (savable p List.mem_cons_self)
    obtain ⟨checked, rest⟩ := ih fun q member => savable q (List.mem_cons_of_mem _ member)
    exact ⟨c :: checked, cons_iff.mpr ⟨first, rest⟩⟩

theorem savable (checks : ChecksTo isa pairs checked) : ∀ p ∈ pairs, p.Savable isa := by
  intro p member
  have accepted : p.check isa ∈ checked.map .ok := checks ▸ List.mem_map_of_mem member
  obtain ⟨c, -, same⟩ := List.mem_map.mp accepted
  rw [SavePair.savable_iff_check, ← same]
  rfl

theorem sound (checks : ChecksTo isa pairs checked) : ∀ c ∈ checked, c.Sound isa := by
  induction pairs generalizing checked with
  | nil => simp [checks.of_nil]
  | cons p pairs ih =>
    obtain ⟨c, rest, rfl, first, others⟩ := checks.of_cons
    intro d member
    rcases List.mem_cons.mp member with rfl | later
    · exact (SavePair.check_ok first).2
    · exact ih others d later

theorem pairs_eq (checks : ChecksTo isa pairs checked) :
    pairs = checked.map fun c => .ofRegisters c.source c.destination := by
  induction pairs generalizing checked with
  | nil => simp [checks.of_nil]
  | cons p pairs ih =>
    obtain ⟨c, rest, rfl, first, others⟩ := checks.of_cons
    rw [List.map_cons, ← ih others, (SavePair.check_ok first).1]

theorem mem_pairs (checks : ChecksTo isa pairs checked) {c : CheckedPair} (present : c ∈ checked) :
    .ofRegisters c.source c.destination ∈ pairs := by
  rw [checks.pairs_eq]
  exact List.mem_map_of_mem present

theorem split {before after : List SavePair} {source destination : Register}
    (checks : ChecksTo isa (before ++ .ofRegisters source destination :: after) checked) :
    ∃ front c back, checked = front ++ c :: back ∧ ChecksTo isa before front ∧ ChecksTo isa after back ∧
      c.source = source ∧ c.destination = destination := by
  unfold ChecksTo at checks
  rw [List.map_append, List.map_cons] at checks
  obtain ⟨front, rest, rfl, head, tail⟩ := List.map_eq_append_iff.mp checks.symm
  obtain ⟨c, back, rfl, here, later⟩ := List.map_eq_cons_iff.mp tail
  have pair := (SavePair.check_ok here.symm).1
  simp only [SavePair.ofRegisters, SavePair.mk.injEq, Location.register.injEq] at pair
  exact ⟨front, c, back, rfl, head.symm, later.symm, pair.1.symm, pair.2.symm⟩

end ChecksTo

/-! ### The code of a list -/

def saveAll (isa : Isa) (checked : List CheckedPair) : List Instr :=
  checked.flatMap fun c => isa.saveCode c.source c.file

def moveAll (checked : List CheckedPair) : List Instr :=
  (checked.filter fun c => c.source ≠ c.destination).map fun c => .mov c.destination c.source

def reloadAll (isa : Isa) (checked : List CheckedPair) : List Instr :=
  checked.reverse.flatMap fun c => isa.reloadCode c.destination c.file

def slotTotal (isa : Isa) : List CheckedPair → Nat
  | [] => 0
  | c :: checked => (isa.slotBytes c.file).toNat + slotTotal isa checked

@[simp] theorem saveAll_cons (c : CheckedPair) (checked : List CheckedPair) :
    saveAll isa (c :: checked) = isa.saveCode c.source c.file ++ saveAll isa checked := by
  simp [saveAll]

theorem moveAll_cons_same {c : CheckedPair} (checked : List CheckedPair) (same : c.source = c.destination) :
    moveAll (c :: checked) = moveAll checked := by
  simp [moveAll, same]

theorem moveAll_cons_other {c : CheckedPair} (checked : List CheckedPair) (other : c.source ≠ c.destination) :
    moveAll (c :: checked) = .mov c.destination c.source :: moveAll checked := by
  simp [moveAll, other]

@[simp] theorem reloadAll_cons (c : CheckedPair) (checked : List CheckedPair) :
    reloadAll isa (c :: checked) = reloadAll isa checked ++ isa.reloadCode c.destination c.file := by
  simp [reloadAll]

/-! ### Saves read off the pairs -/

namespace SavePair

def saveCode (isa : Isa) (p : SavePair) : List Instr :=
  match p.source with
  | .register r => isa.saveCode r r.cls.file
  | .stack _ => []

def slotBytes (isa : Isa) (p : SavePair) : Nat :=
  match p.source with
  | .register r => (isa.slotBytes r.cls.file).toNat
  | .stack _ => 0

variable {p : SavePair} {c : CheckedPair}

theorem saveCode_of_check (checked : p.check isa = .ok c) : p.saveCode isa = isa.saveCode c.source c.file := by
  obtain ⟨rfl, sound⟩ := check_ok checked
  rw [Isa.slotFile?_file sound.source]
  rfl

theorem slotBytes_of_check (checked : p.check isa = .ok c) : p.slotBytes isa = (isa.slotBytes c.file).toNat := by
  obtain ⟨rfl, sound⟩ := check_ok checked
  rw [Isa.slotFile?_file sound.source]
  rfl

end SavePair

def slotSum (isa : Isa) : List SavePair → Nat
  | [] => 0
  | p :: pairs => p.slotBytes isa + slotSum isa pairs

namespace ChecksTo

variable {pairs : List SavePair} {checked : List CheckedPair}

theorem saveAll_eq (checks : ChecksTo isa pairs checked) : saveAll isa checked = pairs.flatMap (·.saveCode isa) := by
  induction pairs generalizing checked with
  | nil => rw [checks.of_nil]; rfl
  | cons p pairs ih =>
    obtain ⟨c, rest, rfl, first, others⟩ := checks.of_cons
    rw [saveAll_cons, List.flatMap_cons, SavePair.saveCode_of_check first, ih others]

theorem slotTotal_eq (checks : ChecksTo isa pairs checked) : slotTotal isa checked = slotSum isa pairs := by
  induction pairs generalizing checked with
  | nil => rw [checks.of_nil]; rfl
  | cons p pairs ih =>
    obtain ⟨c, rest, rfl, first, others⟩ := checks.of_cons
    rw [slotTotal, slotSum, SavePair.slotBytes_of_check first, ih others]

theorem length_eq (checks : ChecksTo isa pairs checked) : checked.length = pairs.length := by
  simpa using (congrArg List.length checks).symm

end ChecksTo

theorem slotTotal_le (isa : Isa) (checked : List CheckedPair) : slotTotal isa checked ≤ 16 * checked.length := by
  induction checked with
  | nil => exact Nat.le_refl 0
  | cons c checked ih =>
    have slot := isa.slotBytes_le c.file
    simp only [slotTotal, List.length_cons]
    omega

/-- A slot takes sixteen bytes at most, so fewer than `2 ^ 28` of them can be counted. -/
theorem ChecksTo.slotTotal_lt {pairs : List SavePair} {checked : List CheckedPair} (checks : ChecksTo isa pairs checked)
    (few : pairs.length < 0x10000000) : slotTotal isa checked < UInt32.size := by
  have total := slotTotal_le isa checked
  rw [checks.length_eq] at total
  simp only [UInt32.size]
  omega

/-! ### The account of a list -/

theorem stackShift_append (sp : Register) (first second : List Instr) :
    stackShift sp (first ++ second) = stackShift sp first + stackShift sp second := by
  induction first with
  | nil => simp [stackShift]
  | cons i first ih =>
    simp only [List.cons_append, stackShift, ih]
    omega

theorem stackShift_saveAll {checked : List CheckedPair} (sound : ∀ c ∈ checked, c.Sound isa) :
    stackShift isa.stackPointer (saveAll isa checked) = -(slotTotal isa checked : Int) := by
  induction checked with
  | nil => rfl
  | cons c checked ih =>
    obtain ⟨slot, others⟩ := List.forall_mem_cons.mp sound
    rw [saveAll_cons, stackShift_append, ih others, Isa.stackShift_saveCode slot.source, slotTotal]
    omega

theorem stackShift_reloadAll {checked : List CheckedPair} (sound : ∀ c ∈ checked, c.Sound isa) :
    stackShift isa.stackPointer (reloadAll isa checked) = slotTotal isa checked := by
  induction checked with
  | nil => rfl
  | cons c checked ih =>
    obtain ⟨slot, others⟩ := List.forall_mem_cons.mp sound
    rw [reloadAll_cons, stackShift_append, ih others, Isa.stackShift_reloadCode slot.destination, slotTotal]
    omega

theorem stackShift_moveAll (sp : Register) (checked : List CheckedPair) : stackShift sp (moveAll checked) = 0 := by
  unfold moveAll
  induction checked.filter fun c => c.source ≠ c.destination with
  | nil => rfl
  | cons c rest ih => simp [stackShift, Instr.stackShift, ih]

end CallFrame
