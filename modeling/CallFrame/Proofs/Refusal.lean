import CallFrame.Frame.Around
import CallFrame.Proofs.RoundTrip

/-! How preserving fails, and what it has emitted by then. -/
namespace CallFrame

variable {isa : Isa} {pairs before : List SavePair} {p : SavePair} {σ α : Type}

/-- `p` is the first pair of the list that cannot be saved, and `before` holds the pairs ahead of it. -/
structure FirstUnsavable (isa : Isa) (pairs before : List SavePair) (p : SavePair) : Prop where
  place : ∃ after, pairs = before ++ p :: after
  savable : ∀ q ∈ before, q.Savable isa
  unsavable : ¬ p.Savable isa

namespace FirstUnsavable

theorem of_unsavable (unsavable : ¬ ∀ p ∈ pairs, p.Savable isa) : ∃ before p, FirstUnsavable isa pairs before p := by
  induction pairs with
  | nil => exact (unsavable (List.forall_mem_nil _)).elim
  | cons q pairs ih =>
    by_cases head : q.Savable isa
    · have later : ¬ ∀ p ∈ pairs, p.Savable isa := by
        intro all
        exact unsavable (List.forall_mem_cons.mpr ⟨head, all⟩)
      obtain ⟨before, p, ⟨after, place⟩, savable, bad⟩ := ih later
      exact ⟨q :: before, p, ⟨after, by rw [place, List.cons_append]⟩, List.forall_mem_cons.mpr ⟨head, savable⟩, bad⟩
    · exact ⟨[], q, ⟨pairs, rfl⟩, List.forall_mem_nil _, head⟩

theorem checked_before (first : FirstUnsavable isa pairs before p) (few : pairs.length < 0x10000000) :
    ∃ checked, ChecksTo isa before checked ∧ slotTotal isa checked < UInt32.size := by
  obtain ⟨checked, checks⟩ := ChecksTo.exists_of_savable first.savable
  refine ⟨checked, checks, checks.slotTotal_lt ?_⟩
  obtain ⟨after, place⟩ := first.place
  rw [place, List.length_append] at few
  omega

end FirstUnsavable

namespace Frame

/-- The frame that is left when preserving stops behind the pairs in `before`. -/
def stopped (isa : Isa) (pairs before : List SavePair) : Frame :=
  { pairs, pushed := UInt32.ofNat (slotSum isa before) }

theorem preserve_refused [Sink σ] {e e' : Emission σ} (first : FirstUnsavable isa pairs before p)
    (few : pairs.length < 0x10000000) (emitted : Emit.emitAll (before.flatMap (·.saveCode isa)) e = .ok () e') :
    preserve isa ({ pairs }, e) =
      .error (.violation (p.refusal isa)) (stopped isa pairs before, e'.noted (.violated (p.refusal isa))) := by
  obtain ⟨checked, checks, fits⟩ := first.checked_before few
  obtain ⟨after, place⟩ := first.place
  rw [← checks.saveAll_eq] at emitted
  have run := saves_refused (f := { pairs }) place checks (SavePair.check_of_unsavable first.unsavable)
    (by simpa using fits) emitted
  rw [preserve_of_fault rfl run, checks.slotTotal_eq]
  simp only [grown, UInt32.zero_add]
  rfl

end Frame

end CallFrame
