import CallFrame.Machine.Basic

namespace CallFrame

def InSpan (start : Addr) (len : Nat) (a : Addr) : Prop := (a - start).toNat < len

instance (start : Addr) (len : Nat) (a : Addr) : Decidable (InSpan start len a) :=
  inferInstanceAs (Decidable (_ < _))

theorem inSpan_add {start : Addr} {len i : Nat} (inside : i < len) :
    InSpan start len (start + BitVec.ofNat 64 i) := by
  unfold InSpan
  bv_omega

theorem toNat_sub_lowered (a top : Addr) (k : Nat) :
    (a - (top - BitVec.ofNat 64 k)).toNat = ((a - top).toNat + k) % UInt64.size := by
  have moved : a - (top - BitVec.ofNat 64 k) = a - top + BitVec.ofNat 64 k := by grind
  simp [moved, BitVec.toNat_add]

/-- The `k` bytes below `top` are the last `k` that one meets going up from it. -/
theorem inSpan_below {top a : Addr} {k : Nat} (room : k ≤ UInt64.size) :
    InSpan (top - BitVec.ofNat 64 k) k a ↔ UInt64.size ≤ (a - top).toNat + k := by
  have near := (a - top).isLt
  unfold InSpan
  rw [toNat_sub_lowered]
  simp only [UInt64.size] at *
  omega

namespace Memory

theorem getLsbD_loadOnto (m : Memory) (addr : Addr) (n : Nat) (acc : Value) {i : Nat} (bound : i < 128) :
    (loadOnto m addr n acc).getLsbD i =
      if i < 8 * n then (m (addr + BitVec.ofNat 64 (i / 8))).getLsbD (i % 8) else acc.getLsbD (i - 8 * n) := by
  induction n generalizing acc with
  | zero => simp [loadOnto]
  | succ n ih =>
    rw [loadOnto, ih]
    by_cases early : i < 8 * n
    · rw [if_pos early, if_pos (by omega)]
    rw [if_neg early]
    by_cases last : i < 8 * (n + 1)
    · -- The byte read first lies just above the `n` that are still to come.
      have low : i - 8 * n < 8 := by omega
      have byte : i / 8 = n := by omega
      have bit : i % 8 = i - 8 * n := by omega
      rw [if_pos last, byte, bit]
      simp [low]
      omega
    · have high : ¬ i - 8 * n < 8 := by omega
      have shifted : i - 8 * n - 8 = i - 8 * (n + 1) := by omega
      have gone : (m (addr + BitVec.ofNat 64 n)).getLsbD (i - 8 * n) = false :=
        BitVec.getLsbD_of_ge _ _ (by omega)
      rw [if_neg last]
      simp only [BitVec.getLsbD_or, BitVec.getLsbD_shiftLeft, BitVec.getLsbD_setWidth, high, gone, shifted,
        decide_false, Bool.not_false, Bool.and_true, Bool.and_false, Bool.or_false, Bool.and_eq_right_iff_imp]
      intro _
      exact decide_eq_true (by omega)

theorem getLsbD_load (m : Memory) (addr : Addr) (n : Nat) {i : Nat} (bound : i < 128) :
    (m.load addr n).getLsbD i =
      (decide (i < 8 * n) && (m (addr + BitVec.ofNat 64 (i / 8))).getLsbD (i % 8)) := by
  rw [load, getLsbD_loadOnto m addr n 0 bound]
  by_cases inside : i < 8 * n
  · simp [inside]
  · simp [inside]

theorem load_congr {m m' : Memory} {addr : Addr} {n : Nat} (same : ∀ a, InSpan addr n a → m' a = m a) :
    m'.load addr n = m.load addr n := by
  apply BitVec.eq_of_getLsbD_eq
  intro i bound
  rw [getLsbD_load m addr n bound, getLsbD_load m' addr n bound]
  by_cases inside : i < 8 * n
  · rw [same _ (inSpan_add (by omega))]
  · simp [inside]

theorem store_outside (m : Memory) {addr a : Addr} {n : Nat} (v : Value) (outside : ¬ InSpan addr n a) :
    m.store addr n v a = m a := by
  unfold InSpan at outside
  rw [store, if_neg (by omega)]

theorem store_zero (m : Memory) (addr : Addr) (v : Value) : m.store addr 0 v = m := by
  funext a
  exact store_outside m v (Nat.not_lt_zero _)

theorem store_inside (m : Memory) (addr : Addr) {n i : Nat} (v : Value) (inside : i < n) (fits : n ≤ 16) :
    m.store addr n v (addr + BitVec.ofNat 64 i) = v.extractLsb' (8 * i) 8 := by
  have distance : (addr + BitVec.ofNat 64 i - addr).toNat = i := by bv_omega
  simp only [store, distance]
  rw [if_pos (by omega)]

theorem load_store_same (m : Memory) (addr : Addr) {n : Nat} (v : Value) (fits : n ≤ 16) :
    (m.store addr n v).load addr n = Machine.lowBits (8 * n) v := by
  apply BitVec.eq_of_getLsbD_eq
  intro i bound
  rw [getLsbD_load _ addr n bound]
  by_cases inside : i < 8 * n
  · have split : 8 * (i / 8) + i % 8 = i := Nat.div_add_mod i 8
    rw [store_inside m addr v (by omega) fits]
    simp [Machine.lowBits, inside, bound, split, Nat.mod_lt]
  · simp [Machine.lowBits, inside]

/-- The memories agree but for the `depth` bytes below `top`. -/
def SameButBelow (top : Addr) (depth : Nat) (m m' : Memory) : Prop :=
  ∀ a, ¬ InSpan (top - BitVec.ofNat 64 depth) depth a → m' a = m a

namespace SameButBelow

variable {top : Addr} {depth k : Nat} {m m' m'' : Memory}

theorem refl (top : Addr) (depth : Nat) (m : Memory) : SameButBelow top depth m m := fun _ _ => rfl

theorem trans (first : SameButBelow top depth m m') (second : SameButBelow top depth m' m'') :
    SameButBelow top depth m m'' :=
  fun a outside => (second a outside).trans (first a outside)

theorem mono (same : SameButBelow top k m m') (le : k ≤ depth) (room : depth ≤ UInt64.size) :
    SameButBelow top depth m m' := by
  intro a outside
  apply same a
  rw [inSpan_below (by omega)] at outside ⊢
  omega

theorem lower (same : SameButBelow (top - BitVec.ofNat 64 k) depth m m') (room : k + depth ≤ UInt64.size) :
    SameButBelow top (k + depth) m m' := by
  intro a outside
  apply same a
  have near := (a - top).isLt
  rw [inSpan_below (by omega)] at outside ⊢
  rw [toNat_sub_lowered]
  simp only [UInt64.size] at *
  omega

theorem above (same : SameButBelow (top - BitVec.ofNat 64 k) depth m m') (room : k + depth ≤ UInt64.size)
    {a : Addr} (inside : InSpan (top - BitVec.ofNat 64 k) k a) : m' a = m a := by
  apply same a
  have near := (a - top).isLt
  rw [inSpan_below (by omega)] at inside ⊢
  rw [toNat_sub_lowered]
  simp only [UInt64.size] at *
  omega

theorem store {n : Nat} (m : Memory) (top : Addr) (v : Value) (le : n ≤ k) :
    SameButBelow top k m (m.store (top - BitVec.ofNat 64 k) n v) := by
  intro a outside
  apply store_outside
  unfold InSpan at *
  omega

end SameButBelow
end Memory
end CallFrame
