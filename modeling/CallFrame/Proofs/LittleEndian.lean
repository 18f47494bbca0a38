import CallFrame.Proofs.Lifecycle
import CallFrame.Proofs.Memory
import Mathlib.Algebra.Group.Nat.Defs
import Mathlib.Logic.Function.Basic

/-! Memory as the machine writes it, one byte after another. -/
namespace CallFrame

namespace Memory

theorem store_wide (m : Memory) (addr : Addr) {n : Nat} (v : Value) (wide : 16 ≤ n) :
    m.store addr n v = m.store addr 16 v := by
  funext a
  rw [store, store, Nat.min_eq_right wide, Nat.min_self]

/-- The bytes past the sixteenth are read first and pushed out again. -/
theorem load_wide (m : Memory) (addr : Addr) {n : Nat} (wide : 16 ≤ n) : m.load addr n = m.load addr 16 := by
  apply BitVec.eq_of_getLsbD_eq
  intro i bound
  have inside : i < 8 * n := by omega
  rw [getLsbD_load m addr n bound, getLsbD_load m addr 16 bound, decide_eq_true inside, decide_eq_true bound]

theorem load_store_disjoint (m : Memory) {addr other : Addr} {n k : Nat} (v : Value)
    (disjoint : ∀ a, InSpan other k a → ¬ InSpan addr n a) : (m.store addr n v).load other k = m.load other k :=
  load_congr fun a inside => store_outside m v (disjoint a inside)

theorem distance_ne {addr a : Addr} {n : Nat} (other : a ≠ addr + BitVec.ofNat 64 n) : (a - addr).toNat ≠ n := by
  rintro rfl
  apply other
  rw [BitVec.ofNat_toNat, BitVec.setWidth_eq, BitVec.add_comm, BitVec.sub_add_cancel]

theorem store_succ (m : Memory) (addr : Addr) {n : Nat} (v : Value) (small : n < 16) :
    m.store addr (n + 1) v =
      Function.update (m.store addr n v) (addr + BitVec.ofNat 64 n) ((v >>> (8 * n)).setWidth 8) := by
  funext a
  by_cases last : a = addr + BitVec.ofNat 64 n
  · have byte : v.extractLsb' (8 * n) 8 = (v >>> (8 * n)).setWidth 8 := by
      apply BitVec.eq_of_getLsbD_eq
      simp
    rw [last, Function.update_self, store_inside m addr v (Nat.lt_succ_self n) small, byte]
  · have distance := distance_ne last
    have same : (a - addr).toNat < min (n + 1) 16 ↔ (a - addr).toNat < min n 16 := by omega
    rw [Function.update_of_ne last]
    simp only [store, same]

end Memory

namespace Machine

def writeByte (addr : Addr) (v : Value) (i : Nat) : MachineM Unit :=
  if i < 16 then
    modify fun m =>
      { m with memory := Function.update m.memory (addr + BitVec.ofNat 64 i) ((v >>> (8 * i)).setWidth 8) }
  else throw .wideWrite

def writeBytes (addr : Addr) (n : Nat) (v : Value) : MachineM Unit := (List.range n).forM (writeByte addr v)

variable {addr : Addr} {n : Nat} {v : Value} {m : Machine}

theorem writeBytes_succ : writeBytes addr (n + 1) v = writeBytes addr n v >>= fun _ => writeByte addr v n := by
  have last : forM [n] (writeByte addr v) = writeByte addr v n := by simp
  rw [writeBytes, List.range_succ, ← last]
  exact List.forM_append

theorem writeByte_narrow (small : n < 16) : writeByte addr v n (m.poke addr n v) = .ok () (m.poke addr (n + 1) v) := by
  rw [writeByte, if_pos small, poke, poke, Memory.store_succ m.memory addr v small]
  rfl

theorem writeBytes_narrow (fits : n ≤ 16) : writeBytes addr n v m = .ok () (m.poke addr n v) := by
  induction n with
  | zero =>
    rw [poke, Memory.store_zero]
    rfl
  | succ n ih => rw [writeBytes_succ, bind_ok (ih (by omega)), writeByte_narrow fits]

theorem writeBytes_wide (wide : 16 < n) : writeBytes addr n v m = .error .wideWrite (m.poke addr 16 v) := by
  induction n with
  | zero => cases wide
  | succ n ih =>
    rw [writeBytes_succ]
    rcases Nat.lt_or_eq_of_le (Nat.le_of_lt_succ wide) with later | rfl
    · rw [bind_error (ih later)]
    · -- The first byte that the value does not have.
      rw [bind_ok (writeBytes_narrow (Nat.le_refl 16))]
      rfl

theorem write_narrow (fits : n ≤ 16) : write addr n v m = .ok () (m.poke addr n v) := by
  rw [write, if_neg (by omega)]
  rfl

theorem write_wide (wide : 16 < n) : write addr n v m = .error .wideWrite (m.poke addr 16 v) := by
  rw [write, if_pos wide, poke, ← Memory.store_wide m.memory addr v (Nat.le_of_lt wide)]
  rfl

theorem write_eq_writeBytes (addr : Addr) (n : Nat) (v : Value) : write addr n v = writeBytes addr n v := by
  funext m
  by_cases fits : n ≤ 16
  · rw [write_narrow fits, writeBytes_narrow fits]
  · rw [write_wide (by omega), writeBytes_wide (by omega)]

theorem toNat_lowBits (bits : Nat) (v : Value) : (lowBits bits v).toNat = v.toNat % 2 ^ bits := by
  have small : v.toNat % 2 ^ bits < 2 ^ 128 := Nat.lt_of_le_of_lt (Nat.mod_le _ _) v.isLt
  rw [lowBits, BitVec.toNat_setWidth, BitVec.toNat_setWidth, Nat.mod_eq_of_lt small]

end Machine

open Machine

/-- A write goes byte by byte. If the value has all the bytes asked for, they can be read back and no read elsewhere
changes; if not, the write stops with a fault behind the sixteenth. A read has no more than sixteen bytes either. -/
theorem memory_is_little_endian (m : Machine) (addr : Addr) (n : Nat) (v : Value) :
    write addr n v m = writeBytes addr n v m ∧
      (n ≤ 16 → ∃ m', write addr n v m = .ok () m' ∧ m'.cells = m.cells ∧
        (m'.read addr n).toNat = v.toNat % 2 ^ (8 * n) ∧
        ∀ other k, (∀ a, InSpan other k a → ¬ InSpan addr n a) → m'.read other k = m.read other k) ∧
      (16 < n → ∃ m', write addr n v m = .error .wideWrite m' ∧ m'.cells = m.cells ∧
        (∀ i < 16, m'.memory (addr + BitVec.ofNat 64 i) = v.extractLsb' (8 * i) 8) ∧
        ∀ a, ¬ InSpan addr 16 a → m'.memory a = m.memory a) ∧
      (16 ≤ n → m.read addr n = m.read addr 16) := by
  refine ⟨congrFun (write_eq_writeBytes addr n v) m, ?_, ?_, Memory.load_wide m.memory addr⟩
  · intro fits
    refine ⟨_, write_narrow fits, rfl, ?_, ?_⟩
    · have stored : (m.poke addr n v).read addr n = lowBits (8 * n) v := Memory.load_store_same m.memory addr v fits
      rw [stored, toNat_lowBits]
    · intro other k disjoint
      exact Memory.load_store_disjoint m.memory v disjoint
  · intro wide
    refine ⟨_, write_wide wide, rfl, ?_, ?_⟩
    · intro i inside
      exact Memory.store_inside m.memory addr v inside (Nat.le_refl 16)
    · intro a outside
      exact Memory.store_outside m.memory v outside

/-- Four bytes across the last address, and seventeen of which one is missing. -/
theorem bytes_wrap_past_last_address :
    (∃ m', write 0xFFFFFFFFFFFFFFFE 4 0x11DDCCBBAA (.new .x86_64) = .ok () m' ∧
      (m'.read 0xFFFFFFFFFFFFFFFE 4).toNat = 0xDDCCBBAA ∧ m'.read 2 8 = (Machine.new .x86_64).read 2 8) ∧
      (∃ m', write 0xFFFFFFFFFFFFFFFE 17 0x11DDCCBBAA (.new .x86_64) = .error .wideWrite m' ∧
        m'.memory 2 = 0x11 ∧ m'.memory 14 = 0) ∧
      (Machine.new .x86_64).read 0xFFFFFFFFFFFFFFFE 17 = (Machine.new .x86_64).read 0xFFFFFFFFFFFFFFFE 16 := by
  have apart : ∀ a, InSpan 2 8 a → ¬ InSpan 0xFFFFFFFFFFFFFFFE 4 a := by
    intro a inside
    unfold InSpan at *
    bv_omega
  obtain ⟨-, narrow, -, -⟩ := memory_is_little_endian (.new .x86_64) 0xFFFFFFFFFFFFFFFE 4 0x11DDCCBBAA
  obtain ⟨-, -, wide, read⟩ := memory_is_little_endian (.new .x86_64) 0xFFFFFFFFFFFFFFFE 17 0x11DDCCBBAA
  obtain ⟨m', done, -, value, others⟩ := narrow (by decide)
  obtain ⟨m'', failed, -, stored, kept⟩ := wide (by decide)
  refine ⟨⟨m', done, value, others 2 8 apart⟩, ⟨m'', failed, stored 4 (by decide), kept 14 (by decide)⟩, read (by decide)⟩

end CallFrame
