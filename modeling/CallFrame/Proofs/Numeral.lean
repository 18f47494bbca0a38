import CallFrame.Numeral

/-! Decimal numerals as a grammar; the readers accept exactly the numerals whose number fits. -/
namespace CallFrame.Numeral

inductive Digits : List Char → Nat → Prop
  | one {c : Char} (digit : c.isDigit = true) : Digits [c] (c.toNat - '0'.toNat)
  | snoc {cs : List Char} {n : Nat} {c : Char} (front : Digits cs n) (digit : c.isDigit = true) :
      Digits (cs ++ [c]) (10 * n + (c.toNat - '0'.toNat))

inductive Unsigned : List Char → Nat → Prop
  | bare {cs : List Char} {n : Nat} (digits : Digits cs n) : Unsigned cs n
  | plus {cs : List Char} {n : Nat} (digits : Digits cs n) : Unsigned ('+' :: cs) n

inductive Signed : List Char → Int → Prop
  | unsigned {cs : List Char} {n : Nat} (numeral : Unsigned cs n) : Signed cs n
  | minus {cs : List Char} {n : Nat} (digits : Digits cs n) : Signed ('-' :: cs) (-n)

variable {cs : List Char} {n : Nat}

/-! ### Digits -/

namespace Digits

theorem isDigit (digits : Digits cs n) : ∀ c ∈ cs, c.isDigit = true := by
  induction digits with
  | one digit =>
    intro c member
    rw [List.mem_singleton.mp member]
    exact digit
  | snoc front digit ih =>
    intro c member
    rcases List.mem_append.mp member with before | last
    · exact ih c before
    · rw [List.mem_singleton.mp last]
      exact digit

theorem ne_nil (digits : Digits cs n) : cs ≠ [] := by
  cases digits with
  | one => simp
  | snoc => simp

theorem ofDigitChars_eq (digits : Digits cs n) : Nat.ofDigitChars 10 cs 0 = n := by
  induction digits with
  | one => simp [Nat.ofDigitChars_cons, Nat.ofDigitChars_nil]
  | snoc front digit ih => rw [Nat.ofDigitChars_append, ih, Nat.ofDigitChars_cons, Nat.ofDigitChars_nil]

/-- The left fold reads on from the number written so far. -/
theorem append (front : Digits cs n) (more : List Char) (all : ∀ c ∈ more, c.isDigit = true) :
    Digits (cs ++ more) (Nat.ofDigitChars 10 more n) := by
  induction more generalizing cs n with
  | nil =>
    rw [List.append_nil, Nat.ofDigitChars_nil]
    exact front
  | cons c more ih =>
    obtain ⟨digit, others⟩ := List.forall_mem_cons.mp all
    rw [List.append_cons, Nat.ofDigitChars_cons]
    exact ih (front.snoc digit) others

theorem of_all (some_ : cs ≠ []) (all : ∀ c ∈ cs, c.isDigit = true) : Digits cs (Nat.ofDigitChars 10 cs 0) := by
  cases cs with
  | nil => exact (some_ rfl).elim
  | cons c more =>
    obtain ⟨digit, others⟩ := List.forall_mem_cons.mp all
    have written := (Digits.one digit).append more others
    rw [Nat.ofDigitChars_cons, Nat.mul_zero, Nat.zero_add]
    exact written

end Digits

theorem digits?_eq_some_iff : digits? cs = some n ↔ Digits cs n := by
  unfold digits?
  constructor
  · intro read
    split at read
    · rename_i shape
      simp only [Bool.and_eq_true, Bool.not_eq_true', List.isEmpty_eq_false_iff, List.all_eq_true] at shape
      obtain ⟨some_, all⟩ := shape
      cases read
      exact .of_all some_ all
    · cases read
  · intro digits
    have shape : (!cs.isEmpty && cs.all Char.isDigit) = true := by
      simp only [Bool.and_eq_true, Bool.not_eq_true', List.isEmpty_eq_false_iff, List.all_eq_true]
      exact ⟨digits.ne_nil, digits.isDigit⟩
    rw [if_pos shape, digits.ofDigitChars_eq]

theorem not_digits_cons {c : Char} (other : c.isDigit = false) : ¬ Digits (c :: cs) n := by
  intro digits
  have digit := digits.isDigit c List.mem_cons_self
  rw [other] at digit
  cases digit

/-! ### Signs -/

theorem unsigned?_eq_some_iff : unsigned? cs = some n ↔ Unsigned cs n := by
  unfold unsigned?
  split
  · rename_i rest
    rw [digits?_eq_some_iff]
    constructor
    · exact .plus
    · intro numeral
      cases numeral with
      | bare digits => exact (not_digits_cons (by decide) digits).elim
      | plus digits => exact digits
  · rename_i noPlus
    rw [digits?_eq_some_iff]
    constructor
    · exact .bare
    · intro numeral
      cases numeral with
      | bare digits => exact digits
      | plus => exact (noPlus _ rfl).elim

theorem signed?_eq_some_iff {i : Int} : signed? cs = some i ↔ Signed cs i := by
  unfold signed?
  split
  · rename_i rest
    constructor
    · intro read
      obtain ⟨n, digits, rfl⟩ := Option.map_eq_some_iff.mp read
      exact .minus (digits?_eq_some_iff.mp digits)
    · intro numeral
      cases numeral with
      | unsigned numeral =>
        cases numeral with
        | bare digits => exact (not_digits_cons (by decide) digits).elim
      | minus digits => rw [digits?_eq_some_iff.mpr digits, Option.map_some]
  · rename_i noMinus
    constructor
    · intro read
      obtain ⟨n, numeral, rfl⟩ := Option.map_eq_some_iff.mp read
      exact .unsigned (unsigned?_eq_some_iff.mp numeral)
    · intro numeral
      cases numeral with
      | unsigned numeral =>
        rw [unsigned?_eq_some_iff.mpr numeral]
        rfl
      | minus => exact (noMinus _ rfl).elim

/-! ### Numbers that fit -/

/-- Reading an unsigned word of any width: the numeral's number has to lie below the size of the word. -/
theorem word_eq_some_iff {α : Type} {size : Nat} {ofNat : Nat → α} {toNat : α → Nat}
    (ofNat_toNat : ∀ x, ofNat (toNat x) = x) (toNat_lt : ∀ x, toNat x < size)
    (toNat_ofNat : ∀ n, n < size → toNat (ofNat n) = n) {x : α} :
    (do let n ← unsigned? cs; if n < size then some (ofNat n) else none) = some x ↔ Unsigned cs (toNat x) := by
  constructor
  · intro read
    obtain ⟨n, numeral, fitted⟩ := Option.bind_eq_some_iff.mp read
    split at fitted
    · rename_i fits
      cases fitted
      rw [toNat_ofNat n fits]
      exact unsigned?_eq_some_iff.mp numeral
    · cases fitted
  · intro numeral
    refine Option.bind_eq_some_iff.mpr ⟨_, unsigned?_eq_some_iff.mpr numeral, ?_⟩
    rw [if_pos (toNat_lt x), ofNat_toNat]

theorem uint8?_eq_some_iff {x : UInt8} : uint8? cs = some x ↔ Unsigned cs x.toNat :=
  word_eq_some_iff (fun _ => UInt8.ofNat_toNat) UInt8.toNat_lt fun _ => UInt8.toNat_ofNat_of_lt'

theorem uint32?_eq_some_iff {x : UInt32} : uint32? cs = some x ↔ Unsigned cs x.toNat :=
  word_eq_some_iff (fun _ => UInt32.ofNat_toNat) UInt32.toNat_lt fun _ => UInt32.toNat_ofNat_of_lt'

theorem int32?_eq_some_iff {x : Int32} : int32? cs = some x ↔ Signed cs x.toInt := by
  have least : Int32.minValue.toInt = -2147483648 := by decide
  have greatest : Int32.maxValue.toInt = 2147483647 := by decide
  unfold int32?
  rw [least, greatest]
  constructor
  · intro read
    obtain ⟨i, numeral, fitted⟩ := Option.bind_eq_some_iff.mp read
    split at fitted
    · rename_i fits
      cases fitted
      rw [Int32.toInt_ofInt_of_le (by omega) (by omega)]
      exact signed?_eq_some_iff.mp numeral
    · cases fitted
  · intro numeral
    have low := x.le_toInt
    have high := x.toInt_lt
    refine Option.bind_eq_some_iff.mpr ⟨_, signed?_eq_some_iff.mpr numeral, ?_⟩
    rw [if_pos (by omega), Int32.ofInt_toInt]

/-! ### Printed numbers -/

theorem digits_repr (n : Nat) : Digits n.repr.toList n := by
  have all : ∀ c ∈ Nat.toDigits 10 n, c.isDigit = true := by
    intro c member
    exact Nat.isDigit_of_mem_toDigits (by decide) (by decide) member
  have written := Digits.of_all Nat.toDigits_ne_nil all
  rw [Nat.ofDigitChars_toDigits (by decide) (by decide)] at written
  rw [Nat.toList_repr]
  exact written

theorem unsigned_repr (n : Nat) : Unsigned n.repr.toList n := .bare (digits_repr n)

theorem toList_repr_negSucc (n : Nat) : (Int.negSucc n).repr.toList = '-' :: (n + 1).repr.toList :=
  String.toList_append

theorem signed_repr (i : Int) : Signed i.repr.toList i := by
  cases i with
  | ofNat n => exact .unsigned (unsigned_repr n)
  | negSucc n =>
    rw [toList_repr_negSucc]
    exact .minus (digits_repr (n + 1))

theorem uint8?_repr (x : UInt8) : uint8? x.toNat.repr.toList = some x := uint8?_eq_some_iff.mpr (unsigned_repr _)

theorem uint32?_repr (x : UInt32) : uint32? x.toNat.repr.toList = some x := uint32?_eq_some_iff.mpr (unsigned_repr _)

theorem int32?_repr (x : Int32) : int32? x.toInt.repr.toList = some x := int32?_eq_some_iff.mpr (signed_repr _)

/-! ### Hexadecimal numerals -/

def hexDigit? (c : Char) : Option Nat := "0123456789abcdef".toList.idxOf? c

def hexDigits? (cs : List Char) (n : Nat) : Option Nat :=
  cs.foldlM (fun n c => (hexDigit? c).map (16 * n + ·)) n

def hex? : List Char → Option Nat
  | '0' :: 'x' :: c :: cs => hexDigits? (c :: cs) 0
  | _ => none

theorem hexDigit?_digitChar {n : Nat} (small : n < 16) : hexDigit? n.digitChar = some n := by
  have all : ∀ n < 16, hexDigit? n.digitChar = some n := by decide
  exact all n small

theorem digitChar_of_mem_toDigits {b : Nat} (base : 1 < b) {c : Char} (member : c ∈ Nat.toDigits b n) :
    ∃ d < b, c = d.digitChar := by
  induction n using Nat.strongRecOn with
  | ind n ih =>
    by_cases small : n < b
    · rw [Nat.toDigits_of_lt_base small, List.mem_singleton] at member
      exact ⟨n, small, member⟩
    · rw [Nat.toDigits_of_base_le base (by omega), List.mem_append, List.mem_singleton] at member
      rcases member with front | last
      · exact ih (n / b) (Nat.div_lt_self (by omega) base) front
      · exact ⟨n % b, Nat.mod_lt n (by omega), last⟩

theorem hexDigits?_toDigits (n : Nat) : hexDigits? (Nat.toDigits 16 n) 0 = some n := by
  induction n using Nat.strongRecOn with
  | ind n ih =>
    by_cases small : n < 16
    · rw [Nat.toDigits_of_lt_base small, hexDigits?, List.foldlM_cons, hexDigit?_digitChar small]
      simp
    · have front : hexDigits? (Nat.toDigits 16 (n / 16)) 0 = some (n / 16) := ih (n / 16) (by omega)
      unfold hexDigits? at front ⊢
      rw [Nat.toDigits_of_base_le (by decide) (by omega), List.foldlM_append, front]
      simp only [Option.bind_eq_bind, Option.bind_some, List.foldlM_cons, List.foldlM_nil, Option.pure_def,
        hexDigit?_digitChar (Nat.mod_lt n (by decide)), Option.map_some]
      rw [Nat.div_add_mod]

theorem hex?_hex (n : Nat) : hex? (hex n).toList = some n := by
  have text : (hex n).toList = '0' :: 'x' :: Nat.toDigits 16 n := by
    simp [hex]
  have read := hexDigits?_toDigits n
  rw [text]
  cases digits : Nat.toDigits 16 n with
  | nil => exact (Nat.toDigits_ne_nil digits).elim
  | cons c cs =>
    rw [digits] at read
    exact read

end CallFrame.Numeral
