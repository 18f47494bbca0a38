import CallFrame.Asm.Render
import CallFrame.Machine.Lemmas
import CallFrame.Proofs.Numeral

/-! Assembly lines taken apart into the words they were written from. -/
namespace CallFrame.Asm

def words (line : String) : List String := (line.toList.splitOn ' ').map String.ofList

theorem words_eq {line : String} {ws : List String} (written : line.toList = (" ".intercalate ws).toList)
    (some_ : ws ≠ []) (clear : ∀ w ∈ ws, ' ' ∉ w.toList) : words line = ws := by
  have blank : " ".toList = [' '] := rfl
  unfold words
  rw [written, String.toList_intercalate, blank, List.splitOn_intercalate]
  · simp
  · simpa using clear
  · simpa using some_

def beforeComma? (word : String) : Option String :=
  match word.toList.reverse with
  | ',' :: front => some (String.ofList front.reverse)
  | _ => none

@[simp] theorem beforeComma?_comma (s : String) : beforeComma? (s ++ ",") = some s := by
  have last : (s ++ ",").toList.reverse = ',' :: s.toList.reverse := by simp
  rw [beforeComma?, last]
  simp

def Solid (s : String) : Prop := ∀ c ∈ s.toList, c.isAlphanum = true ∨ c = ':'

instance (s : String) : Decidable (Solid s) := List.decidableBAll _ s.toList

namespace Solid

variable {s t : String}

theorem append (first : Solid s) (second : Solid t) : Solid (s ++ t) := by
  intro c member
  rw [String.toList_append, List.mem_append] at member
  rcases member with front | back
  · exact first c front
  · exact second c back

theorem not_mem (solid : Solid s) {mark : Char} (other : mark.isAlphanum = false ∧ mark ≠ ':') : mark ∉ s.toList := by
  intro member
  rcases solid mark member with letter | colon
  · rw [other.1] at letter
    cases letter
  · exact other.2 colon

theorem repr (n : Nat) : Solid n.repr := by
  intro c member
  have digit := (Numeral.digits_repr n).isDigit c member
  simp [Char.isAlphanum, digit]

theorem numbered (solid : Solid s) (count : Nat) : ∀ n ∈ numbered s count, Solid n := by
  intro n member
  obtain ⟨i, -, rfl⟩ := List.mem_map.mp member
  exact solid.append (.repr i)

theorem hex (n : Nat) : Solid (Numeral.hex n) := by
  have digits : ∀ c ∈ Nat.toDigits 16 n, c.isAlphanum = true := by
    intro c member
    obtain ⟨d, small, rfl⟩ := Numeral.digitChar_of_mem_toDigits (by decide) member
    have letters : ∀ d < 16, d.digitChar.isAlphanum = true := by decide
    exact letters d small
  refine append (by decide) ?_
  intro c member
  exact .inl (digits c (by simpa using member))

theorem text (r : Register) : Solid r.text := by
  have file : Solid r.cls.file.text := by cases r.cls.file <;> decide
  exact ((file.append (.repr _)).append (by decide)).append (.repr _)

end Solid

theorem not_mem_toDigits (n : Nat) {mark : Char} (other : mark.isAlphanum = false ∧ mark ≠ ':') :
    mark ∉ Nat.toDigits 10 n := by
  rw [← Nat.toList_repr]
  exact (Solid.repr n).not_mem other

theorem blank_toDigits (n : Nat) : ' ' ∉ Nat.toDigits 10 n := not_mem_toDigits n (by decide)

theorem not_mem_int (i : Int) {mark : Char} (other : mark.isAlphanum = false ∧ mark ≠ ':') (minus : mark ≠ '-') :
    mark ∉ i.repr.toList := by
  cases i with
  | ofNat n => exact (Solid.repr n).not_mem other
  | negSucc n =>
    rw [Numeral.toList_repr_negSucc, List.mem_cons, not_or]
    exact ⟨minus, (Solid.repr (n + 1)).not_mem other⟩

theorem not_mem_displacement (d : Displacement) {mark : Char} (other : mark.isAlphanum = false ∧ mark ≠ ':')
    (minus : mark ≠ '-') : mark ∉ d.text.toList := by
  have digits := (Solid.repr d.magnitude.toNat).not_mem other
  rw [Displacement.text, String.toList_append, List.mem_append, not_or]
  refine ⟨?_, digits⟩
  split
  · simpa using minus
  · simp

def named? (names : List String) (make : UInt8 → Register) (name : String) : Option Register :=
  (names.idxOf? name).map fun i => make (UInt8.ofNat i)

variable {names : List String} {make : UInt8 → Register} {name : String}

theorem named?_of_getElem? (distinct : names.Nodup) {index : UInt8} (found : names[index.toNat]? = some name) :
    named? names make name = some (make index) := by
  obtain ⟨bound, rfl⟩ := List.getElem?_eq_some_iff.mp found
  have place : names.idxOf? names[index.toNat] = some index.toNat := by
    rw [List.idxOf?_eq_some_iff]
    refine ⟨bound, rfl, ?_⟩
    intro j before same
    exact List.pairwise_iff_getElem.mp distinct j index.toNat (Nat.lt_trans before bound) bound before same
  rw [named?, place, Option.map_some, UInt8.ofNat_toNat]

theorem named?_of_not_mem (absent : name ∉ names) : named? names make name = none := by
  rw [named?, List.idxOf?_eq_none_iff.mpr absent, Option.map_none]

variable {Line : Type} {read? : String → Option Line} {effect? : Machine → Line → Option Machine} {m : Machine}

def runText (read? : String → Option Line) (effect? : Machine → Line → Option Machine) (m : Machine)
    (lines : List String) : Option Machine :=
  lines.foldlM (fun m line => do effect? m (← read? line)) m

theorem runText_map {text : Line → String} {lines : List Line} (m : Machine)
    (readable : ∀ l ∈ lines, read? (text l) = some l) :
    runText read? effect? m (lines.map text) = lines.foldlM effect? m := by
  unfold runText
  induction lines generalizing m with
  | nil => rfl
  | cons l lines ih =>
    obtain ⟨first, others⟩ := List.forall_mem_cons.mp readable
    simp only [List.map_cons, List.foldlM_cons, first, Option.bind_eq_bind, Option.bind_some]
    cases effect? m l with
    | none => rfl
    | some m' => exact ih m' others

/-- The text of the instruction leaves the machine where the instruction itself does. -/
def TextFollows (isa : Isa) (read? : String → Option Line) (effect? : Machine → Line → Option Machine) (m : Machine)
    (i : Instr) : Prop :=
  ∃ m', Machine.step isa i m = .ok () m' ∧ runText read? effect? m (isa.render i) = some m'

theorem textFollows_of_lines {isa : Isa} {text : Line → String} {lines : List Line} {i : Instr}
    (rendered : isa.render i = lines.map text) (narrow : i.overwide = false)
    (readable : ∀ l ∈ lines, read? (text l) = some l) (run : lines.foldlM effect? m = some (m.effect isa i)) :
    TextFollows isa read? effect? m i := by
  refine ⟨m.effect isa i, Machine.step_narrow isa m narrow, ?_⟩
  rw [rendered, runText_map m readable, run]

end CallFrame.Asm
