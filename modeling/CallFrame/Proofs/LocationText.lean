import CallFrame.Location.Parser
import CallFrame.Proofs.Numeral

namespace CallFrame

namespace Location

/-- A stack slot, or a register of a positive number of whole bytes. -/
def Readable : Location → Prop
  | .register r => 0 < r.cls.bits.toNat ∧ 8 ∣ r.cls.bits.toNat
  | .stack _ => True

instance : (l : Location) → Decidable l.Readable
  | .register _ => inferInstanceAs (Decidable (_ ∧ _))
  | .stack _ => inferInstanceAs (Decidable True)

/-- The written forms of a location. Widths are not restricted here. -/
inductive Spelled : List Char → Location → Prop
  | stack {cs : List Char} {offset : Int32} (numeral : Numeral.Signed cs offset.toInt) :
      Spelled ("stack[".toList ++ cs ++ "]".toList) (.stack offset)
  | register {file : RegFile} {width number : List Char} {bits : UInt32} {index : UInt8}
      (bitsNumeral : Numeral.Unsigned width bits.toNat) (indexNumeral : Numeral.Unsigned number index.toNat) :
      Spelled (file.text.toList ++ width ++ ":".toList ++ number) (.register ⟨⟨file, bits⟩, index⟩)

variable {cs tag rest body : List Char}

/-! ### Brackets -/

theorem after?_eq_some_iff : after? tag cs = some rest ↔ cs = tag ++ rest := by
  induction tag generalizing cs with
  | nil => simp [after?]
  | cons t tag ih =>
    cases cs with
    | nil => simp [after?]
    | cons c cs =>
      rw [after?]
      split
      · rename_i same
        rw [ih, same, List.cons_append, List.cons.injEq]
        simp
      · rename_i other
        simp [Ne.symm other]

theorem after?_append (tag rest : List Char) : after? tag (tag ++ rest) = some rest :=
  after?_eq_some_iff.mpr rfl

theorem after?_of_not_mem {mark : Char} (absent : mark ∉ cs) : after? [mark] cs = none := by
  rw [Option.eq_none_iff_forall_ne_some]
  intro rest found
  rw [after?_eq_some_iff.mp found] at absent
  exact absent List.mem_cons_self

theorem slotBody?_eq_some_iff : slotBody? cs = some body ↔ cs = "stack[".toList ++ body ++ "]".toList := by
  unfold slotBody?
  constructor
  · intro read
    obtain ⟨inner, opened, closed⟩ := Option.bind_eq_some_iff.mp read
    split at closed
    · rename_i last
      obtain ⟨front, rfl⟩ := List.getLast?_eq_some_iff.mp last
      rw [List.dropLast_concat] at closed
      cases closed
      rw [after?_eq_some_iff.mp opened, List.append_assoc]
      rfl
    · cases closed
  · rintro rfl
    rw [List.append_assoc]
    refine Option.bind_eq_some_iff.mpr ⟨_, after?_append _ _, ?_⟩
    have last : (body ++ "]".toList).getLast? = some ']' := List.getLast?_concat
    rw [if_pos last]
    exact congrArg some List.dropLast_concat

/-! ### Classes -/

theorem whole_iff (bits : UInt32) : (bits ≠ 0 ∧ bits % 8 = 0) ↔ (0 < bits.toNat ∧ 8 ∣ bits.toNat) := by
  have positive : bits ≠ 0 ↔ 0 < bits.toNat := by
    rw [Nat.pos_iff_ne_zero, ne_eq, ne_eq, ← UInt32.toNat_inj, UInt32.toNat_zero]
  have multiple : bits % 8 = 0 ↔ 8 ∣ bits.toNat := by
    rw [← UInt32.toNat_inj, UInt32.toNat_mod, Nat.dvd_iff_mod_eq_zero]
    rfl
  rw [positive, multiple]

theorem readWidth?_numeral {bits : UInt32} (numeral : Numeral.Unsigned cs bits.toNat) :
    readWidth? cs = if 0 < bits.toNat ∧ 8 ∣ bits.toNat then some bits else none := by
  unfold readWidth?
  rw [Numeral.uint32?_eq_some_iff.mpr numeral]
  simp only [Option.bind_eq_bind, Option.bind_some, whole_iff]

theorem readWidth?_ok {bits : UInt32} (read : readWidth? cs = some bits) :
    Numeral.Unsigned cs bits.toNat ∧ 0 < bits.toNat ∧ 8 ∣ bits.toNat := by
  unfold readWidth? at read
  obtain ⟨n, numeral, kept⟩ := Option.bind_eq_some_iff.mp read
  split at kept
  · rename_i good
    cases kept
    exact ⟨Numeral.uint32?_eq_some_iff.mp numeral, (whole_iff bits).mp good⟩
  · cases kept

theorem readClass?_append (file : RegFile) (width : List Char) :
    readClass? (file.text.toList ++ width) = (readWidth? width).map (⟨file, ·⟩) := by
  cases file with
  | general => rfl
  | vector => rfl

theorem readClass?_ok {cls : RegClass} (read : readClass? cs = some cls) :
    ∃ width, cs = cls.file.text.toList ++ width ∧ readWidth? width = some cls.bits := by
  unfold readClass? at read
  split at read
  · rename_i width tagged
    obtain ⟨bits, wide, rfl⟩ := Option.map_eq_some_iff.mp read
    have tag : RegFile.general.text.toList = ['g', 'p'] := rfl
    exact ⟨width, tag ▸ after?_eq_some_iff.mp tagged, wide⟩
  · obtain ⟨width, tagged, made⟩ := Option.bind_eq_some_iff.mp read
    obtain ⟨bits, wide, rfl⟩ := Option.map_eq_some_iff.mp made
    have tag : RegFile.vector.text.toList = ['v', 'e', 'c'] := rfl
    exact ⟨width, tag ▸ after?_eq_some_iff.mp tagged, wide⟩

/-! ### The first colon -/

theorem cut_mark {mark : Char} {front : List Char} (clear : mark ∉ front) (back : List Char) :
    (front ++ mark :: back).takeWhile (· ≠ mark) = front ∧
      (front ++ mark :: back).dropWhile (· ≠ mark) = mark :: back := by
  have others : ∀ c ∈ front, decide (c ≠ mark) = true := by
    intro c member
    exact decide_eq_true (ne_of_mem_of_not_mem member clear)
  constructor
  · rw [List.takeWhile_append_of_pos others, List.takeWhile_cons_of_neg (by simp), List.append_nil]
  · rw [List.dropWhile_append_of_pos others, List.dropWhile_cons_of_neg (by simp)]

theorem readRegister?_append {front back : List Char} (clear : ':' ∉ front) :
    readRegister? (front ++ ':' :: back) =
      (do let cls ← readClass? front; let index ← Numeral.uint8? back; some ⟨cls, index⟩) := by
  obtain ⟨taken, dropped⟩ := cut_mark clear back
  unfold readRegister?
  rw [taken, dropped]

theorem readRegister?_ok {r : Register} (read : readRegister? cs = some r) :
    ∃ front back, cs = front ++ ':' :: back ∧ readClass? front = some r.cls ∧
      Numeral.uint8? back = some r.index := by
  have whole : cs.takeWhile (· ≠ ':') ++ cs.dropWhile (· ≠ ':') = cs := List.takeWhile_append_dropWhile
  have stop := List.head?_dropWhile_not (· ≠ ':') cs
  unfold readRegister? at read
  split at read
  · cases read
  · rename_i colon back found
    rw [found] at whole stop
    obtain ⟨cls, class_, indexed⟩ := Option.bind_eq_some_iff.mp read
    obtain ⟨index, number, made⟩ := Option.bind_eq_some_iff.mp indexed
    cases made
    have first : colon = ':' := by simpa using stop
    rw [first] at whole
    exact ⟨_, back, whole.symm, class_, number⟩

/-! ### Whole texts -/

theorem colon_not_mem_unsigned {n : Nat} (numeral : Numeral.Unsigned cs n) : ':' ∉ cs := by
  cases numeral with
  | bare digits =>
    intro member
    cases digits.isDigit _ member
  | plus digits =>
    intro member
    rcases List.mem_cons.mp member with sign | later
    · cases sign
    · cases digits.isDigit _ later

theorem colon_not_mem_file (file : RegFile) : ':' ∉ file.text.toList := by
  cases file <;> decide

/-- Register texts start with another letter than slots, so the readers never compete. -/
theorem slotBody?_register (file : RegFile) (rest : List Char) : slotBody? (file.text.toList ++ rest) = none := by
  cases file with
  | general => rfl
  | vector => rfl

theorem ofChars?_spelled {l : Location} (spelled : Spelled cs l) :
    ofChars? cs = if l.Readable then some l else none := by
  cases spelled with
  | @stack body offset numeral =>
    unfold ofChars?
    rw [slotBody?_eq_some_iff.mpr rfl, if_pos (show (Location.stack offset).Readable from trivial)]
    dsimp only
    rw [Numeral.int32?_eq_some_iff.mpr numeral, Option.map_some]
  | @register file width number bits index bitsNumeral indexNumeral =>
    have clear : ':' ∉ file.text.toList ++ width := by
      intro member
      rcases List.mem_append.mp member with tag | numeral
      · exact colon_not_mem_file file tag
      · exact colon_not_mem_unsigned bitsNumeral numeral
    have noSlot : slotBody? (file.text.toList ++ width ++ ":".toList ++ number) = none := by
      rw [List.append_assoc, List.append_assoc]
      exact slotBody?_register file _
    have split : file.text.toList ++ width ++ ":".toList ++ number =
        (file.text.toList ++ width) ++ ':' :: number := List.append_assoc _ _ _
    unfold ofChars?
    rw [noSlot, split]
    dsimp only
    rw [readRegister?_append clear, readClass?_append, readWidth?_numeral bitsNumeral,
      Numeral.uint8?_eq_some_iff.mpr indexNumeral]
    by_cases whole : 0 < bits.toNat ∧ 8 ∣ bits.toNat
    · rw [if_pos whole, if_pos (show (Location.register ⟨⟨file, bits⟩, index⟩).Readable from whole)]
      rfl
    · rw [if_neg whole, if_neg (show ¬ (Location.register ⟨⟨file, bits⟩, index⟩).Readable from whole)]
      rfl

theorem spelled_of_ofChars? {l : Location} (read : ofChars? cs = some l) : Spelled cs l ∧ l.Readable := by
  unfold ofChars? at read
  split at read
  · rename_i body slot
    obtain ⟨offset, numeral, rfl⟩ := Option.map_eq_some_iff.mp read
    rw [slotBody?_eq_some_iff.mp slot]
    exact ⟨.stack (Numeral.int32?_eq_some_iff.mp numeral), trivial⟩
  · obtain ⟨r, found, rfl⟩ := Option.map_eq_some_iff.mp read
    obtain ⟨front, number, rfl, class_, index⟩ := readRegister?_ok found
    obtain ⟨width, rfl, wide⟩ := readClass?_ok class_
    obtain ⟨bits, whole⟩ := readWidth?_ok wide
    have spelled : Spelled (r.cls.file.text.toList ++ width ++ ":".toList ++ number) (.register r) :=
      .register bits (Numeral.uint8?_eq_some_iff.mp index)
    rw [List.append_assoc] at spelled
    exact ⟨spelled, whole⟩

theorem ofChars?_eq_some_iff {l : Location} : ofChars? cs = some l ↔ Spelled cs l ∧ l.Readable := by
  constructor
  · exact spelled_of_ofChars?
  · rintro ⟨spelled, readable⟩
    rw [ofChars?_spelled spelled, if_pos readable]

theorem spelled_text (l : Location) : Spelled l.text.toList l := by
  cases l with
  | stack offset =>
    simp only [text, String.toList_append]
    exact .stack (Numeral.signed_repr _)
  | register r =>
    simp only [text, Register.text, RegClass.text, String.toList_append]
    exact .register (Numeral.unsigned_repr _) (Numeral.unsigned_repr _)

theorem parse_eq_ok_iff {s : String} {l : Location} : parse s = .ok l ↔ ofChars? s.toList = some l := by
  unfold parse
  cases ofChars? s.toList with
  | some found => rw [Except.ok.injEq, Option.some.injEq]
  | none => exact ⟨nofun, nofun⟩

theorem parse_eq_error_iff {s : String} {e : ReadError} :
    parse s = .error e ↔ e = .badLocation s ∧ ofChars? s.toList = none := by
  unfold parse
  cases ofChars? s.toList with
  | some found => exact ⟨nofun, fun both => nomatch both.2⟩
  | none =>
    rw [Except.error.injEq]
    exact ⟨fun same => ⟨same.symm, rfl⟩, fun both => both.1.symm⟩

end Location

open Location

/-- A text is read exactly if it is a written form of a readable location, and refused with itself otherwise. -/
theorem parse_accepts_written_forms (s : String) :
    (∀ l, Location.parse s = .ok l ↔ Spelled s.toList l ∧ l.Readable) ∧
      ∀ e, Location.parse s = .error e ↔ e = .badLocation s ∧ ¬ ∃ l, Spelled s.toList l ∧ l.Readable := by
  refine ⟨fun l => parse_eq_ok_iff.trans ofChars?_eq_some_iff, fun e => parse_eq_error_iff.trans ?_⟩
  apply and_congr_right
  intro _
  rw [Option.eq_none_iff_forall_ne_some, not_exists]
  exact forall_congr' fun l => not_congr ofChars?_eq_some_iff

/-- Signs and leading zeros are read, a doubled sign and an odd width are not. -/
example :
    Location.parse "gp+064:007" = .ok (.register (.gp64 7)) ∧
      Location.parse "stack[-00]" = .ok (.stack 0) ∧
      Location.parse "stack[+-1]" = .error (.badLocation "stack[+-1]") ∧
      Location.parse "vec12:0" = .error (.badLocation "vec12:0") :=
  ⟨rfl, rfl, rfl, rfl⟩

/-- Printing and reading give a location back exactly if it is readable, so whatever was read survives being printed. -/
theorem text_reads_back_iff_readable (l : Location) :
    Location.parse l.text = (if l.Readable then .ok l else .error (.badLocation l.text)) ∧
      ∀ s, Location.parse s = .ok l → Location.parse l.text = .ok l := by
  have chars := ofChars?_spelled (spelled_text l)
  have printed : Location.parse l.text = (if l.Readable then .ok l else .error (.badLocation l.text)) := by
    by_cases readable : l.Readable
    · rw [if_pos readable] at chars ⊢
      exact parse_eq_ok_iff.mpr chars
    · rw [if_neg readable] at chars ⊢
      exact parse_eq_error_iff.mpr ⟨rfl, chars⟩
  refine ⟨printed, ?_⟩
  intro s read
  have readable : l.Readable := (spelled_of_ofChars? (parse_eq_ok_iff.mp read)).2
  rw [printed, if_pos readable]

/-- The lowest slot, read from a text with zeros in front, and a width that is printed but not read. -/
theorem lowest_slot_reads_back :
    Location.parse "stack[-002147483648]" = .ok (.stack Int32.minValue) ∧
      Location.parse (Location.stack Int32.minValue).text = .ok (.stack Int32.minValue) ∧
      Location.parse (Location.register ⟨⟨.vector, 4294967295⟩, 255⟩).text =
        .error (.badLocation "vec4294967295:255") := by
  have read : Location.parse "stack[-002147483648]" = .ok (.stack Int32.minValue) := rfl
  refine ⟨read, (text_reads_back_iff_readable _).2 _ read, ?_⟩
  have refused := (text_reads_back_iff_readable (.register ⟨⟨.vector, 4294967295⟩, 255⟩)).1
  rw [if_neg (by decide)] at refused
  exact refused

end CallFrame
