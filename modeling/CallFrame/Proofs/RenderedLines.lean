import CallFrame.Proofs.A64Lines
import CallFrame.Proofs.AttLines

namespace CallFrame.Asm

structure CodeLine (line : String) : Prop where
  letter : ∃ c rest, line.toList = c :: rest ∧ c.isAlpha = true
  single : '\n' ∉ line.toList

theorem newline_toDigits (n : Nat) : '\n' ∉ Nat.toDigits 10 n := not_mem_toDigits n (by decide)

namespace Att

theorem newline_reg (r : Register) : '\n' ∉ (reg r).toList := not_mem_reg r (by decide) (by decide)

theorem newline_address (a : Address) : '\n' ∉ a.text.toList := not_mem_address a (by decide) (by decide)

theorem codeLine_text (l : Line) : CodeLine l.text := by
  have int : ∀ i : Int, '\n' ∉ i.repr.toList := fun i => not_mem_int i (by decide) (by decide)
  have hex : ∀ n, '\n' ∉ (Numeral.hex n).toList := fun n => (Solid.hex n).not_mem (by decide)
  constructor
  · cases l with
    | store op | load op | copy op => cases op <;> simp [Line.text, Transfer.text, Copy.text]
    | _ => simp [Line.text]
  · cases l with
    | store op | load op | copy op =>
      cases op <;> simp [Line.text, Transfer.text, Copy.text, newline_reg, newline_address]
    | _ => simp [Line.text, newline_reg, newline_address, newline_toDigits, int, hex]

end Att

namespace A64

theorem newline_reg (r : Register) : '\n' ∉ (reg r).toList := (solid_reg r).not_mem (by decide)

theorem newline_address (a : Address) : '\n' ∉ a.text.toList := by
  have displacement : ∀ d : Displacement, '\n' ∉ d.text.toList := fun d => not_mem_displacement d (by decide) (by decide)
  cases a <;> simp [Address.text, newline_reg, displacement]

theorem codeLine_text (l : Line) : CodeLine l.text := by
  constructor
  · cases l with
    | arithImm op | arith op => cases op <;> simp [Line.text, ArithOp.text]
    | _ => simp [Line.text]
  · cases l with
    | arithImm op _ _ _ shifted =>
      cases op <;> cases shifted <;> simp [Line.text, ArithOp.text, newline_reg, newline_toDigits]
    | arith op => cases op <;> simp [Line.text, ArithOp.text, newline_reg]
    | _ => simp [Line.text, newline_reg, newline_address, newline_toDigits]

end A64

theorem codeLine_render (isa : Isa) (i : Instr) : ∀ line ∈ isa.render i, CodeLine line := by
  intro line member
  cases isa with
  | x86_64 =>
    obtain ⟨l, -, rfl⟩ := List.mem_map.mp member
    exact Att.codeLine_text l
  | aarch64 =>
    obtain ⟨l, -, rfl⟩ := List.mem_map.mp member
    exact A64.codeLine_text l

end CallFrame.Asm
