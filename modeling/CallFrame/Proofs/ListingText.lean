import CallFrame.Proofs.Lifecycle
import CallFrame.Proofs.RenderedLines
import CallFrame.Sink.Listing

/-! Listings as rows of text, told apart as code and comments. -/
namespace CallFrame

variable {σ : Type} {isa : Isa}

/-! ### What a sink is sent -/

inductive Entry where
  | instr (i : Instr)
  | comment (text : String)

namespace Entry

def send [Sink σ] : Entry → EStateM Fault σ Unit
  | .instr i => Sink.emit i
  | .comment text => Sink.comment text

def instr? : Entry → Option Instr
  | .instr i => some i
  | .comment _ => none

end Entry

def sendAll [Sink σ] (entries : List Entry) : EStateM Fault σ Unit := entries.forM Entry.send

def codeOf (entries : List Entry) : List Instr := entries.filterMap Entry.instr?

/-! ### Rows of a text -/

def unlines : List String → String
  | [] => ""
  | row :: rows => row ++ "\n" ++ unlines rows

/-- What stands before each line feed; a last row that no line feed ends is not one of them. -/
def rowsOf (text : String) : List String := (text.toList.splitOn '\n').dropLast.map String.ofList

theorem unlines_append (first second : List String) : unlines (first ++ second) = unlines first ++ unlines second := by
  induction first with
  | nil => simp [unlines]
  | cons row first ih => simp [unlines, ih, String.append_assoc]

theorem splitOn_unlines {rows : List String} (single : ∀ row ∈ rows, '\n' ∉ row.toList) :
    (unlines rows).toList.splitOn '\n' = rows.map String.toList ++ [[]] := by
  induction rows with
  | nil => rfl
  | cons row rows ih =>
    obtain ⟨first, others⟩ := List.forall_mem_cons.mp single
    have text : (unlines (row :: rows)).toList = row.toList ++ '\n' :: (unlines rows).toList := by
      simp [unlines]
    rw [text, List.splitOn_append_cons_self_of_not_mem first, ih others]
    rfl

theorem rowsOf_unlines {rows : List String} (single : ∀ row ∈ rows, '\n' ∉ row.toList) :
    rowsOf (unlines rows) = rows := by
  rw [rowsOf, splitOn_unlines single]
  simp

/-! ### Rows of a listing -/

def margin (indent : Nat) : String := String.ofList (List.replicate indent ' ')

def Entry.rows (isa : Isa) (layout : Layout) : Entry → List String
  | .instr i => (isa.render i).map (margin layout.indent ++ ·)
  | .comment text => if layout.comments then [margin layout.indent ++ (isa.commentMark ++ " " ++ text)] else []

def rowsFor (isa : Isa) (layout : Layout) (entries : List Entry) : List String := entries.flatMap (·.rows isa layout)

def lineCount (isa : Isa) (code : List Instr) : Nat := (code.flatMap isa.render).length

namespace Listing

/-- The listing with more rows, of which `count` are code. -/
def extended (l : Listing isa) (rows : List String) (count : Nat) : Listing isa :=
  { l with text := l.text ++ unlines rows, lines := l.lines + count }

theorem extended_extended (l : Listing isa) (first second : List String) (a b : Nat) :
    (l.extended first a).extended second b = l.extended (first ++ second) (a + b) := by
  simp [extended, unlines_append, String.append_assoc, Nat.add_assoc]

theorem extended_nil (l : Listing isa) : l.extended [] 0 = l := by
  simp [extended, unlines]

theorem writeLine_ok (l : Listing isa) (narrow : l.layout.indent ≤ Layout.maxIndent) (line : String) :
    writeLine line l = .ok () (l.extended [margin l.layout.indent ++ line] 0) := by
  have row : l.text ++ margin l.layout.indent ++ line ++ "\n" = l.text ++ unlines [margin l.layout.indent ++ line] := by
    simp [unlines, String.append_assoc]
  unfold writeLine
  rw [bind_ok (show (get : EStateM Fault (Listing isa) _) l = .ok l l from rfl)]
  dsimp only
  rw [if_neg (Nat.not_lt.mpr narrow), extended, ← row]
  rfl

theorem writeInstr_ok (l : Listing isa) (narrow : l.layout.indent ≤ Layout.maxIndent) (line : String) :
    writeInstr line l = .ok () (l.extended [margin l.layout.indent ++ line] 1) := by
  unfold writeInstr
  rw [bind_ok (l.writeLine_ok narrow line)]
  rfl

theorem writeInstrs_ok (l : Listing isa) (narrow : l.layout.indent ≤ Layout.maxIndent) (lines : List String) :
    lines.forM writeInstr l = .ok () (l.extended (lines.map (margin l.layout.indent ++ ·)) lines.length) := by
  induction lines generalizing l with
  | nil =>
    rw [List.map_nil, List.length_nil, extended_nil]
    rfl
  | cons line lines ih =>
    have unrolled : (line :: lines).forM writeInstr l = (writeInstr line >>= fun _ => lines.forM writeInstr) l := rfl
    have rest := ih (l.extended [margin l.layout.indent ++ line] 1) narrow
    rw [unrolled, bind_ok (l.writeInstr_ok narrow line), rest, extended_extended, List.length_cons, Nat.add_comm]
    rfl

theorem send_ok (l : Listing isa) (narrow : l.layout.indent ≤ Layout.maxIndent) (entry : Entry) :
    entry.send l = .ok () (l.extended (entry.rows isa l.layout) (lineCount isa entry.instr?.toList)) := by
  cases entry with
  | instr i =>
    have count : lineCount isa [i] = (isa.render i).length := by simp [lineCount]
    change (isa.render i).forM writeInstr l = .ok () (l.extended _ (lineCount isa [i]))
    rw [count]
    exact l.writeInstrs_ok narrow (isa.render i)
  | comment text =>
    have opened : Entry.send (.comment text) l =
        (if l.layout.comments then writeLine (isa.commentMark ++ " " ++ text) else pure ()) l := rfl
    rw [opened, Entry.rows]
    cases l.layout.comments with
    | true => exact l.writeLine_ok narrow _
    | false =>
      change EStateM.Result.ok () l = .ok () (l.extended [] 0)
      rw [extended_nil]

theorem sendAll_ok (l : Listing isa) (narrow : l.layout.indent ≤ Layout.maxIndent) (entries : List Entry) :
    sendAll entries l = .ok () (l.extended (rowsFor isa l.layout entries) (lineCount isa (codeOf entries))) := by
  induction entries generalizing l with
  | nil =>
    change EStateM.Result.ok () l = .ok () (l.extended [] 0)
    rw [extended_nil]
  | cons entry entries ih =>
    have unrolled : sendAll (entry :: entries) l = (entry.send >>= fun _ => sendAll entries) l := rfl
    have code : codeOf (entry :: entries) = entry.instr?.toList ++ codeOf entries := by
      cases entry <;> rfl
    have rest := ih (l.extended (entry.rows isa l.layout) (lineCount isa entry.instr?.toList)) narrow
    have count : lineCount isa (codeOf (entry :: entries)) =
        lineCount isa entry.instr?.toList + lineCount isa (codeOf entries) := by
      simp [lineCount, code]
    rw [unrolled, bind_ok (l.send_ok narrow entry), rest, extended_extended, count]
    rfl

theorem sendAll_fresh (isa : Isa) (layout : Layout) (narrow : layout.indent ≤ Layout.maxIndent) (entries : List Entry) :
    sendAll entries ({ layout } : Listing isa) =
      .ok () ⟨layout, unlines (rowsFor isa layout entries), lineCount isa (codeOf entries)⟩ := by
  rw [sendAll_ok { layout } narrow entries, extended]
  simp

end Listing

/-! ### Rows of comments -/

def isComment (isa : Isa) (indent : Nat) (row : String) : Bool := isa.commentMark.toList.isPrefixOf (row.toList.drop indent)

def blanks (row : String) : Nat := (row.toList.takeWhile (· == ' ')).length

theorem drop_margin (indent : Nat) (line : String) : (margin indent ++ line).toList.drop indent = line.toList := by
  simp [margin]

theorem blanks_margin (indent : Nat) {line : String} {c : Char} {rest : List Char} (begins : line.toList = c :: rest)
    (inked : c ≠ ' ') : blanks (margin indent ++ line) = indent := by
  have text : (margin indent ++ line).toList = List.replicate indent ' ' ++ c :: rest := by
    simp [margin, begins]
  have stop : (c == ' ') = false := by simpa using inked
  rw [blanks, text, List.takeWhile_append_of_pos (by simp), List.takeWhile_cons_of_neg (by simp [stop])]
  simp

theorem newline_margin (indent : Nat) {line : String} (single : '\n' ∉ line.toList) :
    '\n' ∉ (margin indent ++ line).toList := by
  simp [margin, single]

theorem isComment_code (indent : Nat) {line : String} (code : Asm.CodeLine line) :
    isComment isa indent (margin indent ++ line) = false := by
  obtain ⟨c, rest, begins, letter⟩ := code.letter
  rw [isComment, drop_margin, begins]
  cases isa with
  | x86_64 =>
    have other : ('#' == c) = false := by
      rw [beq_eq_false_iff_ne]
      rintro rfl
      cases letter
    change (('#' == c) && List.isPrefixOf [] rest) = false
    rw [other]
    rfl
  | aarch64 =>
    have other : ('/' == c) = false := by
      rw [beq_eq_false_iff_ne]
      rintro rfl
      cases letter
    change (('/' == c) && List.isPrefixOf ['/'] rest) = false
    rw [other]
    rfl

theorem isComment_comment (indent : Nat) (text : String) :
    isComment isa indent (margin indent ++ (isa.commentMark ++ " " ++ text)) = true := by
  rw [isComment, drop_margin, List.isPrefixOf_iff_prefix, String.toList_append, String.toList_append,
    List.append_assoc]
  exact List.prefix_append _ _

variable {layout : Layout}

/-- Taking the comment rows of an entry away leaves what it adds to a listing without comments. -/
theorem Entry.filter_rows (entry : Entry) :
    (entry.rows isa layout).filter (fun row => !isComment isa layout.indent row) =
      entry.rows isa { layout with comments := false } := by
  cases entry with
  | instr i =>
    apply List.filter_eq_self.mpr
    intro row member
    obtain ⟨line, rendered, rfl⟩ := List.mem_map.mp member
    rw [isComment_code layout.indent (Asm.codeLine_render isa i line rendered)]
    rfl
  | comment text =>
    unfold Entry.rows
    cases layout.comments with
    | true => simp [isComment_comment]
    | false => rfl

theorem filter_rowsFor (entries : List Entry) :
    (rowsFor isa layout entries).filter (fun row => !isComment isa layout.indent row) =
      rowsFor isa { layout with comments := false } entries := by
  simp only [rowsFor, List.filter_flatMap, Entry.filter_rows]

theorem rowsFor_bare (entries : List Entry) :
    rowsFor isa { layout with comments := false } entries =
      ((codeOf entries).flatMap isa.render).map (margin layout.indent ++ ·) := by
  induction entries with
  | nil => rfl
  | cons entry entries ih =>
    cases entry with
    | instr i =>
      change (isa.render i).map (margin layout.indent ++ ·) ++ rowsFor isa { layout with comments := false } entries = _
      rw [ih, ← List.map_append]
      rfl
    | comment text => exact ih

theorem Entry.row_shape {entry : Entry} (single : ∀ text, entry = .comment text → '\n' ∉ text.toList) :
    ∀ row ∈ entry.rows isa layout, blanks row = layout.indent ∧ '\n' ∉ row.toList := by
  intro row member
  cases entry with
  | instr i =>
    obtain ⟨line, rendered, rfl⟩ := List.mem_map.mp member
    have code := Asm.codeLine_render isa i line rendered
    obtain ⟨c, rest, begins, letter⟩ := code.letter
    refine ⟨blanks_margin _ begins ?_, newline_margin _ code.single⟩
    rintro rfl
    cases letter
  | comment text =>
    have clear := single text rfl
    have row_eq : row = margin layout.indent ++ (isa.commentMark ++ " " ++ text) := by
      simp only [Entry.rows] at member
      split at member
      · exact List.mem_singleton.mp member
      · cases member
    subst row_eq
    cases isa with
    | x86_64 =>
      refine ⟨blanks_margin _ (c := '#') (by simp [Isa.commentMark]; rfl) (by decide), newline_margin _ ?_⟩
      simp [Isa.commentMark, clear]
    | aarch64 =>
      refine ⟨blanks_margin _ (c := '/') (by simp [Isa.commentMark]; rfl) (by decide), newline_margin _ ?_⟩
      simp [Isa.commentMark, clear]

theorem rowsFor_shape {entries : List Entry} (single : ∀ text, .comment text ∈ entries → '\n' ∉ text.toList) :
    ∀ row ∈ rowsFor isa layout entries, blanks row = layout.indent ∧ '\n' ∉ row.toList := by
  intro row member
  obtain ⟨entry, sent, here⟩ := List.mem_flatMap.mp member
  refine entry.row_shape ?_ row here
  rintro text rfl
  exact single text sent

/-- Instructions and comments of one line each, in any order, written with any margin. Every row of the listing is ended
by a line feed and begins with just the margin; without its comment rows it is the listing written with comments switched
off, which has one row for each line of the instructions. Both count these lines. -/
theorem comments_leave_code_alone (isa : Isa) (layout : Layout) (narrow : layout.indent ≤ 65535) (entries : List Entry)
    (single : ∀ text, .comment text ∈ entries → '\n' ∉ text.toList) :
    ∃ full bare : Listing isa,
      sendAll entries ({ layout } : Listing isa) = .ok () full ∧
      sendAll entries ({ layout := { layout with comments := false } } : Listing isa) = .ok () bare ∧
      full.text = unlines (rowsOf full.text) ∧
      (∀ row ∈ rowsOf full.text, blanks row = layout.indent) ∧
      bare.text = unlines ((rowsOf full.text).filter fun row => !isComment isa layout.indent row) ∧
      rowsOf bare.text = ((codeOf entries).flatMap isa.render).map (margin layout.indent ++ ·) ∧
      full.lines = (rowsOf bare.text).length ∧ bare.lines = (rowsOf bare.text).length := by
  have rows : rowsOf (unlines (rowsFor isa layout entries)) = rowsFor isa layout entries :=
    rowsOf_unlines fun row member => (rowsFor_shape single row member).2
  have bareRows : rowsOf (unlines (rowsFor isa { layout with comments := false } entries)) =
      rowsFor isa { layout with comments := false } entries :=
    rowsOf_unlines fun row member => (rowsFor_shape single row member).2
  have count : (rowsFor isa { layout with comments := false } entries).length = lineCount isa (codeOf entries) := by
    rw [rowsFor_bare, List.length_map]
    rfl
  refine ⟨_, _, Listing.sendAll_fresh isa layout narrow entries,
    Listing.sendAll_fresh isa { layout with comments := false } narrow entries, ?_, ?_, ?_, ?_, ?_, ?_⟩
  · rw [rows]
  · rw [rows]
    exact fun row member => (rowsFor_shape single row member).1
  · rw [rows, filter_rowsFor]
  · rw [bareRows, rowsFor_bare]
  · rw [bareRows, count]
  · rw [bareRows, count]

/-- A comment that reads like code, before an instruction of two lines. -/
theorem code_like_comment_leaves_code_alone :
    let layout : Layout := { indent := 2 }
    let entries : List Entry := [.comment "negq %r11", .instr (.sub (.gp64 11) (.gp64 7) (.gp64 11))]
    (layout.indent ≤ 65535 ∧ ∀ text, .comment text ∈ entries → '\n' ∉ text.toList) ∧
    ∃ full bare : Listing .x86_64,
      sendAll entries ({ layout } : Listing .x86_64) = .ok () full ∧
      sendAll entries ({ layout := { layout with comments := false } } : Listing .x86_64) = .ok () bare ∧
      full.text = "  # negq %r11\n  negq %r11\n  addq %rdi, %r11\n" ∧
      bare.text = unlines ((rowsOf full.text).filter fun row => !isComment .x86_64 layout.indent row) ∧
      rowsOf bare.text = ["  negq %r11", "  addq %rdi, %r11"] ∧ full.lines = 2 := by
  intro layout entries
  have single : ∀ text, .comment text ∈ entries → '\n' ∉ text.toList := by
    intro text member
    obtain rfl : text = "negq %r11" := by simpa [entries] using member
    decide
  obtain ⟨full, bare, sent, bareSent, -, -, text, rows, lines, -⟩ :=
    comments_leave_code_alone .x86_64 layout (by decide) entries single
  have written : sendAll entries ({ layout } : Listing .x86_64) =
      .ok () ⟨layout, "  # negq %r11\n  negq %r11\n  addq %rdi, %r11\n", 2⟩ := rfl
  have twoRows : rowsOf bare.text = ["  negq %r11", "  addq %rdi, %r11"] := rows.trans rfl
  rw [twoRows] at lines
  refine ⟨⟨by decide, single⟩, full, bare, sent, bareSent, ?_, text, twoRows, lines⟩
  rw [written] at sent
  cases sent
  rfl

end CallFrame
