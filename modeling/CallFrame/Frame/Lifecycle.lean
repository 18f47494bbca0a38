import CallFrame.Frame.Basic
import CallFrame.Sequence
import CallFrame.Sink.Basic

/-! An operation that fails keeps the code it emitted and the bytes it counted, and the frame stays in its phase. -/
namespace CallFrame

abbrev FrameM (σ : Type) := EStateM Fault (Frame × Emission σ)

namespace FrameM

variable {σ α : Type}

def frame : FrameM σ Frame := return (← get).1

def update (f : Frame → Frame) : FrameM σ Unit := modify fun s => (f s.1, s.2)

def onEmission (x : Emit σ α) : FrameM σ α := zoom Prod.snd (fun s e => (s.1, e)) x

def note (event : Event) : FrameM σ Unit := onEmission (Emit.note event)

def reject (v : Violation) : FrameM σ α := onEmission (Emit.reject v)

def orReject (x : Except Violation α) : FrameM σ α := onEmission (Emit.orReject x)

def emitAll [Sink σ] (code : List Instr) : FrameM σ Unit := onEmission (Emit.emitAll code)

def comment [Sink σ] (text : String) : FrameM σ Unit := onEmission (Emit.comment text)

/-- Runs on a fresh frame, which is forgotten at the end. -/
def withFrame (pairs : List SavePair) (x : FrameM σ α) : Emit σ α := fun e =>
  match x ({ pairs }, e) with
  | .ok a s => .ok a s.2
  | .error fault s => .error fault s.2

end FrameM

namespace Frame

inductive Operation where
  | preserve | remap | restore
  deriving DecidableEq, Repr

def Operation.name : Operation → String
  | .preserve => "preserve"
  | .remap => "remap"
  | .restore => "restore"

def Operation.allowedIn : Operation → Phase → Bool
  | .preserve, .idle => true
  | .remap, .preserved => true
  | .restore, .preserved | .restore, .remapped => true
  | _, _ => false

open FrameM

variable {σ : Type}

def requireTurn (op : Operation) : FrameM σ Unit := do
  let phase := (← frame).phase
  if !op.allowedIn phase then reject (.outOfOrder op.name phase)

variable [Sink σ]

def save (isa : Isa) (p : SavePair) : FrameM σ Unit := do
  let c ← orReject (p.check isa)
  emitAll (isa.saveCode c.source c.file)
  let pushed ← ofExcept (addBytes (← frame).pushed (isa.slotBytes c.file))
  update fun f => { f with pushed }

def pad (isa : Isa) (padding : UInt32) : FrameM σ Unit := do
  if padding ≠ 0 then
    comment "stack alignment padding"
    emitAll (isa.padCode padding)
    update fun f => { f with padding }

/-- Saves every source in order, then pads the stack to its alignment. -/
def preserve (isa : Isa) : FrameM σ Unit := do
  requireTurn .preserve
  let pairs := (← frame).pairs
  pairs.forM (save isa)
  let pushed := (← frame).pushed
  let padding ← ofExcept (isa.profile.alignGap pushed)
  pad isa padding
  note (.preserved isa pairs.length pushed padding)
  update fun f => { f with phase := .preserved }

def move (isa : Isa) (p : SavePair) : FrameM σ Unit := do
  let c ← orReject (p.check isa)
  emitAll [.mov c.destination c.source]

/-- Copies each source to its destination where they differ. The copies run one after another on the live registers,
so a source that an earlier pair overwrites is read too late. -/
def remap (isa : Isa) : FrameM σ Unit := do
  requireTurn .remap
  let moving := (← frame).pairs.filter (!·.isIdentity)
  moving.forM (move isa)
  note (.remapped isa moving.length)
  update fun f => { f with phase := .remapped }

def reload (isa : Isa) (popped : UInt32) (p : SavePair) : FrameM σ UInt32 := do
  let c ← orReject (p.check isa)
  emitAll (isa.reloadCode c.destination c.file)
  ofExcept (addBytes popped (isa.slotBytes c.file))

/-- Drops the padding, then reloads every destination, the last saved first. -/
def restore (isa : Isa) : FrameM σ Unit := do
  requireTurn .restore
  let f ← frame
  if f.isPadded then emitAll (isa.unpadCode f.padding)
  let popped ← f.pairs.reverse.foldlM (reload isa) 0
  if popped ≠ f.pushed then throw (.unbalanced popped f.pushed)
  note (.restored isa popped f.padding)
  update fun f => { f with phase := .restored }

def Operation.perform (isa : Isa) : Operation → FrameM σ Unit
  | .preserve => Frame.preserve isa
  | .remap => Frame.remap isa
  | .restore => Frame.restore isa

end Frame
end CallFrame
