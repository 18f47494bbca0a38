import CallFrame.Event
import CallFrame.Instr.Basic
import CallFrame.Zoom

namespace CallFrame

class Sink (σ : Type) where
  emit : Instr → EStateM Fault σ Unit
  comment : String → EStateM Fault σ Unit

structure Emission (σ : Type) where
  sink : σ
  journal : Array Event := #[]

abbrev Emit (σ : Type) := EStateM Fault (Emission σ)

namespace Emit

variable {σ α : Type}

def onSink (x : EStateM Fault σ α) : Emit σ α :=
  zoom Emission.sink (fun e s => { e with sink := s }) x

def note (event : Event) : Emit σ Unit :=
  modify fun e => { e with journal := e.journal.push event }

def reject (v : Violation) : Emit σ α := do
  note (.violated v)
  throw (.violation v)

def orReject : Except Violation α → Emit σ α
  | .ok a => pure a
  | .error v => reject v

variable [Sink σ]

def emit (i : Instr) : Emit σ Unit := onSink (Sink.emit i)

def emitAll (code : List Instr) : Emit σ Unit := code.forM emit

def comment (text : String) : Emit σ Unit := onSink (Sink.comment text)

end Emit

/-- Two sinks fed alike, the first before the second. -/
structure Tee (σ τ : Type) where
  fst : σ
  snd : τ

namespace Tee

variable {σ τ α : Type}

def onFst (x : EStateM Fault σ α) : EStateM Fault (Tee σ τ) α :=
  zoom Tee.fst (fun t s => { t with fst := s }) x

def onSnd (x : EStateM Fault τ α) : EStateM Fault (Tee σ τ) α :=
  zoom Tee.snd (fun t s => { t with snd := s }) x

instance [Sink σ] [Sink τ] : Sink (Tee σ τ) where
  emit i := do onFst (Sink.emit i); onSnd (Sink.emit i)
  comment text := do onFst (Sink.comment text); onSnd (Sink.comment text)

end Tee
end CallFrame
