import CallFrame.Asm.Render
import CallFrame.Sink.Basic

namespace CallFrame

structure Layout where
  comments : Bool := true
  indent : Nat := 4
  deriving DecidableEq, Repr

def Layout.maxIndent : Nat := 65535

structure Listing (isa : Isa) where
  layout : Layout := {}
  text : String := ""
  lines : Nat := 0

namespace Listing

variable {isa : Isa}

def writeLine (line : String) : EStateM Fault (Listing isa) Unit := do
  let indent := (← get).layout.indent
  if Layout.maxIndent < indent then throw .wideIndent
  modify fun l => { l with text := l.text ++ String.ofList (List.replicate indent ' ') ++ line ++ "\n" }

def writeInstr (line : String) : EStateM Fault (Listing isa) Unit := do
  writeLine line
  modify fun l => { l with lines := l.lines + 1 }

instance : Sink (Listing isa) where
  emit i := (isa.render i).forM writeInstr
  comment text := do
    if (← get).layout.comments then writeLine (isa.commentMark ++ " " ++ text)

end Listing
end CallFrame
