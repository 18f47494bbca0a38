import CallFrame.Session.Step

namespace CallFrame

inductive Call where
  | frame (op : Frame.Operation)
  | inspect
  | step (s : Step)

structure Session (isa : Isa) where
  frame : Frame
  bench : Bench isa

structure Report where
  result : Except Fault Reply
  instrs : List Instr
  text : String
  events : List Event
  frame : Frame

def Call.perform (isa : Isa) : Call → FrameM (Bench isa) Reply
  | .frame op => do
    op.perform isa
    return .done
  | .inspect => return .done
  | .step s => FrameM.onEmission (s.perform isa)

namespace Session

variable {isa : Isa}

def new (isa : Isa) (pairs : List SavePair) (layout : Layout) : Session isa :=
  { frame := { pairs }, bench := .new isa layout }

/-- What is new on the bench since the last report; the bench remembers that it was reported. -/
def settle (before : Session isa) (result : Except Fault Reply) (frame : Frame)
    (e : Emission (Bench isa)) : Report × Session isa :=
  let bench := e.sink
  ({ result
     instrs := bench.code.toList.drop bench.reported
     text := (bench.listing.text.drop before.bench.listing.text.length).copy
     events := e.journal.toList
     frame },
    { frame, bench := { bench with reported := bench.code.size } })

def call (s : Session isa) (c : Call) : Report × Session isa :=
  match c.perform isa (s.frame, { sink := s.bench }) with
  | .ok reply (frame, e) => s.settle (.ok reply) frame e
  | .error fault (frame, e) => s.settle (.error fault) frame e

def calls (s : Session isa) : List Call → List Report
  | [] => []
  | c :: rest =>
    let (report, next) := s.call c
    report :: next.calls rest

end Session
end CallFrame
