import CallFrame.Session.Basic

namespace CallFrame

abbrev BenchM (isa : Isa) := Emit (Bench isa)

namespace BenchM

variable {isa : Isa} {α : Type}

def bench : BenchM isa (Bench isa) := return (← get).sink

def update (f : Bench isa → Bench isa) : BenchM isa Unit := modify fun e => { e with sink := f e.sink }

def onMachine (x : MachineM α) : BenchM isa α :=
  Emit.onSink (zoom Bench.machine (fun b machine => { b with machine }) x)

def operand : BenchM isa MemOperand := do
  match (← bench).operand with
  | some mem => return mem
  | none => throw .noOperand

def useOperand (mem : MemOperand) : BenchM isa Reply := do
  update fun b => { b with operand := some mem }
  return .operand mem

def emitCode (code : List Instr) : BenchM isa Reply := do
  Emit.emitAll code
  return .done

def stackPointer : BenchM isa Reply := return .sp ((← bench).machine.sp isa)

/-- Gives the machine what was recorded since the last run. The mark moves first, so a fault repeats nothing. -/
def runPending : BenchM isa Unit := do
  let b ← bench
  update fun b => { b with ran := b.code.size }
  onMachine (Machine.run isa (b.code.toList.drop b.ran))

end BenchM

open BenchM

mutual

def Step.perform (isa : Isa) : Step → BenchM isa Reply
  | .emit i => emitCode [i]
  | .comment text => do
    Emit.comment text
    return .done
  | .annotate text i => do
    Emit.comment text
    emitCode [i]
  | .resolve base offset scratch => do useOperand (← Operand.resolve isa base offset scratch)
  | .bounded base offset => do useOperand (← Emit.orReject (Operand.bounded isa base offset))
  | .useOperand mem => do
    let _ ← BenchM.useOperand mem
    return .done
  | .load dst => do emitCode [.load dst (← operand)]
  | .store src => do emitCode [.store src (← operand)]
  | .save r file => do
    Emit.emitAll (isa.saveCode r file)
    return .bytes (isa.slotBytes file)
  | .reload r file => do
    Emit.emitAll (isa.reloadCode r file)
    return .bytes (isa.slotBytes file)
  | .move dst src => emitCode [.mov dst src]
  | .pad bytes => emitCode (isa.padCode bytes)
  | .unpad bytes => emitCode (isa.unpadCode bytes)
  | .buildAddress base offset scratch => emitCode (isa.addressCode base offset scratch)
  | .around pairs remap body => do
    let (frame, seen, replies) ← CallFrame.around isa pairs remap fun bytes => do
      return (bytes, ← performAll isa body)
    return .framed frame seen replies
  | .delta sp => return .delta ((← bench).code.stackShift (sp.getD isa.stackPointer))
  | .showCode => return .code (← bench).code.toList
  | .clear => do
    update fun b => { b with out := { b.out with fst := {} }, ran := 0, reported := 0 }
    return .done
  | .showListing => do
    let l := (← bench).listing
    return .listing l.text l.lines
  | .exportListing => return .exported (← bench).listing.text
  | .run => do
    runPending
    stackPointer
  | .exec i => do
    onMachine (Machine.step isa i)
    stackPointer
  | .newMachine => do
    update fun b => { b with machine := .new isa, ran := b.code.size }
    stackPointer
  | .set r v => do
    onMachine (modify fun m => m.set r v)
    return .done
  | .get r => return .value ((← bench).machine.get r)
  | .address => do
    let mem ← operand
    return .address ((← bench).machine.effectiveAddress mem)
  | .read addr bytes => return .value ((← bench).machine.read addr bytes)
  | .write addr bytes v => do
    onMachine (Machine.write addr bytes v)
    return .done

def performAll (isa : Isa) : List Step → BenchM isa (List Reply)
  | [] => return []
  | step :: rest => do
    let reply ← step.perform isa
    return reply :: (← performAll isa rest)

end

end CallFrame
