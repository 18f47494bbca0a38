import CallFrame.Frame.Around
import CallFrame.Machine.Basic
import CallFrame.Operand
import CallFrame.Sink.Code
import CallFrame.Sink.Listing

/-! Emitter, listing and machine side by side, driven in small steps. -/
namespace CallFrame

structure Bench (isa : Isa) where
  out : Tee Code (Listing isa)
  machine : Machine := .new isa
  /-- The operand that loads, stores and address queries use. -/
  operand : Option MemOperand := none
  /-- How many recorded instructions the machine has been given. -/
  ran : Nat := 0
  /-- How many recorded instructions have been reported. -/
  reported : Nat := 0

namespace Bench

variable {isa : Isa} {α : Type}

def new (isa : Isa) (layout : Layout) : Bench isa := { out := ⟨{}, { layout }⟩ }

def code (b : Bench isa) : Code := b.out.fst

def listing (b : Bench isa) : Listing isa := b.out.snd

def onOut (x : EStateM Fault (Tee Code (Listing isa)) α) : EStateM Fault (Bench isa) α :=
  zoom Bench.out (fun b out => { b with out }) x

instance : Sink (Bench isa) where
  emit i := onOut (Sink.emit i)
  comment text := onOut (Sink.comment text)

end Bench

inductive Step where
  | emit (i : Instr)
  | comment (text : String)
  | annotate (text : String) (i : Instr)
  | resolve (base : Register) (offset : Int64) (scratch : Register)
  | bounded (base : Register) (offset : Int64)
  | useOperand (mem : MemOperand)
  | load (dst : Register)
  | store (src : Register)
  | save (r : Register) (file : RegFile)
  | reload (r : Register) (file : RegFile)
  | move (dst src : Register)
  | pad (bytes : UInt32)
  | unpad (bytes : UInt32)
  | buildAddress (base : Register) (offset : Int64) (scratch : Register)
  | around (pairs : List SavePair) (remap : Bool) (body : List Step)
  | delta (sp : Option Register)
  | showCode
  | clear
  | showListing
  | exportListing
  | run
  | exec (i : Instr)
  | newMachine
  | set (r : Register) (v : Value)
  | get (r : Register)
  | address
  | read (addr : Addr) (bytes : Nat)
  | write (addr : Addr) (bytes : Nat) (v : Value)

inductive Reply where
  | done
  | operand (mem : MemOperand)
  | bytes (n : UInt32)
  | framed (frame seen : UInt32) (body : List Reply)
  | delta (n : Int)
  | code (instrs : List Instr)
  | listing (text : String) (lines : Nat)
  | exported (text : String)
  | sp (addr : Addr)
  | value (v : Value)
  | address (addr : Addr)

end CallFrame
