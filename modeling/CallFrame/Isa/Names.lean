import CallFrame.Isa.Basic
import CallFrame.Location.Basic

namespace CallFrame

def numbered (stem : String) (n : Nat) : List String := (List.range n).map fun i => stem ++ i.repr

namespace X86

def gp64Names : List String :=
  ["rax", "rcx", "rdx", "rbx", "rsp", "rbp", "rsi", "rdi",
    "r8", "r9", "r10", "r11", "r12", "r13", "r14", "r15"]

def gp32Names : List String :=
  ["eax", "ecx", "edx", "ebx", "esp", "ebp", "esi", "edi",
    "r8d", "r9d", "r10d", "r11d", "r12d", "r13d", "r14d", "r15d"]

def xmmNames : List String := numbered "xmm" 16

def rax : Register := .gp64 0
def rcx : Register := .gp64 1
def rdx : Register := .gp64 2
def rbx : Register := .gp64 3
def rsp : Register := .gp64 4
def rbp : Register := .gp64 5
def rsi : Register := .gp64 6
def rdi : Register := .gp64 7
def r8 : Register := .gp64 8
def r9 : Register := .gp64 9
def r10 : Register := .gp64 10
def r11 : Register := .gp64 11
def r12 : Register := .gp64 12
def r13 : Register := .gp64 13
def r14 : Register := .gp64 14
def r15 : Register := .gp64 15

def xmm (index : UInt8) : Register := .vec128 index

def classNames (c : RegClass) : List String :=
  if c = .gp64 then gp64Names
  else if c = .gp32 then gp32Names
  else if c = .vec128 then xmmNames
  else []

end X86

namespace A64

def xNames : List String := numbered "x" 31 ++ ["sp"]
def wNames : List String := numbered "w" 31 ++ ["wsp"]
def dNames : List String := numbered "d" 32
def qNames : List String := numbered "q" 32

def ip0 : Register := .gp64 16
def ip1 : Register := .gp64 17
def fp : Register := .gp64 29
def lr : Register := .gp64 30
def sp : Register := .gp64 31

def x (index : UInt8) : Register := .gp64 index
def d (index : UInt8) : Register := .vec64 index
def q (index : UInt8) : Register := .vec128 index

def classNames (c : RegClass) : List String :=
  if c = .gp64 then xNames
  else if c = .gp32 then wNames
  else if c = .vec64 then dNames
  else if c = .vec128 then qNames
  else []

end A64

namespace Isa

def classNames : Isa → RegClass → List String
  | .x86_64 => X86.classNames
  | .aarch64 => A64.classNames

def regName? (isa : Isa) (r : Register) : Option String :=
  (isa.classNames r.cls)[r.index.toNat]?

def slotName : Isa → Int32 → String
  | .x86_64, offset => offset.toInt.repr ++ "(%rbp)"
  | .aarch64, offset => "[x29, #" ++ offset.toInt.repr ++ "]"

def nameOf (isa : Isa) : Location → String
  | .register r => (isa.regName? r).getD r.text
  | .stack offset => isa.slotName offset

end Isa
end CallFrame
