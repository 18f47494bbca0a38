import CallFrame.ReadError
import CallFrame.Register

namespace CallFrame

inductive Isa where
  | x86_64 | aarch64
  deriving DecidableEq, Repr

namespace Isa

def name : Isa → String
  | .x86_64 => "x86_64"
  | .aarch64 => "aarch64"

def ofName? : String → Option Isa
  | "x86_64" | "x86-64" | "amd64" => some .x86_64
  | "aarch64" | "arm64" => some .aarch64
  | _ => none

def ofName (name : String) : Except ReadError Isa :=
  match ofName? name with
  | some isa => .ok isa
  | none => .error (.unknownTarget name)

def stackPointer : Isa → Register
  | .x86_64 => .gp64 4
  | .aarch64 => .gp64 31

def commentMark : Isa → String
  | .x86_64 => "#"
  | .aarch64 => "//"

end Isa
end CallFrame
