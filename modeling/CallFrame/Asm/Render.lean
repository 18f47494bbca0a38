import CallFrame.Asm.A64
import CallFrame.Asm.Att

namespace CallFrame

def Isa.render : Isa → Instr → List String
  | .x86_64, i => (Asm.Att.lower i).map Asm.Att.Line.text
  | .aarch64, i => (Asm.A64.lower i).map Asm.A64.Line.text

end CallFrame
