namespace CallFrame

inductive Phase where
  | idle | preserved | remapped | restored
  deriving DecidableEq, Repr

def Phase.text : Phase → String
  | .idle => "idle"
  | .preserved => "preserved"
  | .remapped => "remapped"
  | .restored => "restored"

end CallFrame
