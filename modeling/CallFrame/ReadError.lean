namespace CallFrame

inductive ReadError where
  | badLocation (text : String)
  | unknownTarget (name : String)
  deriving DecidableEq, Repr

def ReadError.message : ReadError → String
  | .badLocation text => "invalid location `" ++ text ++ "`"
  | .unknownTarget name => "unsupported architecture: " ++ name

end CallFrame
