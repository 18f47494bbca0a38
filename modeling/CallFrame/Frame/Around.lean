import CallFrame.Frame.Lifecycle

namespace CallFrame

/-- A failure anywhere leaves at once, so nothing is restored after it. -/
def around {σ α : Type} [Sink σ] (isa : Isa) (pairs : List SavePair) (remap : Bool)
    (body : UInt32 → Emit σ α) : Emit σ (UInt32 × α) := do
  Emit.note (.entered isa)
  FrameM.withFrame pairs do
    Frame.preserve isa
    if remap then Frame.remap isa
    let bytes ← ofExcept (← FrameM.frame).bytes
    let result ← FrameM.onEmission (body bytes)
    Frame.restore isa
    return (bytes, result)

end CallFrame
