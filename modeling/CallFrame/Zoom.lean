namespace CallFrame

variable {ε σ τ α : Type}

/-- Runs on a part of the state. What was done to it before a failure stays done. -/
def zoom (part : σ → τ) (put : σ → τ → σ) (x : EStateM ε τ α) : EStateM ε σ α := fun s =>
  match x (part s) with
  | .ok a t => .ok a (put s t)
  | .error e t => .error e (put s t)

theorem zoom_ok {part : σ → τ} {put : σ → τ → σ} {x : EStateM ε τ α} {s : σ} {a : α} {t : τ}
    (done : x (part s) = .ok a t) : zoom part put x s = .ok a (put s t) := by
  simp only [zoom, done]

theorem zoom_error {part : σ → τ} {put : σ → τ → σ} {x : EStateM ε τ α} {s : σ} {e : ε} {t : τ}
    (failed : x (part s) = .error e t) : zoom part put x s = .error e (put s t) := by
  simp only [zoom, failed]

end CallFrame
