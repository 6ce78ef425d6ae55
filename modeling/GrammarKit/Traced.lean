/-!
# Traced computations

A computation that ends in a result or an error and leaves a trace of lines behind.  The
trace of a failed computation holds what was written before the failure.

## Main Definitions

* `Traced` — an outcome together with its trace
* `Traced.note` — writes one line if tracing is on
* `Traced.mapError` — changes the error and keeps the trace
-/

namespace GrammarKit

/-- An outcome together with the lines that were written on the way to it. -/
structure Traced (ε α : Type) where
  outcome : Except ε α
  trace : List String := []

namespace Traced

variable {ε ε' α β : Type}

/-- A result without a trace. -/
protected def pure (a : α) : Traced ε α :=
  ⟨.ok a, []⟩

/-- Goes on with the result of the first computation; an error ends both. -/
protected def bind (x : Traced ε α) (f : α → Traced ε β) : Traced ε β :=
  match x.outcome with
  | .ok a =>
    let y := f a
    ⟨y.outcome, x.trace ++ y.trace⟩
  | .error e => ⟨.error e, x.trace⟩

instance : Monad (Traced ε) where
  pure := Traced.pure
  bind := Traced.bind

/-- A failure without a trace. -/
def fail (e : ε) : Traced ε α :=
  ⟨.error e, []⟩

/-- Writes one line if tracing is on. -/
def note (enabled : Bool) (line : Unit → String) : Traced ε Unit :=
  ⟨.ok (), if enabled then ["[DEBUG] " ++ line ()] else []⟩

/-- Changes the error and keeps the trace. -/
def mapError (f : ε → ε') (x : Traced ε α) : Traced ε' α :=
  ⟨x.outcome.mapError f, x.trace⟩

/-- Goes on after either outcome; the trace so far is kept. -/
def recover (x : Traced ε α) (f : Except ε α → Traced ε' β) : Traced ε' β :=
  let y := f x.outcome
  ⟨y.outcome, x.trace ++ y.trace⟩

@[simp] theorem outcome_pure (a : α) : (pure a : Traced ε α).outcome = .ok a := rfl

@[simp] theorem outcome_fail (e : ε) : (fail e : Traced ε α).outcome = .error e := rfl

/-- Writing a line has no effect on the outcome. -/
@[simp] theorem outcome_note (enabled : Bool) (line : Unit → String) :
    (note enabled line : Traced ε Unit).outcome = .ok () := rfl

/-- The outcome of a sequence depends on the outcomes of its parts alone. -/
theorem outcome_bind (x : Traced ε α) (f : α → Traced ε β) :
    (x >>= f).outcome = x.outcome.bind fun a => (f a).outcome := by
  show (Traced.bind x f).outcome = _
  unfold Traced.bind
  cases x.outcome <;> rfl

/-- A sequence has a result exactly when both parts have one. -/
theorem outcome_bind_eq_ok {x : Traced ε α} {f : α → Traced ε β} {b : β} :
    (x >>= f).outcome = .ok b ↔ ∃ a, x.outcome = .ok a ∧ (f a).outcome = .ok b := by
  rw [outcome_bind]
  cases x.outcome with
  | error e => simp [Except.bind]
  | ok a => simp [Except.bind]

@[simp] theorem outcome_mapError (f : ε → ε') (x : Traced ε α) :
    (x.mapError f).outcome = x.outcome.mapError f := rfl

@[simp] theorem outcome_recover (x : Traced ε α) (f : Except ε α → Traced ε' β) :
    (x.recover f).outcome = (f x.outcome).outcome := rfl

/-- Nothing is written while tracing is off. -/
@[simp] theorem trace_note_false (line : Unit → String) :
    (note false line : Traced ε Unit).trace = [] := rfl

end Traced

end GrammarKit
