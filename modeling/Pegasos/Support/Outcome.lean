/-!
# Outcomes of kernel code

A kernel routine returns a value, stops the machine in a panic, or runs a loop
that does not end within the fuel given to it.
-/

namespace Pegasos.Support

universe u v

inductive Outcome (α : Type u) where
  | ok (value : α)
  | panic (message : String)
  | hang
  deriving DecidableEq, Repr

namespace Outcome

variable {α : Type u} {β : Type v}

def bind (outcome : Outcome α) (next : α → Outcome β) : Outcome β :=
  match outcome with
  | .ok value => next value
  | .panic message => .panic message
  | .hang => .hang

/-- The value of a run that returned. -/
def value? : Outcome α → Option α
  | .ok value => some value
  | .panic _ => none
  | .hang => none

/-- The message of a run that panicked. -/
def panicked : Outcome α → Option String
  | .ok _ => none
  | .panic message => some message
  | .hang => none

@[simp] theorem bind_ok (value : α) (next : α → Outcome β) :
    (Outcome.ok value).bind next = next value := rfl

@[simp] theorem value?_ok (value : α) : (Outcome.ok value).value? = some value := rfl

theorem value?_eq_some {outcome : Outcome α} {value : α} :
    outcome.value? = some value ↔ outcome = .ok value := by
  cases outcome <;> simp [value?]

theorem panicked_eq {outcome : Outcome α} {message : String} :
    outcome.panicked = some message ↔ outcome = .panic message := by
  cases outcome <;> simp [panicked]

theorem bind_eq_ok {outcome : Outcome α} {next : α → Outcome β} {result : β} :
    outcome.bind next = .ok result ↔ ∃ value, outcome = .ok value ∧ next value = .ok result := by
  cases outcome <;> simp [bind]

end Outcome

end Pegasos.Support
