/-!
# Steps That Can Fail

When a sequence of steps succeeds, and the error of a step that fails.
-/

namespace Reckoner

variable {ε α β : Type}

@[simp] theorem ok_bind (a : α) (f : α → Except ε β) : (Except.ok a >>= f) = f a := rfl

@[simp] theorem error_bind (err : ε) (f : α → Except ε β) :
    ((Except.error err : Except ε α) >>= f) = .error err := rfl

@[simp] theorem bind_ok (x : Except ε α) : (x >>= fun a => .ok a) = x := by
  cases x <;> rfl

/-- Two steps succeed if the first one does and the second one does on its result. -/
theorem bind_eq_ok_iff {x : Except ε α} {f : α → Except ε β} {b : β} :
    x >>= f = .ok b ↔ ∃ a, x = .ok a ∧ f a = .ok b := by
  cases x with
  | error err => simp
  | ok a => simp

/-- Two steps fail if the first one does, or if the second one does on its result. -/
theorem bind_eq_error_iff {x : Except ε α} {f : α → Except ε β} {err : ε} :
    x >>= f = .error err ↔ x = .error err ∨ ∃ a, x = .ok a ∧ f a = .error err := by
  cases x with
  | error err => simp
  | ok a => simp

/-! ### The failure of a step -/

/-- The error that a step fails with, if it fails. -/
def failure? : Except ε α → Option ε
  | .ok _ => none
  | .error err => some err

@[simp] theorem failure?_ok (a : α) : failure? (.ok a : Except ε α) = none := rfl

@[simp] theorem failure?_error (err : ε) : failure? (.error err : Except ε α) = some err := rfl

/-- A result without a failure is a value. -/
theorem failure?_eq_none_iff {x : Except ε α} : failure? x = none ↔ ∃ a, x = .ok a := by
  cases x with
  | error err => simp
  | ok a => simp

/-- The failure of a result tells its error. -/
theorem failure?_eq_some_iff {x : Except ε α} {err : ε} :
    failure? x = some err ↔ x = .error err := by
  cases x with
  | error err' => simp
  | ok a => simp

end Reckoner
