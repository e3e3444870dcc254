/-! # Faults

The library is C: an access outside an array, a remainder by zero or a use of
freed memory is undefined.  The model computes in `Except Fault`, so that such a
step has no result, and a theorem that a function returns a value says as well
that it does none of these.
-/
namespace BlackHV

/-- An operation without a meaning in C. -/
inductive Fault where
  /-- An array or a buffer is accessed at or past its length. -/
  | outOfBounds
  /-- The right operand of `%` is zero. -/
  | remainderByZero
  /-- `NULL` is dereferenced. -/
  | nullDereference
  /-- A block that is not allocated is dereferenced or freed. -/
  | notAllocated
  /-- A loop does not terminate. -/
  | divergence
  /-- The program ends itself (`errx`). -/
  | exit
  deriving DecidableEq, Repr

@[simp] theorem ok_bind {α β : Type} (a : α) (f : α → Except Fault β) :
    (Except.ok a >>= f) = f a := rfl

@[simp] theorem error_bind {α β : Type} (e : Fault) (f : α → Except Fault β) :
    (Except.error e >>= f) = .error e := rfl

/-- A computation that returns has returned at each of its steps. -/
theorem bind_eq_ok {α β : Type} {x : Except Fault α} {f : α → Except Fault β} {b : β} :
    (x >>= f) = .ok b ↔ ∃ a, x = .ok a ∧ f a = .ok b := by
  cases x with
  | error e => simp
  | ok a => simp

/-- A computation that faults has faulted at one of its steps. -/
theorem bind_eq_error {α β : Type} {x : Except Fault α} {f : α → Except Fault β} {e : Fault} :
    (x >>= f) = .error e ↔ x = .error e ∨ ∃ a, x = .ok a ∧ f a = .error e := by
  cases x with
  | error e' => simp
  | ok a => simp

/-- The computation returns a value that passes the test `p`. -/
def okAnd {α : Type} (x : Except Fault α) (p : α → Bool) : Bool :=
  match x with
  | .ok s => p s
  | .error _ => false

theorem exists_of_okAnd {α : Type} {x : Except Fault α} {p : α → Bool} (h : okAnd x p = true) :
    ∃ s, x = .ok s ∧ p s = true := by
  cases x with
  | ok s => exact ⟨s, rfl, h⟩
  | error f => cases h

end BlackHV
