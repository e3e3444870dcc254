/-! # Bounded FIFOs

A sequence of at most `cap` items, pushed behind and popped in front.  A push
takes as many of the offered items as fit and a pop as many as there are, so
nothing is ever refused as a whole.
-/

/-- A sequence of at most `cap` items, oldest first. -/
structure BoundedFifo (α : Type) (cap : Nat) where
  items : List α
  bounded : items.length ≤ cap

namespace BoundedFifo
variable {α : Type} {cap : Nat}

/-- The FIFO without items. -/
def empty (α : Type) (cap : Nat) : BoundedFifo α cap := ⟨[], Nat.zero_le _⟩

/-- How many more items fit. -/
def room (f : BoundedFifo α cap) : Nat := cap - f.items.length

/-- Append as many of `xs` as fit, and answer how many did. -/
def push (f : BoundedFifo α cap) (xs : List α) : BoundedFifo α cap × Nat :=
  (⟨f.items ++ xs.take f.room, by
      have := f.bounded
      rw [List.length_append, List.length_take, room]
      omega⟩,
    min xs.length f.room)

/-- Remove and answer the oldest `k` items, or all of them if there are fewer. -/
def pop (f : BoundedFifo α cap) (k : Nat) : BoundedFifo α cap × List α :=
  (⟨f.items.drop k, by
      have := f.bounded
      rw [List.length_drop]
      omega⟩,
    f.items.take k)

/-- Whether there is no item. -/
def isEmpty (f : BoundedFifo α cap) : Bool := f.items.isEmpty

end BoundedFifo
