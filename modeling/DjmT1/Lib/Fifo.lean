import Mathlib

/-!
# Bounded queues

A `Fifo β c` holds at most `c` elements, oldest first. A `put` appends as many
elements as there is space for, a `get` removes the oldest.
-/

namespace DjmT1.Lib

universe u

/-- A queue of at most `c` elements. -/
structure Fifo (β : Type u) (c : ℕ) where
  items : List β
  bounded : items.length ≤ c

namespace Fifo

variable {β : Type u} {c : ℕ}

def empty (β : Type u) (c : ℕ) : Fifo β c := ⟨[], Nat.zero_le c⟩

def length (f : Fifo β c) : ℕ := f.items.length

def space (f : Fifo β c) : ℕ := c - f.length

/-- Append what fits of `xs`; the number of elements appended. -/
def put (f : Fifo β c) (xs : List β) : Fifo β c × ℕ :=
  (⟨f.items ++ xs.take f.space, by
    have h := f.bounded
    rw [List.length_append, List.length_take, space, length]
    omega⟩, min xs.length f.space)

/-- Remove the oldest `n` elements, or all if there are fewer; those removed. -/
def get (f : Fifo β c) (n : ℕ) : Fifo β c × List β :=
  (⟨f.items.drop n, by
    rw [List.length_drop]
    exact (Nat.sub_le _ n).trans f.bounded⟩, f.items.take n)

end Fifo

end DjmT1.Lib
