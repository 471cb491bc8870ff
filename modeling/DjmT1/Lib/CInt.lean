import Mathlib

/-!
# 32-bit C arithmetic

Values of a C `int` are integers; an expression whose value does not fit in 32
bits, or a remainder by zero, is undefined and evaluates to `none`. `%` rounds
toward zero (`Int.tmod`), as C prescribes. Values of an `unsigned int` are natural
numbers and wrap (`u32`).

The rewriting rules `int32_eq`, `cmod_eq`, `u32_eq` and `umod_eq` turn an
expression into the plain integer one once its operands are known to be in range.
-/

namespace DjmT1.Lib

/-- The value of a signed expression: undefined if it does not fit in 32 bits. -/
def int32 (x : ℤ) : Option ℤ := if -2 ^ 31 ≤ x ∧ x < 2 ^ 31 then some x else none

/-- `a % b` on `int`: undefined for `b = 0` and where `a / b` overflows. -/
def cmod (a b : ℤ) : Option ℤ :=
  if b = 0 then none else (int32 (a.tdiv b)).map fun _ => a.tmod b

/-- The value of an unsigned expression. -/
def u32 (x : ℕ) : ℕ := x % 2 ^ 32

/-- `a % b` on an unsigned type: undefined for `b = 0`. -/
def umod (a b : ℕ) : Option ℕ := if b = 0 then none else some (a % b)

theorem u32_eq {x : ℕ} (h : x < 2 ^ 32) : u32 x = x := Nat.mod_eq_of_lt h

theorem umod_eq {a b : ℕ} (h : 0 < b) : umod a b = some (a % b) := by
  unfold umod; rw [if_neg h.ne']

theorem int32_eq {x : ℤ} (h0 : -2 ^ 31 ≤ x) (h1 : x < 2 ^ 31) : int32 x = some x := by
  unfold int32; rw [if_pos ⟨h0, h1⟩]

theorem cmod_eq {a b : ℤ} (h0 : 0 ≤ a) (h1 : a < 2 ^ 31) (hb : 0 < b) :
    cmod a b = some (a % b) := by
  unfold cmod
  rw [if_neg hb.ne', Int.tdiv_eq_ediv_of_nonneg h0, Int.tmod_eq_emod_of_nonneg h0]
  have hq0 : 0 ≤ a / b := Int.ediv_nonneg h0 hb.le
  have hq1 : a / b ≤ a := Int.ediv_le_self b h0
  rw [int32_eq (by omega) (by omega)]
  rfl

end DjmT1.Lib
