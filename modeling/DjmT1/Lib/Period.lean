import Mathlib

/-!
# Reporting every multiple of a period

A counter `t` grows by at most `P` at a time, and a report is made whenever it
reaches or passes a multiple of `P`. `marks` are the values at which reports were
made. `Reported` says that exactly the multiples up to `t` have been reported, and
how far apart the reports are; `Reported.advance` is the step.
-/

namespace DjmT1.Lib

/-- The value at the last report, or 0. -/
def lastMark (marks : List ℕ) : ℕ := marks.getLastD 0

/-- The multiples of `P` up to `t` have been reported, one report each, and less
    than two periods lie between one report and the next. -/
structure Reported (P t : ℕ) (marks : List ℕ) : Prop where
  length : marks.length = t / P
  floor_le : t / P * P ≤ lastMark marks
  le : lastMark marks ≤ t
  apart : (0 :: marks).IsChain fun a b => a ≤ b ∧ b < a + 2 * P

theorem Reported.nil (P : ℕ) : Reported P 0 [] :=
  ⟨by simp, by simp, le_rfl, .singleton 0⟩

/-- The quotient goes up by one exactly when the remainder overflows. -/
theorem add_div_period {P t n : ℕ} (hP : 0 < P) (hn : n ≤ P) :
    (t + n) / P = t / P + if P ≤ t % P + n then 1 else 0 := by
  have hr := Nat.mod_lt t hP
  have hsplit : t + n = t % P + n + P * (t / P) := by
    have := Nat.mod_add_div t P
    omega
  rw [hsplit, Nat.add_mul_div_left _ _ hP, Nat.add_comm (t / P)]
  congr 1
  split_ifs with h
  · exact Nat.div_eq_of_lt_le (by omega) (by omega)
  · exact Nat.div_eq_of_lt (by omega)

/-- The count since the last report stays below two periods. -/
theorem Reported.lt {P t : ℕ} {marks : List ℕ} (h : Reported P t marks) (hP : 0 < P) :
    t < lastMark marks + P := by
  have hr := Nat.mod_lt t hP
  have hsplit := Nat.div_add_mod' t P
  have hfloor := h.floor_le
  omega

theorem Reported.advance {P t n : ℕ} {marks : List ℕ} (h : Reported P t marks) (hP : 0 < P)
    (hn : n ≤ P) : Reported P (t + n) (if P ≤ t % P + n then marks ++ [t + n] else marks) := by
  have hdiv := add_div_period (t := t) hP hn
  have hlt := h.lt hP
  have hle := h.le
  split_ifs at hdiv ⊢ with hover
  · have hlast : lastMark (marks ++ [t + n]) = t + n := List.getLastD_concat
    refine ⟨?_, ?_, hlast.le, ?_⟩
    · rw [List.length_append, h.length, hdiv]
      rfl
    · rw [hlast]
      exact Nat.div_mul_le_self (t + n) P
    · rw [← List.cons_append, List.isChain_append]
      refine ⟨h.apart, .singleton _, ?_⟩
      intro a ha b hb
      obtain rfl : lastMark marks = a := by
        have : (0 :: marks).getLast? = some (lastMark marks) := by
          rw [List.getLast?_cons, lastMark, List.getLastD_eq_getLast?]
        exact Option.some.inj (this.symm.trans ha)
      obtain rfl : t + n = b := Option.some.inj hb
      omega
  · exact ⟨h.length.trans hdiv.symm, by rw [hdiv]; exact h.floor_le, by omega, h.apart⟩

/-- A value within one lap of a known one is recovered from its remainder. -/
theorem recover_mod {B m t : ℕ} (hle : m ≤ t) (hlt : t < m + B) :
    t = m + (t % B + B - m % B) % B := by
  have hB : 0 < B := by omega
  obtain ⟨d, rfl⟩ := Nat.exists_eq_add_of_le hle
  have hm := Nat.mod_lt m hB
  have hd : d < B := by omega
  congr 1
  rw [Nat.add_mod m d, Nat.mod_eq_of_lt hd]
  rcases Nat.lt_or_ge (m % B + d) B with hlow | hhigh
  · rw [Nat.mod_eq_of_lt hlow, show m % B + d + B - m % B = d + B by omega, Nat.add_mod_right,
      Nat.mod_eq_of_lt hd]
  · rw [Nat.mod_eq_sub_mod hhigh, Nat.mod_eq_of_lt (by omega : m % B + d - B < B),
      show m % B + d - B + B - m % B = d by omega, Nat.mod_eq_of_lt hd]

end DjmT1.Lib
