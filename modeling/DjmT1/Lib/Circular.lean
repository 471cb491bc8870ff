import Mathlib

/-!
# Circular buffers

A circular buffer of `c` slots holds a queue from slot `r` on; slot indices are
taken modulo `c` and one slot stays free, so that the occupancy is determined by
the two indices: `occ c w r = (w - r + c) % c`.

Main results:

* `occ_put`, `occ_take`: advancing `w` by at most the free space, or `r` by at
  most the occupancy, changes the occupancy by exactly that much.
* `free_ne_used`: a slot still free and a slot in use are different slots.
* `Holds.append`, `Holds.drop`: what the buffer holds after the writer publishes
  frames it has stored, and after the reader gives slots back.
-/

namespace DjmT1.Lib.Circular

universe u

variable {β : Type u} {c w r : ℤ}

/-- `a % c` one lap away from the range. -/
theorem emod_lap {a : ℤ} (h0 : 0 ≤ a) (h1 : a < 2 * c) : a % c = if a < c then a else a - c := by
  split_ifs with h
  · exact Int.emod_eq_of_lt h0 h
  · rw [← Int.sub_emod_right, Int.emod_eq_of_lt (by omega) (by omega)]

/-- An index of a buffer of `c` slots. -/
def Index (c i : ℤ) : Prop := 0 ≤ i ∧ i < c

theorem index_emod (hc : 0 < c) (a : ℤ) : Index c (a % c) :=
  ⟨Int.emod_nonneg _ hc.ne', Int.emod_lt_of_pos _ hc⟩

/-- The number of used slots between the read index and the write index. -/
def occ (c w r : ℤ) : ℤ := (w - r + c) % c

theorem occ_eq (hw : Index c w) (hr : Index c r) :
    occ c w r = if r ≤ w then w - r else w - r + c := by
  unfold Index at hw hr
  unfold occ
  rw [emod_lap (by omega) (by omega)]
  split_ifs <;> omega

theorem occ_nonneg (hc : 0 < c) : 0 ≤ occ c w r := (index_emod hc _).1

theorem occ_lt (hc : 0 < c) : occ c w r < c := (index_emod hc _).2

/-- The write index is `occ` slots after the read index. -/
theorem add_occ_emod (hw : Index c w) (hr : Index c r) : (r + occ c w r) % c = w := by
  rw [occ_eq hw hr]
  unfold Index at hw hr
  rw [emod_lap (by split_ifs <;> omega) (by split_ifs <;> omega)]
  split_ifs <;> omega

theorem occ_put {n : ℤ} (hw : Index c w) (hr : Index c r) (h0 : 0 ≤ n)
    (hn : n ≤ c - 1 - occ c w r) : occ c ((w + n) % c) r = occ c w r + n := by
  have hc : 0 < c := by unfold Index at hw; omega
  have ho := occ_nonneg (w := w) (r := r) hc
  rw [occ_eq (index_emod hc _) hr]
  rw [occ_eq hw hr] at *
  unfold Index at hw hr
  rw [emod_lap (by omega) (by omega)]
  split_ifs at * <;> omega

theorem occ_take {n : ℤ} (hw : Index c w) (hr : Index c r) (h0 : 0 ≤ n) (hn : n ≤ occ c w r) :
    occ c w ((r + n) % c) = occ c w r - n := by
  have hc : 0 < c := by unfold Index at hw; omega
  have ho := occ_lt (w := w) (r := r) hc
  rw [occ_eq hw (index_emod hc _)]
  rw [occ_eq hw hr] at *
  unfold Index at hw hr
  rw [emod_lap (by omega) (by omega)]
  split_ifs at * <;> omega

/-- Different offsets below the capacity are different slots. -/
theorem emod_add_inj {a i j : ℤ} (ha : Index c a) (hi : Index c i) (hj : Index c j)
    (h : (a + i) % c = (a + j) % c) : i = j := by
  unfold Index at *
  rw [emod_lap (by omega) (by omega), emod_lap (by omega) (by omega)] at h
  split_ifs at h <;> omega

/-- A slot the writer may fill is none of the slots the reader may empty. -/
theorem free_ne_used {i k : ℤ} (hw : Index c w) (hr : Index c r) (hi : 0 ≤ i)
    (hi' : i < c - occ c w r) (hk : 0 ≤ k) (hk' : k < occ c w r) : (w + i) % c ≠ (r + k) % c := by
  have hc : 0 < c := by unfold Index at hw; omega
  rw [← add_occ_emod hw hr, Int.emod_add_emod, add_assoc]
  intro h
  have ho := occ_nonneg (w := w) (r := r) hc
  have := emod_add_inj hr (i := occ c w r + i) (j := k) ⟨by omega, by omega⟩ ⟨hk, by omega⟩ h
  omega

/-! ## Contents -/

/-- From slot `r` on, the buffer holds the elements of `q`. -/
def Holds (slot : ℤ → β) (c r : ℤ) (q : List β) : Prop :=
  ∀ k (hk : k < q.length), slot ((r + k) % c) = q[k]

theorem Holds.nil (slot : ℤ → β) (c r : ℤ) : Holds slot c r [] := fun k hk => by simp at hk

/-- Only the used slots matter. -/
theorem Holds.congr {slot slot' : ℤ → β} {q : List β} (h : Holds slot c r q)
    (he : ∀ k : ℕ, k < q.length → slot' ((r + k) % c) = slot ((r + k) % c)) :
    Holds slot' c r q := fun k hk => (he k hk).trans (h k hk)

/-- The writer has stored `p` from the write index on and publishes it. -/
theorem Holds.append {slot : ℤ → β} {q p : List β} (h : Holds slot c r q)
    (hp : Holds slot c ((r + q.length) % c) p) : Holds slot c r (q ++ p) := by
  intro k hk
  rw [List.length_append] at hk
  by_cases hkq : k < q.length
  · rw [List.getElem_append_left hkq]; exact h k hkq
  · rw [List.getElem_append_right (by omega), ← hp (k - q.length) (by omega), Int.emod_add_emod,
      add_assoc]
    congr 2
    push_cast [Nat.cast_sub (show q.length ≤ k by omega)]
    ring

/-- The reader gives back the first `n` slots. -/
theorem Holds.drop {slot : ℤ → β} {q : List β} (h : Holds slot c r q) (n : ℕ) :
    Holds slot c ((r + n) % c) (q.drop n) := by
  intro k hk
  rw [List.length_drop] at hk
  rw [List.getElem_drop, ← h (n + k) (by omega), Int.emod_add_emod, add_assoc]
  push_cast
  rfl

end DjmT1.Lib.Circular
