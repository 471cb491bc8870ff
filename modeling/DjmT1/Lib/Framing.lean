import Mathlib

/-!
# Slicing a stream into blocks

`blocks n l` are the consecutive blocks of `n` elements of `l`; elements after the last
whole block are in none. `blocks_flatten_iff` says when slicing a concatenation gives the
blocks of its pieces: exactly if no piece moves those after it out of line, or the
movement cannot be seen (`Aligned`), and the elements left over make no block.
-/

namespace DjmT1.Lib.Framing

universe u

variable {α : Type u} {n : ℕ}

/-- The whole blocks of `n` elements. -/
def blocks (n : ℕ) (l : List α) : List (List α) :=
  (List.range (l.length / n)).map fun i => (l.drop (i * n)).take n

/-- What the blocks cover. -/
def whole (n : ℕ) (l : List α) : List α := l.take (l.length / n * n)

theorem length_whole (n : ℕ) (l : List α) : (whole n l).length = l.length / n * n := by
  rw [whole, List.length_take, Nat.min_eq_left (Nat.div_mul_le_self _ _)]

theorem whole_prefix (n : ℕ) (l : List α) : whole n l <+: l := List.take_prefix _ _

theorem dvd_length_whole (n : ℕ) (l : List α) : n ∣ (whole n l).length := by
  rw [length_whole]
  exact Nat.dvd_mul_left n _

theorem whole_of_dvd {l : List α} (h : n ∣ l.length) : whole n l = l := by
  rw [whole, Nat.div_mul_cancel h, List.take_length]

theorem length_of_mem_blocks {l b : List α} (h : b ∈ blocks n l) : b.length = n := by
  obtain ⟨i, hi, rfl⟩ := List.mem_map.mp h
  have hle := Nat.div_mul_le_self l.length n
  have hi' := Nat.mul_le_mul_right n (show i + 1 ≤ l.length / n from List.mem_range.mp hi)
  rw [List.length_take, List.length_drop]
  rw [Nat.add_mul, Nat.one_mul] at hi'
  omega

/-- The blocks in a row are what they cover. -/
theorem flatten_blocks (n : ℕ) (l : List α) : (blocks n l).flatten = whole n l := by
  rw [blocks, whole]
  generalize l.length / n = k
  induction k with
  | zero => rw [Nat.zero_mul, List.take_zero]; rfl
  | succ k ih =>
    rw [List.range_succ, List.map_append, List.flatten_append, ih, List.map_singleton,
      List.flatten_singleton, Nat.add_mul, Nat.one_mul, List.take_add]

/-- Whole blocks in front are sliced by themselves. -/
theorem blocks_append (hn : 0 < n) {l : List α} (h : n ∣ l.length) (m : List α) :
    blocks n (l ++ m) = blocks n l ++ blocks n m := by
  obtain ⟨k, hk⟩ := h
  have hdiv : (l ++ m).length / n = k + m.length / n := by
    rw [List.length_append, hk, Nat.mul_add_div hn]
  have hk' : l.length / n = k := by rw [hk, Nat.mul_div_cancel_left k hn]
  rw [blocks, hdiv, List.range_add, List.map_append, blocks, hk', blocks, List.map_map]
  congr 1
  · refine List.map_congr_left fun i hi => ?_
    have hi' := Nat.mul_le_mul_right n (show i + 1 ≤ k from List.mem_range.mp hi)
    rw [Nat.add_mul, Nat.one_mul, Nat.mul_comm k n, ← hk] at hi'
    rw [List.drop_append_of_le_length (by omega),
      List.take_append_of_le_length (by rw [List.length_drop]; omega)]
  · refine List.map_congr_left fun i _ => ?_
    have hlen : (k + i) * n = l.length + i * n := by rw [hk, Nat.add_mul, Nat.mul_comm k n]
    rw [Function.comp_apply, hlen, List.drop_append, List.drop_eq_nil_of_le (by omega),
      List.nil_append, Nat.add_sub_cancel_left]

theorem blocks_whole (n : ℕ) (l : List α) : blocks n (whole n l) = blocks n l := by
  rcases Nat.eq_zero_or_pos n with rfl | hn
  · simp [blocks]
  · have hshort : blocks n (l.drop (l.length / n * n)) = [] := by
      have hlt := Nat.mod_lt l.length hn
      have hmod : (l.drop (l.length / n * n)).length = l.length % n := by
        rw [List.length_drop, Nat.mod_eq_sub_div_mul]
      rw [blocks, hmod, Nat.div_eq_of_lt hlt]
      rfl
    have hsplit := blocks_append hn (dvd_length_whole n l) (l.drop (l.length / n * n))
    rw [hshort, List.append_nil, whole, List.take_append_drop] at hsplit
    exact hsplit.symm

theorem blocks_flatMap_whole (hn : 0 < n) (ps : List (List α)) :
    blocks n (ps.flatMap (whole n)) = ps.flatMap (blocks n) := by
  induction ps with
  | nil => simp [blocks]
  | cons p ps ih =>
    rw [List.flatMap_cons, blocks_append hn (dvd_length_whole n p), blocks_whole, ih,
      List.flatMap_cons]

theorem dvd_length_flatMap_whole (n : ℕ) (ps : List (List α)) :
    n ∣ (ps.flatMap (whole n)).length := by
  rw [List.length_flatMap]
  exact List.dvd_sum fun k hk => by
    obtain ⟨p, _, rfl⟩ := List.mem_map.mp hk
    exact dvd_length_whole n p

/-- `l` has the blocks of `m`, which is whole, if it begins with `m` and has less than a
    block after it. -/
theorem blocks_eq_iff (hn : 0 < n) {l m : List α} (hm : n ∣ m.length) :
    blocks n l = blocks n m ↔ m <+: l ∧ l.length < m.length + n := by
  constructor
  · intro h
    have hwhole : whole n l = m := by rw [← flatten_blocks, h, flatten_blocks, whole_of_dvd hm]
    refine ⟨hwhole ▸ whole_prefix n l, ?_⟩
    have hlen := length_whole n l
    have hmod := Nat.mod_lt l.length hn
    have hdiv := Nat.div_add_mod' l.length n
    rw [hwhole] at hlen
    omega
  · rintro ⟨⟨t, rfl⟩, hlt⟩
    rw [List.length_append] at hlt
    have hnil : blocks n t = [] := by
      rw [blocks, Nat.div_eq_of_lt (by omega)]
      rfl
    rw [blocks_append hn hm, hnil, List.append_nil]

/-! ## Slicing a concatenation -/

/-- Of every piece the whole blocks repeat the elements that were left over before it:
    `carry`, and then those of the pieces before. -/
def Aligned (n : ℕ) : List α → List (List α) → Prop
  | _, [] => True
  | carry, p :: ps => whole n p <+: carry ++ whole n p ∧
      Aligned n ((carry ++ p).drop (whole n p).length) ps

/-- The whole blocks come first exactly if the leftover elements cannot be seen. -/
theorem flatMap_whole_prefix_iff (ps : List (List α)) (carry : List α) :
    ps.flatMap (whole n) <+: carry ++ ps.flatten ↔ Aligned n carry ps := by
  induction ps generalizing carry with
  | nil => simp [Aligned]
  | cons p ps ih =>
    obtain ⟨t, ht⟩ := whole_prefix n p
    have hlen : (whole n p).length ≤ (carry ++ whole n p).length := by
      rw [List.length_append]
      exact Nat.le_add_left _ _
    have hsplit : carry ++ (p :: ps).flatten = (carry ++ whole n p) ++ (t ++ ps.flatten) := by
      rw [List.flatten_cons]
      nth_rewrite 1 [← ht]
      simp only [List.append_assoc]
    rw [List.flatMap_cons, Aligned, ← ih, hsplit]
    constructor
    · intro h
      have hfirst : whole n p <+: carry ++ whole n p :=
        List.prefix_of_prefix_length_le ((List.prefix_append _ _).trans h)
          (List.prefix_append _ _) hlen
      obtain ⟨c, hc⟩ := hfirst
      refine ⟨⟨c, hc⟩, ?_⟩
      rw [← hc, List.append_assoc, List.prefix_append_right_inj] at h
      rwa [← ht, ← List.append_assoc, ht, ← hc, List.append_assoc, List.drop_left,
        List.append_assoc]
    · rintro ⟨⟨c, hc⟩, h⟩
      rw [← hc, List.append_assoc, List.prefix_append_right_inj]
      rwa [← ht, ← List.append_assoc, ht, ← hc, List.append_assoc, List.drop_left,
        List.append_assoc] at h

/-- The elements left over, together. -/
theorem length_flatten_eq (n : ℕ) (ps : List (List α)) : ps.flatten.length =
    (ps.flatMap (whole n)).length + (ps.map fun p => p.length % n).sum := by
  induction ps with
  | nil => rfl
  | cons p ps ih =>
    have hdiv := Nat.div_add_mod' p.length n
    simp only [List.flatten_cons, List.flatMap_cons, List.length_append, List.map_cons,
      List.sum_cons, length_whole, ih]
    omega

/-- Slicing a concatenation gives the blocks of its pieces exactly if they are aligned and
    the elements left over make no block. -/
theorem blocks_flatten_iff (hn : 0 < n) (ps : List (List α)) :
    blocks n ps.flatten = ps.flatMap (blocks n) ↔
      Aligned n [] ps ∧ (ps.map fun p => p.length % n).sum < n := by
  rw [← blocks_flatMap_whole hn, blocks_eq_iff hn (dvd_length_flatMap_whole n ps),
    ← flatMap_whole_prefix_iff, List.nil_append, length_flatten_eq n ps, Nat.add_lt_add_iff_left]

/-- Whole pieces are aligned. -/
theorem aligned_of_dvd {ps : List (List α)} (h : ∀ p ∈ ps, n ∣ p.length) : Aligned n [] ps := by
  induction ps with
  | nil => trivial
  | cons p ps ih =>
    refine ⟨List.prefix_rfl, ?_⟩
    rw [List.nil_append, whole_of_dvd (h p List.mem_cons_self), List.drop_length]
    exact ih fun q hq => h q (List.mem_cons_of_mem p hq)

end DjmT1.Lib.Framing
