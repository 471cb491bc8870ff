import Mathlib

/-!
# Python sequences

Indexing with negative indices, `range`, `next` over a condition that may fail, and the
positions that an `enumerate` comprehension keeps.

* `map_index_positions`: the positions kept are those of the elements kept.
* `find?_cyclic`: looking from `i + 1` on and then from the start is looking once around.
-/

namespace DjmT1.Lib.PySeq

universe u

variable {α : Type u}

/-- `l[i]`: a negative index counts from the end; `none` is an `IndexError`. -/
def index (l : List α) (i : ℤ) : Option α :=
  if 0 ≤ i then l[i.toNat]?
  else if 0 ≤ l.length + i then l[(l.length + i).toNat]? else none

/-- `range(a, b)` -/
def range (a b : ℤ) : List ℤ := (List.range (b - a).toNat).map fun k : ℕ => a + (k : ℤ)

/-- `next((k for k in l if p(k)), None)`; `none` is an exception in `p`. -/
def next (p : ℤ → Option Bool) (l : List ℤ) : Option (Option ℤ) := l.findM? p

/-- `[i for i, x in enumerate(l) if p(x)]` -/
def positions (p : α → Bool) (l : List α) : List ℤ :=
  l.zipIdx.filterMap fun e => if p e.1 then some (e.2 : ℤ) else none

@[simp] theorem index_natCast (l : List α) (k : ℕ) : index l k = l[k]? := by
  rw [index, if_pos (Int.natCast_nonneg k), Int.toNat_natCast]

/-- An index inside the list. -/
theorem index_eq_some {l : List α} {i : ℤ} (h0 : 0 ≤ i) (h1 : i < l.length) :
    ∃ x, index l i = some x := by
  obtain ⟨k, rfl⟩ := Int.eq_ofNat_of_zero_le h0
  rw [index_natCast]
  exact ⟨_, List.getElem?_eq_getElem (by omega)⟩

theorem mem_range {a b k : ℤ} : k ∈ range a b ↔ a ≤ k ∧ k < b := by
  rw [range, List.mem_map]
  constructor
  · rintro ⟨j, hj, rfl⟩
    rw [List.mem_range] at hj
    omega
  · rintro ⟨h0, h1⟩
    exact ⟨(k - a).toNat, List.mem_range.mpr (by omega), by omega⟩

theorem range_append {a b c : ℤ} (hab : a ≤ b) (hbc : b ≤ c) :
    range a b ++ range b c = range a c := by
  have hlen : (c - a).toNat = (b - a).toNat + (c - b).toNat := by omega
  rw [range, range, range, hlen, List.range_add, List.map_append, List.map_map]
  congr 1
  refine List.map_congr_left fun k _ => ?_
  rw [Function.comp_apply]
  push_cast
  omega

/-! ## The positions of elements -/

theorem positions_append_singleton (p : α → Bool) (l : List α) (x : α) :
    positions p (l ++ [x]) = positions p l ++ if p x then [(l.length : ℤ)] else [] := by
  rw [positions, List.zipIdx_append, List.filterMap_append, positions]
  cases hx : p x <;> simp [hx]

theorem lt_of_mem_positions {p : α → Bool} {l : List α} {i : ℤ} (h : i ∈ positions p l) :
    ∃ k < l.length, i = (k : ℤ) := by
  obtain ⟨⟨x, k⟩, hk, hi⟩ := List.mem_filterMap.mp h
  have hlt := List.snd_lt_of_mem_zipIdx hk
  split_ifs at hi
  exact ⟨k, by simpa using hlt, (Option.some.inj hi).symm⟩

/-- The positions kept are those of the elements kept, in order. -/
theorem map_index_positions (p : α → Bool) (l : List α) :
    (positions p l).map (index l) = (l.filter p).map some := by
  induction l using List.reverseRecOn with
  | nil => rfl
  | append_singleton l x ih =>
    have hinit : (positions p l).map (index (l ++ [x])) = (positions p l).map (index l) := by
      refine List.map_congr_left fun i hi => ?_
      obtain ⟨k, hk, rfl⟩ := lt_of_mem_positions hi
      rw [index_natCast, index_natCast, List.getElem?_append_left hk]
    rw [positions_append_singleton, List.map_append, hinit, ih, List.filter_append,
      List.map_append]
    congr 1
    cases hx : p x <;> simp [hx]

/-! ## Looking for an element -/

/-- If the condition does not fail, `next` is the first element that meets it. -/
theorem next_eq {p : ℤ → Option Bool} {l : List ℤ} (h : ∀ k ∈ l, (p k).isSome) :
    next p l = some (l.find? fun k => p k == some true) := by
  induction l with
  | nil => rfl
  | cons k l ih =>
    obtain ⟨b, hb⟩ := Option.isSome_iff_exists.mp (h k List.mem_cons_self)
    have htail := ih fun j hj => h j (List.mem_cons_of_mem k hj)
    rw [next] at htail ⊢
    cases b <;> simp [List.findM?, hb, htail]

/-- The indices below `n` in cyclic order, from the one after `i` to `i`. -/
def cyclic (n i : ℤ) : List ℤ := range (i + 1) n ++ range 0 (i + 1)

theorem mem_cyclic {n i k : ℤ} (h0 : 0 ≤ i) (h1 : i < n) : k ∈ cyclic n i ↔ 0 ≤ k ∧ k < n := by
  rw [cyclic, List.mem_append, mem_range, mem_range]
  omega

/-- Looking from `i + 1` on, and if there is none from the start, is looking in cyclic
    order. -/
theorem find?_cyclic {n i : ℤ} (h0 : 0 ≤ i) (h1 : i < n) (q : ℤ → Bool) :
    ((range (i + 1) n).find? q).or ((range 0 n).find? q) = (cyclic n i).find? q := by
  have hall : range 0 n = range 0 (i + 1) ++ range (i + 1) n :=
    (range_append (by omega) (by omega)).symm
  rw [cyclic, List.find?_append, hall, List.find?_append]
  cases (range (i + 1) n).find? q with
  | some k => rfl
  | none => rw [Option.none_or, Option.none_or, Option.or_none]

end DjmT1.Lib.PySeq
