import Mathlib

/-!
# Memory regions

A `Region` is a C object or heap block seen as an array of `size` elements. The
accesses `load`, `store`, `memcpy` and `memset` are undefined (`none`) outside
it, so a program that runs to `some` result has touched nothing else.

An array of records is read in blocks: `block b w k` is the `k`-th group of `w`
consecutive elements. Copying one block moves exactly that block
(`block_memcpy_self`, `block_memcpy_ne`).
-/

namespace DjmT1.Lib

universe u

/-- An `unsigned char`. -/
abbrev Byte := BitVec 8

/-- `size` elements of memory. The values of `get` from `size` on mean nothing. -/
structure Region (α : Type u) where
  size : ℕ
  get : ℕ → α

namespace Region

variable {α : Type u}

/-- `n` equal elements (`calloc`, when `x` is zero). -/
def fill (n : ℕ) (x : α) : Region α := ⟨n, fun _ => x⟩

/-- The region that holds the elements of a list. -/
def ofList (l : List α) (d : α) : Region α := ⟨l.length, fun i => l.getD i d⟩

/-- `len` elements from index `off` on. -/
def slice (b : Region α) (off len : ℕ) : List α := (List.range len).map fun j => b.get (off + j)

/-- The `k`-th block of `w` elements. -/
def block (b : Region α) (w k : ℕ) : List α := b.slice (k * w) w

/-- All the elements. -/
def toList (b : Region α) : List α := b.slice 0 b.size

/-- `b[i]` -/
def load (b : Region α) (i : ℤ) : Option α :=
  if 0 ≤ i ∧ i < b.size then some (b.get i.toNat) else none

/-- `b[i] = x` -/
def store (b : Region α) (i : ℤ) (x : α) : Option (Region α) :=
  if 0 ≤ i ∧ i < b.size then some { b with get := Function.update b.get i.toNat x } else none

/-- `memcpy(dst + d, src + s, n elements)` between two different regions. -/
def memcpy (dst : Region α) (d : ℤ) (src : Region α) (s : ℤ) (n : ℕ) : Option (Region α) :=
  if 0 ≤ d ∧ d + n ≤ dst.size ∧ 0 ≤ s ∧ s + n ≤ src.size then
    some { dst with
      get := fun j => if d.toNat ≤ j ∧ j < d.toNat + n then src.get (s.toNat + (j - d.toNat))
        else dst.get j }
  else none

/-- `memset(dst + d, x, n elements)` -/
def memset (dst : Region α) (d : ℤ) (x : α) (n : ℕ) : Option (Region α) :=
  if 0 ≤ d ∧ d + n ≤ dst.size then
    some { dst with get := fun j => if d.toNat ≤ j ∧ j < d.toNat + n then x else dst.get j }
  else none

@[simp] theorem size_fill (n : ℕ) (x : α) : (fill n x).size = n := rfl

@[simp] theorem get_fill (n : ℕ) (x : α) (i : ℕ) : (fill n x).get i = x := rfl

@[simp] theorem size_ofList (l : List α) (d : α) : (ofList l d).size = l.length := rfl

@[simp] theorem length_slice (b : Region α) (off len : ℕ) : (b.slice off len).length = len := by
  simp [slice]

@[simp] theorem length_block (b : Region α) (w k : ℕ) : (b.block w k).length = w := by simp [block]

theorem slice_fill (n : ℕ) (x : α) (off len : ℕ) :
    (fill n x).slice off len = List.replicate len x := by
  simp [slice]

theorem slice_congr {b c : Region α} {off len : ℕ}
    (h : ∀ j, off ≤ j → j < off + len → b.get j = c.get j) : b.slice off len = c.slice off len := by
  refine List.map_congr_left fun j hj => h _ (by omega) ?_
  rw [List.mem_range] at hj; omega

theorem slice_add (b : Region α) (off m n : ℕ) :
    b.slice off (m + n) = b.slice off m ++ b.slice (off + m) n := by
  simp [slice, List.range_add, Nat.add_assoc]

theorem take_slice (b : Region α) (off : ℕ) {m n : ℕ} (h : m ≤ n) :
    (b.slice off n).take m = b.slice off m := by
  rw [slice, ← List.map_take, List.take_range, Nat.min_eq_left h]
  rfl

theorem toList_ofList (l : List α) (d : α) : (ofList l d).toList = l := by
  apply List.ext_getElem
  · simp [toList]
  · intro i h1 h2
    simp [toList, slice, ofList, h2]

/-- Regions with the same block around an index have the same element there. -/
theorem get_eq_of_block {b c : Region α} {w j : ℕ} (hw : 0 < w)
    (h : b.block w (j / w) = c.block w (j / w)) : b.get j = c.get j := by
  have hget := List.map_inj_left.mp h (j % w) (List.mem_range.mpr (Nat.mod_lt j hw))
  rwa [Nat.div_add_mod'] at hget

/-- The first `n` blocks of a region, one after the other. -/
theorem slice_eq_flatMap {b : Region α} {w n : ℕ} {g : ℕ → List α} (hg : ∀ k, (g k).length = w) :
    b.slice 0 (n * w) = (List.range n).flatMap g ↔ ∀ k < n, b.block w k = g k := by
  induction n with
  | zero => simp [slice]
  | succ n ih =>
    rw [Nat.add_mul, Nat.one_mul, slice_add, Nat.zero_add, List.range_succ, List.flatMap_append,
      List.flatMap_singleton, Nat.forall_lt_succ_right, ← ih]
    constructor
    · intro h
      exact List.append_inj' h (by simp [hg])
    · rintro ⟨hinit, hlast⟩
      rw [hinit, ← hlast]
      rfl

/-! ## Accesses inside the region -/

theorem load_eq {b : Region α} {i : ℕ} (h : i < b.size) : b.load i = some (b.get i) := by
  simp [load, h]

theorem store_eq {b : Region α} {i : ℕ} {x : α} (h : i < b.size) :
    b.store i x = some { b with get := Function.update b.get i x } := by
  simp [store, h]

/-- A store behind the first `k` elements. -/
theorem store_concat {b : Region α} {k : ℕ} (x : α) (h : k < b.size) :
    ∃ b', b.store k x = some b' ∧ b'.size = b.size ∧ b'.slice 0 (k + 1) = b.slice 0 k ++ [x] := by
  refine ⟨_, store_eq h, rfl, ?_⟩
  rw [slice_add]
  refine congrArg₂ _ (slice_congr fun j _ hj => ?_) ?_
  · exact Function.update_of_ne (by omega) _ _
  · simp [slice]

/-- Three stores behind them, in a row. -/
theorem store_triple {b : Region α} {k : ℕ} (x y z : α) (h : k + 3 ≤ b.size) :
    ∃ b', ((b.store k x).bind fun b => (b.store (k + 1 : ℕ) y).bind fun b =>
        b.store (k + 2 : ℕ) z) = some b' ∧
      b'.size = b.size ∧ b'.slice 0 (k + 3) = b.slice 0 k ++ [x, y, z] := by
  obtain ⟨b₁, h₁, hsize₁, hslice₁⟩ := store_concat (b := b) (k := k) x (by omega)
  obtain ⟨b₂, h₂, hsize₂, hslice₂⟩ := store_concat (b := b₁) (k := k + 1) y (by omega)
  obtain ⟨b₃, h₃, hsize₃, hslice₃⟩ := store_concat (b := b₂) (k := k + 2) z (by omega)
  refine ⟨b₃, ?_, by omega, ?_⟩
  · rw [h₁, Option.bind_some, h₂, Option.bind_some, h₃]
  · rw [hslice₃, hslice₂, hslice₁, List.append_assoc, List.append_assoc]
    rfl

theorem memcpy_eq {dst src : Region α} {d s n : ℕ} (hd : d + n ≤ dst.size) (hs : s + n ≤ src.size) :
    dst.memcpy d src s n = some { dst with
      get := fun j => if d ≤ j ∧ j < d + n then src.get (s + (j - d)) else dst.get j } := by
  unfold memcpy
  rw [if_pos ⟨by omega, by omega, by omega, by omega⟩]
  simp

theorem memset_eq {dst : Region α} {d n : ℕ} {x : α} (hd : d + n ≤ dst.size) :
    dst.memset d x n = some { dst with
      get := fun j => if d ≤ j ∧ j < d + n then x else dst.get j } := by
  unfold memset
  rw [if_pos ⟨by omega, by omega⟩]
  simp

theorem size_of_memcpy {dst src c : Region α} {d s : ℤ} {n : ℕ}
    (h : dst.memcpy d src s n = some c) : c.size = dst.size := by
  unfold memcpy at h; split_ifs at h; cases h; rfl

/-- A copy leaves what lies behind it. -/
theorem get_of_memcpy {dst src c : Region α} {d : ℤ} {s : ℤ} {n j : ℕ}
    (h : dst.memcpy d src s n = some c) (hj : d + n ≤ j) : c.get j = dst.get j := by
  unfold memcpy at h
  split_ifs at h
  cases h
  exact if_neg (by omega)

/-- A fill leaves what lies behind it. -/
theorem get_of_memset {dst c : Region α} {d : ℤ} {x : α} {n j : ℕ}
    (h : dst.memset d x n = some c) (hj : d + n ≤ j) : c.get j = dst.get j := by
  unfold memset at h
  split_ifs at h
  cases h
  exact if_neg (by omega)

/-- Loads that are all defined. -/
theorem mapM_eq_some {β γ : Type*} {l : List β} {f : β → Option γ} {g : β → γ}
    (h : ∀ x ∈ l, f x = some (g x)) : l.mapM f = some (l.map g) := by
  induction l with
  | nil => rfl
  | cons x l ih =>
    rw [List.mapM_cons, h x List.mem_cons_self, ih fun y hy => h y (List.mem_cons_of_mem x hy)]
    rfl

/-- Loading a range, element by element. -/
theorem mapM_load {b : Region α} {m n : ℕ} (h : m + n ≤ b.size) :
    (List.range n).mapM (fun i => b.load (m + i : ℕ)) = some (b.slice m n) := by
  apply mapM_eq_some
  intro i hi
  rw [List.mem_range] at hi
  exact load_eq (by omega)

/-! ## Copying one block -/

/-- Two different blocks do not overlap. -/
theorem block_disjoint {w k m j : ℕ} (hne : k ≠ m) (h0 : k * w ≤ j) (h1 : j < k * w + w) :
    ¬ (m * w ≤ j ∧ j < m * w + w) := by
  rintro ⟨h2, h3⟩
  rcases Nat.lt_or_gt_of_ne hne with h | h
  · have := Nat.mul_le_mul_right w (show k + 1 ≤ m from h)
    rw [Nat.add_mul, Nat.one_mul] at this
    omega
  · have := Nat.mul_le_mul_right w (show m + 1 ≤ k from h)
    rw [Nat.add_mul, Nat.one_mul] at this
    omega

/-- Block `k` lies inside a region of `m > k` blocks. -/
theorem block_fits {w k m : ℕ} (h : k < m) : k * w + w ≤ m * w := by
  have := Nat.mul_le_mul_right w (show k + 1 ≤ m from h)
  rwa [Nat.add_mul, Nat.one_mul] at this

theorem block_memcpy_self {dst src c : Region α} {w k i : ℕ}
    (h : dst.memcpy (k * w : ℕ) src (i * w : ℕ) w = some c) : c.block w k = src.block w i := by
  unfold memcpy at h
  split_ifs at h
  cases h
  refine List.map_congr_left fun j hj => ?_
  rw [List.mem_range] at hj
  simp only [Int.toNat_natCast]
  rw [if_pos ⟨by omega, by omega⟩, Nat.add_sub_cancel_left]

theorem block_memcpy_ne {dst src c : Region α} {w k m i : ℕ}
    (h : dst.memcpy (k * w : ℕ) src (i * w : ℕ) w = some c) (hne : m ≠ k) :
    c.block w m = dst.block w m := by
  unfold memcpy at h
  split_ifs at h
  cases h
  refine slice_congr fun j h0 h1 => ?_
  simp only [Int.toNat_natCast]
  rw [if_neg (block_disjoint hne h0 h1)]

end Region

end DjmT1.Lib
