import DjmT1.Audio.PassThrough

/-!
# Accuracy of the sample encoder

`f_to_s24` (audio/djmt1_iso.c:66-70) limits a sample to `[-1, 1]` and cuts off
`x * (2^23 - 1)` toward zero. Rounding toward zero to multiples of `1 / N` is treated
first, for any `N` (`quantize`); the encoder, with its product read as exact, is the case
`N = 2^23 - 1`, and its bytes read back are that number (`encodedValue_eq`).

* `encoder_accuracy`: full scale never wraps, the encoder is odd and monotone, and what
  is read back is less than two steps away from the limited sample.
-/

namespace DjmT1.Audio

open DjmT1.Lib

/-! ## Rounding toward zero -/

/-- Rounding toward zero stays on the same side. -/
theorem truncate_nonneg {x : ℚ} (h : 0 ≤ x) : 0 ≤ truncate x := by
  rw [truncate_of_nonneg h]
  exact Int.floor_nonneg.mpr h

/-- Below zero, rounding toward zero is rounding up. -/
theorem truncate_of_nonpos {x : ℚ} (h : x ≤ 0) : truncate x = -⌊-x⌋ := by
  have hneg := truncate_neg x
  rw [truncate_of_nonneg (neg_nonneg.mpr h)] at hneg
  omega

/-- Rounding toward zero keeps the order. -/
theorem truncate_mono {x y : ℚ} (h : x ≤ y) : truncate x ≤ truncate y := by
  rcases le_total 0 x with hx | hx
  · rw [truncate_of_nonneg hx, truncate_of_nonneg (hx.trans h)]
    exact Int.floor_le_floor h
  · rcases le_total 0 y with hy | hy
    · have hupper := truncate_nonneg (neg_nonneg.mpr hx)
      have hlower := truncate_nonneg hy
      rw [truncate_neg] at hupper
      omega
    · rw [truncate_of_nonpos hx, truncate_of_nonpos hy]
      exact neg_le_neg (Int.floor_le_floor (neg_le_neg h))

/-- Rounding toward zero moves a number by less than one. -/
theorem abs_truncate_sub_lt (x : ℚ) : |(truncate x : ℚ) - x| < 1 := by
  rcases le_total 0 x with hx | hx
  · have hle := Int.floor_le x
    have hlt := Int.lt_floor_add_one x
    rw [truncate_of_nonneg hx, abs_lt]
    constructor <;> linarith
  · have hle := Int.floor_le (-x)
    have hlt := Int.lt_floor_add_one (-x)
    rw [truncate_of_nonpos hx, abs_lt]
    push_cast
    constructor <;> linarith

@[simp] theorem truncate_intCast (n : ℤ) : truncate n = n := by simp [truncate]

/-! ## A quantizer with `N` steps on each side -/

/-- A sample limited to full scale. -/
def clamp (x : ℚ) : ℚ := max (-1) (min 1 x)

theorem clamp_neg (x : ℚ) : clamp (-x) = -clamp x := by
  simp only [clamp, max_def, min_def]
  split_ifs <;> linarith

theorem clamp_mono : Monotone clamp := fun _ _ h => max_le_max_left _ (min_le_min_left _ h)

theorem abs_clamp_le (x : ℚ) : |clamp x| ≤ 1 := by
  rw [abs_le]
  exact ⟨le_max_left _ _, max_le (by norm_num) (min_le_left _ _)⟩

theorem clamp_clamp (x : ℚ) : clamp (clamp x) = clamp x := by
  obtain ⟨hlow, hhigh⟩ := abs_le.mp (abs_clamp_le x)
  rw [clamp, min_eq_right hhigh, max_eq_right hlow]

/-- The multiple of `1 / N` next to the limited sample, toward zero. -/
def quantize (N : ℕ) (x : ℚ) : ℤ := truncate (clamp x * N)

theorem quantize_neg (N : ℕ) (x : ℚ) : quantize N (-x) = -quantize N x := by
  rw [quantize, quantize, clamp_neg, neg_mul, truncate_neg]

theorem quantize_mono (N : ℕ) : Monotone (quantize N) := fun _ _ h =>
  truncate_mono (mul_le_mul_of_nonneg_right (clamp_mono h) (Nat.cast_nonneg N))

theorem quantize_clamp (N : ℕ) (x : ℚ) : quantize N (clamp x) = quantize N x := by
  rw [quantize, clamp_clamp, quantize]

/-- Full scale is `N`. -/
theorem quantize_one (N : ℕ) : quantize N 1 = N := by
  rw [quantize, show clamp 1 = 1 by norm_num [clamp], one_mul]
  exact truncate_intCast N

/-- Nothing is beyond full scale. -/
theorem abs_quantize_le (N : ℕ) (x : ℚ) : |quantize N x| ≤ N := by
  obtain ⟨hlow, hhigh⟩ := abs_le.mp (abs_clamp_le x)
  have htop := quantize_mono N hhigh
  have hbottom := quantize_mono N hlow
  rw [quantize_clamp, quantize_one] at htop
  rw [quantize_clamp, quantize_neg, quantize_one] at hbottom
  exact abs_le.mpr ⟨hbottom, htop⟩

/-- Read with a scale of `N + 1`, the quantized sample is less than two steps away: less
    than one from rounding and at most one from the scale. -/
theorem quantize_error (N : ℕ) (x : ℚ) :
    |(quantize N x : ℚ) / (N + 1) - clamp x| < 2 / (N + 1) := by
  have hpos : (0 : ℚ) < N + 1 := by positivity
  have hround := abs_lt.mp (abs_truncate_sub_lt (clamp x * N))
  have hclamp := abs_le.mp (abs_clamp_le x)
  have hscaled : |(quantize N x : ℚ) - clamp x * (N + 1)| < 2 := by
    rw [quantize, abs_lt]
    constructor <;> linarith
  calc |(quantize N x : ℚ) / (N + 1) - clamp x|
      = |((quantize N x : ℚ) - clamp x * (N + 1)) / (N + 1)| := by
        rw [sub_div, mul_div_cancel_right₀ _ hpos.ne']
    _ = |(quantize N x : ℚ) - clamp x * (N + 1)| / (N + 1) := by rw [abs_div, abs_of_pos hpos]
    _ < 2 / (N + 1) := div_lt_div_of_pos_right hscaled hpos

/-! ## The encoder -/

/-- The number that the three bytes of a sample stand for. -/
def encodedValue (x : ℚ) : ℤ := s24le (fToS24 id x).1 (fToS24 id x).2.1 (fToS24 id x).2.2

/-- The limits of line 67. -/
theorem clamp_eq (x : ℚ) : (if x > 1 then 1 else if x < -1 then -1 else x) = clamp x := by
  simp only [clamp, max_def, min_def]
  split_ifs <;> linarith

/-- The bytes are those of a number of 24 bits. -/
theorem fToS24_eq (x : ℚ) : fToS24 id x = bytes24 (BitVec.ofInt 32 (quantize 8388607 x)) := by
  rw [fToS24, clamp_eq, bytes24, quantize]
  rfl

theorem encodedValue_eq (x : ℚ) : encodedValue x = quantize 8388607 x := by
  obtain ⟨hlow, hhigh⟩ := abs_le.mp (abs_quantize_le 8388607 x)
  rw [encodedValue, fToS24_eq, s24le_bytes24 (by omega) (by omega)]

/-- Three bytes are the split of the number they stand for. -/
theorem bytes24_s24le (p0 p1 p2 : Byte) :
    bytes24 (BitVec.ofInt 32 (s24le p0 p1 p2)) = (p0, p1, p2) := by
  obtain ⟨hlow, hhigh⟩ := s24le_bounds p0 p1 p2
  obtain ⟨h0, h1, h2⟩ := s24le_inj (s24le_bytes24 hlow hhigh)
  exact Prod.ext h0 (Prod.ext h1 h2)

/-- A stored sample is read back as its number, scaled. -/
theorem s24ToF_storeS24 {b : Region Byte} {k : ℕ} {x : ℚ} (h : k + 3 ≤ b.size) :
    ∃ b', storeS24 id b k x = some b' ∧
      s24ToF b' k = some ((encodedValue x : ℚ) / 8388608) := by
  have h1 : (k : ℤ) + 1 = (k + 1 : ℕ) := by push_cast; rfl
  have h2 : (k : ℤ) + 2 = (k + 2 : ℕ) := by push_cast; rfl
  refine ⟨⟨b.size, Function.update (Function.update (Function.update b.get k (fToS24 id x).1)
    (k + 1) (fToS24 id x).2.1) (k + 2) (fToS24 id x).2.2⟩, ?_, ?_⟩
  · simp only [storeS24, Option.bind_eq_bind, h1, h2]
    rw [Region.store_eq (by omega), Option.bind_some, Region.store_eq (by simp only; omega),
      Option.bind_some, Region.store_eq (by simp only; omega)]
  · simp only [s24ToF, Option.bind_eq_bind, Option.pure_def, h1, h2]
    rw [Region.load_eq (by simp only; omega), Option.bind_some,
      Region.load_eq (by simp only; omega), Option.bind_some,
      Region.load_eq (by simp only; omega), Option.bind_some]
    simp [encodedValue]

/-- **Encoder accuracy.** The bytes that `f_to_s24` stores are read back, by `s24_to_f` and
    by `s24le`, as a number `q` that stays within full scale on both sides, is odd and
    monotone in the sample, depends only on the sample limited to `[-1, 1]`, and is less
    than `2^-22` away from it. Splitting a number of 24 bits into bytes and joining them
    are inverse to each other. -/
theorem encoder_accuracy :
    (∀ x (b : Region Byte) (k : ℕ), k + 3 ≤ b.size → ∃ b', storeS24 id b k x = some b' ∧
      s24ToF b' k = some ((encodedValue x : ℚ) / 8388608)) ∧
    (∀ x, |encodedValue x| ≤ 2 ^ 23 - 1) ∧
    (∀ x, encodedValue (-x) = -encodedValue x) ∧
    Monotone encodedValue ∧
    (∀ x, encodedValue x = encodedValue (clamp x)) ∧
    (∀ x, |(encodedValue x : ℚ) / 2 ^ 23 - clamp x| < 1 / 2 ^ 22) ∧
    (∀ v : ℤ, -2 ^ 23 ≤ v → v < 2 ^ 23 → s24le (bytes24 (BitVec.ofInt 32 v)).1
      (bytes24 (BitVec.ofInt 32 v)).2.1 (bytes24 (BitVec.ofInt 32 v)).2.2 = v) ∧
    (∀ p0 p1 p2, -2 ^ 23 ≤ s24le p0 p1 p2 ∧ s24le p0 p1 p2 < 2 ^ 23 ∧
      bytes24 (BitVec.ofInt 32 (s24le p0 p1 p2)) = (p0, p1, p2)) := by
  have heq : encodedValue = quantize 8388607 := funext encodedValue_eq
  refine ⟨fun x b k h => s24ToF_storeS24 h, fun x => ?_, fun x => ?_, ?_, fun x => ?_,
    fun x => ?_, fun v h0 h1 => s24le_bytes24 h0 h1, fun p0 p1 p2 => ?_⟩
  · rw [heq]
    exact abs_quantize_le 8388607 x
  · rw [heq, quantize_neg]
  · rw [heq]
    exact quantize_mono 8388607
  · rw [heq, quantize_clamp]
  · have herror := quantize_error 8388607 x
    rw [heq]
    norm_num at herror ⊢
    exact herror
  · obtain ⟨hlow, hhigh⟩ := s24le_bounds p0 p1 p2
    exact ⟨hlow, hhigh, bytes24_s24le p0 p1 p2⟩

/-- Beyond full scale on both sides. -/
example : encodedValue 2 = 8388607 ∧ encodedValue (-3 / 2) = -8388607 := by decide +kernel

end DjmT1.Audio
