import DjmT1.Audio.Codec

/-!
# Capture routed to playback

A sample is decoded as `v / 2^23` and encoded as `x * (2^23 - 1)`, cut off toward
zero, so that a value of `1.0` still fits in 24 bits. The product is read as exact.

* `truncate_scaled`: what this does to a sample of value `v`.
* `pass_through_shifts`: payloads that come back changed.
* `pass_through`: every sample of a payload comes back one step closer to zero, in its
  place, and only silence comes back as it was.
-/

namespace DjmT1.Audio

open DjmT1.Lib

/-! ## Three bytes and their value -/

/-- The unsigned value of three little-endian bytes. -/
def le24 (p0 p1 p2 : Byte) : ℕ := p0.toNat + 256 * p1.toNat + 65536 * p2.toNat

theorem le24_lt (p0 p1 p2 : Byte) : le24 p0 p1 p2 < 2 ^ 24 := by
  have h0 := p0.isLt
  have h1 := p1.isLt
  have h2 := p2.isLt
  rw [le24]
  omega

/-- The bytes put together without sign extension (line 62). -/
theorem toNat_or_bytes (p0 p1 p2 : Byte) :
    (p0.setWidth 32 ||| (p1.setWidth 32 <<< 8) ||| (p2.setWidth 32 <<< 16)).toNat =
      le24 p0 p1 p2 := by
  have h0 := p0.isLt
  have h1 := p1.isLt
  have h2 := p2.isLt
  have hlow : p0.toNat ||| p1.toNat <<< 8 = p0.toNat + 256 * p1.toNat := by
    rw [Nat.or_comm, ← Nat.shiftLeft_add_eq_or_of_lt h0, Nat.shiftLeft_eq]
    omega
  have hhigh : (p0.toNat + 256 * p1.toNat) ||| p2.toNat <<< 16 = le24 p0 p1 p2 := by
    rw [Nat.or_comm, ← Nat.shiftLeft_add_eq_or_of_lt (show _ < 2 ^ 16 by omega), Nat.shiftLeft_eq,
      le24]
    omega
  simp only [BitVec.toNat_or, BitVec.toNat_shiftLeft, BitVec.toNat_setWidth]
  rw [Nat.mod_eq_of_lt (show p0.toNat < 2 ^ 32 by omega),
    Nat.mod_eq_of_lt (show p1.toNat < 2 ^ 32 by omega),
    Nat.mod_eq_of_lt (show p2.toNat < 2 ^ 32 by omega),
    Nat.mod_eq_of_lt (show p1.toNat <<< 8 < 2 ^ 32 by rw [Nat.shiftLeft_eq]; omega),
    Nat.mod_eq_of_lt (show p2.toNat <<< 16 < 2 ^ 32 by rw [Nat.shiftLeft_eq]; omega), hlow, hhigh]

/-- Sign extension from 24 bits (line 63). -/
theorem toInt_signExtend {v : BitVec 32} (hlt : v.toNat < 2 ^ 24) :
    (if v &&& 0x800000#32 ≠ 0 then v ||| 0xFF000000#32 else v).toInt =
      if v.toNat < 2 ^ 23 then (v.toNat : ℤ) else v.toNat - 2 ^ 24 := by
  have hbit : v &&& 0x800000#32 ≠ 0 ↔ 2 ^ 23 ≤ v.toNat := by
    rw [Ne, ← BitVec.toNat_inj, BitVec.toNat_and,
      show (0x800000#32).toNat = 2 ^ 23 from rfl, Nat.and_two_pow,
      Nat.testBit_eq_decide_div_mod_eq]
    by_cases h : v.toNat < 2 ^ 23
    · rw [Nat.div_eq_of_lt h]
      exact iff_of_false (not_not.mpr rfl) (not_le.mpr h)
    · rw [show v.toNat / 2 ^ 23 = 1 by omega]
      exact iff_of_true (by decide) (not_lt.mp h)
  have hor : (v ||| 0xFF000000#32).toNat = v.toNat + 0xFF000000 := by
    rw [BitVec.toNat_or, show (0xFF000000#32).toNat = 0xFF <<< 24 from rfl, Nat.or_comm,
      ← Nat.shiftLeft_add_eq_or_of_lt hlt, Nat.shiftLeft_eq]
    omega
  by_cases h : v.toNat < 2 ^ 23
  · rw [if_neg (fun hb => absurd (hbit.mp hb) (not_le.mpr h)), if_pos h, BitVec.toInt_eq_toNat_cond,
      if_pos (by omega)]
  · rw [if_pos (hbit.mpr (not_lt.mp h)), if_neg h, BitVec.toInt_eq_toNat_cond, hor,
      if_neg (by omega)]
    push_cast
    ring

/-- Bit 23 is the sign. -/
theorem s24le_eq (p0 p1 p2 : Byte) :
    s24le p0 p1 p2 =
      if le24 p0 p1 p2 < 2 ^ 23 then (le24 p0 p1 p2 : ℤ) else le24 p0 p1 p2 - 2 ^ 24 := by
  have hv := toNat_or_bytes p0 p1 p2
  have hsign := toInt_signExtend (hv ▸ le24_lt p0 p1 p2)
  rw [hv] at hsign
  exact hsign

/-- A sample has 24 bits. -/
theorem s24le_bounds (p0 p1 p2 : Byte) :
    -2 ^ 23 ≤ s24le p0 p1 p2 ∧ s24le p0 p1 p2 < 2 ^ 23 := by
  have hlt := le24_lt p0 p1 p2
  rw [s24le_eq]
  split_ifs <;> omega

/-- The value of a sample determines its bytes. -/
theorem s24le_inj {p0 p1 p2 q0 q1 q2 : Byte} (h : s24le p0 p1 p2 = s24le q0 q1 q2) :
    p0 = q0 ∧ p1 = q1 ∧ p2 = q2 := by
  have hp := le24_lt p0 p1 p2
  have hq := le24_lt q0 q1 q2
  have heq : le24 p0 p1 p2 = le24 q0 q1 q2 := by
    rw [s24le_eq, s24le_eq] at h
    split_ifs at h <;> omega
  simp only [le24] at heq
  have h0 := p0.isLt
  have h1 := p1.isLt
  have h0' := q0.isLt
  have h1' := q1.isLt
  refine ⟨BitVec.toNat_inj.mp ?_, BitVec.toNat_inj.mp ?_, BitVec.toNat_inj.mp ?_⟩
  · omega
  · omega
  · omega

/-! ## Encoding -/

/-- The three bytes of a number that `f_to_s24` stores (line 69). -/
def bytes24 (v : BitVec 32) : Byte × Byte × Byte :=
  ((v &&& 0xFF#32).setWidth 8, (v.sshiftRight 8 &&& 0xFF#32).setWidth 8,
    (v.sshiftRight 16 &&& 0xFF#32).setWidth 8)

/-- Bits `k` to `k + 8` of a number. -/
theorem toNat_byte (v : BitVec 32) {k : ℕ} (hk : k ≤ 24) :
    ((v.sshiftRight k &&& 0xFF#32).setWidth 8).toNat = v.toNat / 2 ^ k % 256 := by
  have hshift : (v.sshiftRight k).setWidth 8 = (v >>> k).setWidth 8 := by
    ext i hi
    simp [BitVec.getLsbD_sshiftRight, show ¬ 32 ≤ i by omega, show k + i < 32 by omega]
  have hmask : ∀ x : BitVec 32, (x &&& 0xFF#32).setWidth 8 = x.setWidth 8 := by
    intro x
    rw [← BitVec.toNat_inj, BitVec.toNat_setWidth, BitVec.toNat_setWidth, BitVec.toNat_and,
      show (0xFF#32).toNat = 2 ^ 8 - 1 from rfl, Nat.and_two_pow_sub_one_eq_mod, Nat.mod_mod]
  rw [hmask, hshift, BitVec.toNat_setWidth, BitVec.toNat_ushiftRight, Nat.shiftRight_eq_div_pow]

/-- They are those of the number modulo `2^24`. -/
theorem le24_bytes24 (v : BitVec 32) :
    le24 (bytes24 v).1 (bytes24 v).2.1 (bytes24 v).2.2 = v.toNat % 2 ^ 24 := by
  have h0 : ((v &&& 0xFF#32).setWidth 8).toNat = v.toNat / 2 ^ 0 % 256 := by
    have := toNat_byte v (k := 0) (by omega)
    rwa [BitVec.sshiftRight_zero] at this
  rw [le24, bytes24, h0, toNat_byte v (by omega), toNat_byte v (by omega)]
  omega

/-- A number of 24 bits is stored as it is. -/
theorem s24le_bytes24 {w : ℤ} (h0 : -2 ^ 23 ≤ w) (h1 : w < 2 ^ 23) :
    s24le (bytes24 (BitVec.ofInt 32 w)).1 (bytes24 (BitVec.ofInt 32 w)).2.1
      (bytes24 (BitVec.ofInt 32 w)).2.2 = w := by
  rw [s24le_eq, le24_bytes24, BitVec.toNat_ofInt]
  split_ifs <;> omega

/-! ## Scaling -/

theorem truncate_neg (x : ℚ) : truncate (-x) = -truncate x := by
  rw [truncate, truncate, Rat.neg_num, Rat.neg_den, Int.neg_tdiv]

theorem truncate_of_nonneg {x : ℚ} (h : 0 ≤ x) : truncate x = ⌊x⌋ := by
  rw [truncate, Rat.floor_def', Int.tdiv_eq_ediv_of_nonneg (Rat.num_nonneg.mpr h)]

/-- A sample of value `v` becomes `v * (2^23 - 1) / 2^23`, which is between `v` and the
    next value toward zero. -/
theorem truncate_scaled {v : ℤ} (h0 : -2 ^ 23 ≤ v) (h1 : v ≤ 2 ^ 23) :
    truncate ((v : ℚ) / 8388608 * 8388607) = v - v.sign := by
  have hpos : ∀ w : ℤ, 0 < w → w ≤ 2 ^ 23 → truncate ((w : ℚ) / 8388608 * 8388607) = w - 1 := by
    intro w hw hle
    have hw' : (1 : ℚ) ≤ w := by exact_mod_cast hw
    have hle' : (w : ℚ) ≤ 8388608 := by exact_mod_cast hle
    rw [truncate_of_nonneg (by positivity), Int.floor_eq_iff]
    push_cast
    constructor <;> linarith
  rcases lt_trichotomy v 0 with hneg | rfl | hv
  · have hw := hpos (-v) (by omega) (by omega)
    push_cast at hw
    rw [show -(v : ℚ) / 8388608 * 8388607 = -((v : ℚ) / 8388608 * 8388607) by ring,
      truncate_neg] at hw
    rw [Int.sign_eq_neg_one_of_neg hneg]
    omega
  · simp [truncate]
  · rw [hpos v hv h1, Int.sign_eq_one_of_pos hv]

/-- A sample that is decoded and encoded comes back one step closer to zero. -/
theorem s24le_fToS24 {v : ℤ} (h0 : -2 ^ 23 ≤ v) (h1 : v < 2 ^ 23) :
    s24le (fToS24 id ((v : ℚ) / 8388608)).1 (fToS24 id ((v : ℚ) / 8388608)).2.1
      (fToS24 id ((v : ℚ) / 8388608)).2.2 = v - v.sign := by
  have hle : (v : ℚ) ≤ 8388608 := by exact_mod_cast h1.le
  have hge : (-8388608 : ℚ) ≤ v := by exact_mod_cast h0
  have hclamp : fToS24 id ((v : ℚ) / 8388608) =
      bytes24 (BitVec.ofInt 32 (truncate ((v : ℚ) / 8388608 * 8388607))) := by
    have hgt : ¬ (v : ℚ) / 8388608 > 1 := by rw [not_lt, div_le_one (by norm_num)]; exact hle
    have hlt : ¬ (v : ℚ) / 8388608 < -1 := by
      rw [not_lt, le_div_iff₀ (by norm_num)]; linarith
    rw [fToS24, if_neg hgt, if_neg hlt, bytes24, id_eq]
  have hsign : -2 ^ 23 ≤ v - v.sign ∧ v - v.sign < 2 ^ 23 := by
    rcases lt_trichotomy v 0 with hneg | rfl | hv
    · rw [Int.sign_eq_neg_one_of_neg hneg]; omega
    · simp
    · rw [Int.sign_eq_one_of_pos hv]; omega
  rw [hclamp, truncate_scaled h0 h1.le, s24le_bytes24 hsign.1 hsign.2]

/-! ## Payloads -/

/-- The value of sample `k` of a payload. -/
def sampleValue (p : Region Byte) (k : ℕ) : ℤ :=
  s24le (p.get (k * 3)) (p.get (k * 3 + 1)) (p.get (k * 3 + 2))

theorem sampleAt_eq (p : Region Byte) (k : ℕ) : sampleAt p k = (sampleValue p k : ℚ) / 8388608 :=
  rfl

theorem block_three (p : Region Byte) (k : ℕ) :
    p.block 3 k = [p.get (k * 3), p.get (k * 3 + 1), p.get (k * 3 + 2)] := by
  simp [Region.block, Region.slice, List.range_succ]

/-- A sample with the bytes that `f_to_s24` makes of a decoded one. -/
theorem sampleValue_of_block {p b : Region Byte} {k : ℕ}
    (h : b.block 3 k = s24Bytes id (sampleAt p k)) :
    sampleValue b k = sampleValue p k - (sampleValue p k).sign := by
  rw [block_three, s24Bytes, sampleAt_eq] at h
  simp only [List.cons.injEq, and_true] at h
  obtain ⟨h0, h1, h2⟩ := h
  obtain ⟨hge, hlt⟩ := s24le_bounds (p.get (k * 3)) (p.get (k * 3 + 1)) (p.get (k * 3 + 2))
  rw [sampleValue, h0, h1, h2]
  exact s24le_fToS24 hge hlt

/-- Two samples of the same value are the same bytes. -/
theorem block_eq_iff {p b : Region Byte} {k : ℕ} :
    b.block 3 k = p.block 3 k ↔ sampleValue b k = sampleValue p k := by
  rw [block_three, block_three]
  constructor
  · intro h
    simp only [List.cons.injEq, and_true] at h
    obtain ⟨h0, h1, h2⟩ := h
    rw [sampleValue, sampleValue, h0, h1, h2]
  · intro h
    obtain ⟨h0, h1, h2⟩ := s24le_inj h
    rw [h0, h1, h2]

/-- A payload whose samples are all 65793 comes back with all of them 65792. -/
theorem pass_through_shifts : ∃ tmp b,
    decodeLoop (Region.fill 18 1) 1 (Region.fill 6 0) = some tmp ∧
    encodeLoop id tmp 1 (Region.fill 18 0) = some b ∧
    b.slice 0 18 ≠ (Region.fill 18 (1 : Byte)).slice 0 18 :=
  ⟨_, _, rfl, rfl, by decide +kernel⟩

/-- **Pass-through.** Decoding a payload of whole frames and encoding the result is
    defined. It brings every sample one step closer to zero and leaves a zero sample; so
    it gives back the same bytes exactly if all samples are zero. -/
theorem pass_through {pkt b : Region Byte} {nf : ℕ} {tmp : Region ℚ} (hp : nf * 18 ≤ pkt.size)
    (ht : nf * 6 ≤ tmp.size) (hb : nf * 18 ≤ b.size) : ∃ tmp' b',
    decodeLoop pkt nf tmp = some tmp' ∧ encodeLoop id tmp' nf b = some b' ∧
    (∀ k < nf * 6, sampleValue b' k = sampleValue pkt k - (sampleValue pkt k).sign) ∧
    (b'.slice 0 (nf * 18) = pkt.slice 0 (nf * 18) ↔ ∀ k < nf * 6, sampleValue pkt k = 0) := by
  obtain ⟨tmp', hdec, hsize, hframes⟩ := decodeLoop_spec hp ht
  obtain ⟨b', henc, _, hslice⟩ := encodeLoop_spec
    (show nf * 6 ≤ tmp'.size from hsize ▸ ht) hb
  have hdecoded : decodedFrames pkt nf = frames ⟨nf * 6, sampleAt pkt⟩ nf := rfl
  rw [hframes, hdecoded, encodedFrames_frames, show nf * 18 = nf * 6 * 3 by ring,
    Region.slice_eq_flatMap fun k => length_s24Bytes _] at hslice
  have hvalue : ∀ k < nf * 6, sampleValue b' k = sampleValue pkt k - (sampleValue pkt k).sign :=
    fun k hk => sampleValue_of_block (hslice k hk)
  refine ⟨tmp', b', hdec, henc, hvalue, ?_⟩
  have hpkt : pkt.slice 0 (nf * 18) = (List.range (nf * 6)).flatMap (pkt.block 3) := by
    rw [show nf * 18 = nf * 6 * 3 by ring, Region.slice_eq_flatMap (Region.length_block pkt 3)]
    exact fun k _ => rfl
  rw [hpkt, show nf * 18 = nf * 6 * 3 by ring,
    Region.slice_eq_flatMap (Region.length_block pkt 3)]
  refine forall₂_congr fun k hk => ?_
  rw [block_eq_iff, hvalue k hk, sub_eq_self, Int.sign_eq_zero_iff_zero]

/-- A frame with the two extreme samples, 1, -1, 0 and another one. -/
def extremeFrame : List Byte :=
  [0xFF, 0xFF, 0x7F, 0, 0, 0x80, 1, 0, 0, 0xFF, 0xFF, 0xFF, 0, 0, 0, 3, 2, 1]

theorem pass_through_extremeFrame : ∃ tmp' b',
    decodeLoop (Region.ofList extremeFrame 0) 1 (Region.fill 6 0) = some tmp' ∧
    encodeLoop id tmp' 1 (Region.fill 18 0) = some b' ∧
    (∀ k < 6, sampleValue b' k = sampleValue (Region.ofList extremeFrame 0) k -
      (sampleValue (Region.ofList extremeFrame 0) k).sign) ∧
    (b'.slice 0 18 = (Region.ofList extremeFrame 0).slice 0 18 ↔
      ∀ k < 6, sampleValue (Region.ofList extremeFrame 0) k = 0) :=
  @pass_through (Region.ofList extremeFrame 0) (Region.fill 18 0) 1 (Region.fill 6 0) (by decide)
    (by decide) (by decide)

end DjmT1.Audio
