import DjmT1.Lib.Region
import DjmT1.Lib.Loop
import DjmT1.Audio.RingInv

/-!
# The S24_3LE sample codec

`s24_to_f` and `f_to_s24` (audio/djmt1_iso.c:61-70) and the two loops that apply
them to whole packets and transfers. A `float` is the rational number it stands
for. The quotients of `s24_to_f` are exact; the product of `f_to_s24` is rounded by
a parameter `rnd`, which is `roundFloat` in the engine, and `id` where the product is
read as exact. Every other operation is the 32-bit integer operation of the source.

* `decodeLoop_spec`: the decode loop of `in_cb` reads `18 * nf` packet bytes,
  writes `6 * nf` elements of `tmp`, and leaves frame `f` of the packet in frame
  `f` of `tmp`.
* `encodeLoop_spec`: the encode loop of `out_cb` fills the transfer buffer with
  the encoding of the frames in `tmp`.
-/

namespace DjmT1.Audio

open DjmT1.Lib

/-- The sign-extended value of three little-endian bytes: lines 62-63, and
    `s24le` (audio/djmt1-capture.c:39-43). -/
def s24le (p0 p1 p2 : Byte) : ℤ :=
  let v := p0.setWidth 32 ||| (p1.setWidth 32 <<< 8) ||| (p2.setWidth 32 <<< 16)
  (if v &&& 0x800000#32 ≠ 0 then v ||| 0xFF000000#32 else v).toInt

/-- `s24_to_f` (lines 61-65) at offset `k` of a packet. -/
def s24ToF (p : Region Byte) (k : ℤ) : Option ℚ := do
  let p0 ← p.load k
  let p1 ← p.load (k + 1)
  let p2 ← p.load (k + 2)
  return s24le p0 p1 p2 / 8388608

/-- Conversion of a `float` to an integer type: toward zero. -/
def truncate (x : ℚ) : ℤ := x.num.tdiv x.den

/-- The nearest integer, the even one of two. -/
def roundEven (x : ℚ) : ℤ :=
  if x - ⌊x⌋ < 1 / 2 then ⌊x⌋ else if 1 / 2 < x - ⌊x⌋ then ⌊x⌋ + 1 else ⌊x⌋ + ⌊x⌋ % 2

/-- The nearest binary number with `p` significant bits, the last of which is worth at
    least `2^emin`. -/
def roundTo (p emin : ℤ) (x : ℚ) : ℚ :=
  let e := max (Int.log 2 |x| - (p - 1)) emin
  roundEven (x / 2 ^ e) * 2 ^ e

/-- The nearest `float`, for a number that is not too large for one. -/
def roundFloat (x : ℚ) : ℚ := roundTo 24 (-149) x

theorem roundFloat_zero : roundFloat 0 = 0 := by decide +kernel

example : roundFloat (2 ^ 24 + 1) = 2 ^ 24 ∧ roundFloat (2 ^ 24 + 3) = 2 ^ 24 + 4 := by
  decide +kernel

variable {rnd : ℚ → ℚ}

/-- The three bytes `f_to_s24` computes (lines 66-70). -/
def fToS24 (rnd : ℚ → ℚ) (x : ℚ) : Byte × Byte × Byte :=
  let x := if x > 1 then 1 else if x < -1 then -1 else x
  let v := BitVec.ofInt 32 (truncate (rnd (x * 8388607)))
  ((v &&& 0xFF#32).setWidth 8, (v.sshiftRight 8 &&& 0xFF#32).setWidth 8,
    (v.sshiftRight 16 &&& 0xFF#32).setWidth 8)

/-- `f_to_s24(x, b + k)`. -/
def storeS24 (rnd : ℚ → ℚ) (b : Region Byte) (k : ℤ) (x : ℚ) : Option (Region Byte) := do
  let b ← b.store k (fToS24 rnd x).1
  let b ← b.store (k + 1) (fToS24 rnd x).2.1
  b.store (k + 2) (fToS24 rnd x).2.2

/-- The decode loop of `in_cb` (lines 84-86). -/
def decodeLoop (pkt : Region Byte) (nf : ℕ) (tmp : Region ℚ) : Option (Region ℚ) :=
  (List.range nf).foldlM (fun tmp (f : ℕ) =>
    (List.range djmt1Ch).foldlM (fun tmp (c : ℕ) => do
      let x ← s24ToF pkt ((f * djmt1Ch + c) * 3)
      tmp.store (f * djmt1Ch + c) x) tmp) tmp

/-- The encode loop of `out_cb` (lines 106-108). -/
def encodeLoop (rnd : ℚ → ℚ) (tmp : Region ℚ) (total : ℕ) (b : Region Byte) :
    Option (Region Byte) :=
  (List.range total).foldlM (fun b (f : ℕ) =>
    (List.range djmt1Ch).foldlM (fun b (c : ℕ) => do
      let x ← tmp.load (f * djmt1Ch + c)
      storeS24 rnd b ((f * djmt1Ch + c) * 3) x) b) b

/-! ## Frames as bytes -/

/-- Sample `k` of a packet. -/
def sampleAt (pkt : Region Byte) (k : ℕ) : ℚ :=
  s24le (pkt.get (k * 3)) (pkt.get (k * 3 + 1)) (pkt.get (k * 3 + 2)) / 8388608

/-- The first `nf` frames of a packet, decoded. -/
def decodedFrames (pkt : Region Byte) (nf : ℕ) : List (List ℚ) :=
  (List.range nf).map fun f => (List.range djmt1Ch).map fun c => sampleAt pkt (f * djmt1Ch + c)

/-- The encoding of one sample. -/
def s24Bytes (rnd : ℚ → ℚ) (x : ℚ) : List Byte :=
  [(fToS24 rnd x).1, (fToS24 rnd x).2.1, (fToS24 rnd x).2.2]

/-- The encoding of interleaved frames: 18 bytes a frame, back to back. -/
def encodedFrames (rnd : ℚ → ℚ) (fs : List (List ℚ)) : List Byte :=
  fs.flatMap fun f => f.flatMap (s24Bytes rnd)

@[simp] theorem encodedFrames_append (fs gs : List (List ℚ)) :
    encodedFrames rnd (fs ++ gs) = encodedFrames rnd fs ++ encodedFrames rnd gs := by
  simp [encodedFrames]

@[simp] theorem length_s24Bytes (x : ℚ) : (s24Bytes rnd x).length = 3 := rfl

/-- A frame takes 18 bytes. -/
theorem length_encodedFrames {fs : List (List ℚ)} (h : ∀ c ∈ fs, c.length = djmt1Ch) :
    (encodedFrames rnd fs).length = fs.length * 18 := by
  induction fs with
  | nil => rfl
  | cons c fs ih =>
    have hc : (c.flatMap (s24Bytes rnd)).length = 18 := by
      simp [List.length_flatMap, h c List.mem_cons_self, djmt1Ch]
    have htail := ih fun d hd => h d (List.mem_cons_of_mem c hd)
    rw [encodedFrames, List.flatMap_cons, List.length_append, hc, List.length_cons]
    rw [encodedFrames] at htail
    omega

/-- A zero sample is three zero bytes. -/
theorem s24Bytes_zero (h : rnd 0 = 0) : s24Bytes rnd 0 = [0, 0, 0] := by
  have h0 : fToS24 rnd 0 = fToS24 id 0 := by
    simp only [fToS24, show ¬ (0 : ℚ) > 1 by norm_num, show ¬ (0 : ℚ) < -1 by norm_num, if_false,
      zero_mul, h, id]
  rw [s24Bytes, h0]
  decide +kernel

/-- Silence stays silence. -/
theorem encodedFrames_zero (h : rnd 0 = 0) (n : ℕ) :
    encodedFrames rnd (List.replicate n (List.replicate djmt1Ch 0)) =
      List.replicate (n * 18) 0 := by
  have h18 : (List.replicate djmt1Ch (0 : ℚ)).flatMap (s24Bytes rnd) = List.replicate 18 0 := by
    simp [List.replicate, s24Bytes_zero h]
  induction n with
  | zero => rfl
  | succ n ih =>
    rw [List.replicate_succ, show n + 1 = 1 + n by omega, Nat.add_mul, List.replicate_add, ← ih,
      ← h18]
    rfl

/-! ## The loops -/

theorem s24ToF_eq {p : Region Byte} {k : ℕ} (h : k * 3 + 3 ≤ p.size) :
    s24ToF p (k * 3 : ℕ) = some (sampleAt p k) := by
  simp only [s24ToF, Option.bind_eq_bind, Option.pure_def]
  rw [Region.load_eq (by omega), Option.bind_some,
    show ((k * 3 : ℕ) : ℤ) + 1 = (k * 3 + 1 : ℕ) by push_cast; rfl, Region.load_eq (by omega),
    Option.bind_some, show ((k * 3 : ℕ) : ℤ) + 2 = (k * 3 + 2 : ℕ) by push_cast; rfl,
    Region.load_eq (by omega), Option.bind_some]
  rfl

/-- The body of the decode loop, at frame `f` and channel `c`. -/
theorem decode_sample {p : Region Byte} {t : Region ℚ} {f c : ℕ}
    (hp : (f * 6 + c) * 3 + 3 ≤ p.size) (ht : f * 6 + c < t.size) :
    (do let x ← s24ToF p ((f * djmt1Ch + c) * 3)
        t.store (f * djmt1Ch + c) x) =
      some { t with get := Function.update t.get (f * 6 + c) (sampleAt p (f * 6 + c)) } := by
  have hl := s24ToF_eq hp
  have hst := Region.store_eq (x := sampleAt p (f * 6 + c)) ht
  simp only [djmt1Ch]
  push_cast at hl hst ⊢
  rw [hl, Option.bind_eq_bind, Option.bind_some, hst]

theorem decodeLoop_spec {pkt : Region Byte} {nf : ℕ} {tmp : Region ℚ} (hp : nf * 18 ≤ pkt.size)
    (ht : nf * 6 ≤ tmp.size) : ∃ tmp', decodeLoop pkt nf tmp = some tmp' ∧
      tmp'.size = tmp.size ∧ frames tmp' nf = decodedFrames pkt nf := by
  have outer : ∃ tmp', decodeLoop pkt nf tmp = some tmp' ∧
      tmp'.size = tmp.size ∧ ∀ k < nf * 6, tmp'.get k = sampleAt pkt k := by
    refine loop_spec _ (fun f (t : Region ℚ) => t.size = tmp.size ∧
      ∀ k < f * 6, t.get k = sampleAt pkt k) nf ⟨rfl, by simp⟩ ?_
    rintro f t hf ⟨hts, htg⟩
    rw [show (f + 1) * 6 = f * 6 + djmt1Ch by simp only [djmt1Ch]; ring]
    refine loop_spec _ (fun c (u : Region ℚ) => u.size = tmp.size ∧
      ∀ k < f * 6 + c, u.get k = sampleAt pkt k) djmt1Ch ⟨hts, htg⟩ ?_
    rintro c u hc ⟨hus, hug⟩
    simp only [djmt1Ch] at hc
    refine ⟨_, decode_sample (by omega) (by omega), hus, fun k hk => ?_⟩
    by_cases hkc : k = f * 6 + c
    · rw [hkc]; exact Function.update_self _ _ _
    · simp only [Function.update_of_ne hkc]; exact hug k (by omega)
  obtain ⟨tmp', h, hsize, hget⟩ := outer
  refine ⟨tmp', h, hsize, List.map_congr_left fun f hf => List.map_congr_left fun c hc => ?_⟩
  simp only [djmt1Ch, List.mem_range] at hf hc ⊢
  exact hget _ (by omega)

theorem storeS24_spec (rnd : ℚ → ℚ) {b : Region Byte} {k : ℕ} {x : ℚ} (h : k * 3 + 3 ≤ b.size) :
    ∃ b', storeS24 rnd b (k * 3 : ℕ) x = some b' ∧ b'.size = b.size ∧
      b'.slice 0 ((k + 1) * 3) = b.slice 0 (k * 3) ++ s24Bytes rnd x := by
  have h1 : ((k * 3 : ℕ) : ℤ) + 1 = (k * 3 + 1 : ℕ) := by push_cast; rfl
  have h2 : ((k * 3 : ℕ) : ℤ) + 2 = (k * 3 + 2 : ℕ) := by push_cast; rfl
  rw [show (k + 1) * 3 = k * 3 + 3 by ring, storeS24, h1, h2]
  exact Region.store_triple _ _ _ h

/-- Sample by sample, the encoding of interleaved frames. -/
theorem encodedFrames_frames (tmp : Region ℚ) (total : ℕ) :
    encodedFrames rnd (frames tmp total) =
      (List.range (total * 6)).flatMap fun k => s24Bytes rnd (tmp.get k) := by
  induction total with
  | zero => rfl
  | succ n ih =>
    have hf : frames tmp (n + 1) = frames tmp n ++ [tmp.block djmt1Ch n] := by
      simp [frames, List.range_succ]
    rw [hf, encodedFrames_append, ih, show (n + 1) * 6 = n * 6 + 6 by ring, List.range_add,
      List.flatMap_append, List.flatMap_map]
    simp [encodedFrames, Region.block, Region.slice, List.flatMap_map]

/-- The body of the encode loop, at frame `f` and channel `c`. -/
theorem encode_sample {tmp : Region ℚ} {b : Region Byte} {f c : ℕ}
    (ht : f * 6 + c < tmp.size) (hb : (f * 6 + c) * 3 + 3 ≤ b.size) :
    ∃ b', (do let x ← tmp.load (f * djmt1Ch + c)
              storeS24 rnd b ((f * djmt1Ch + c) * 3) x) = some b' ∧ b'.size = b.size ∧
      b'.slice 0 ((f * 6 + c + 1) * 3) =
        b.slice 0 ((f * 6 + c) * 3) ++ s24Bytes rnd (tmp.get (f * 6 + c)) := by
  obtain ⟨b', hb', hsize, hslice⟩ := storeS24_spec rnd (x := tmp.get (f * 6 + c)) hb
  refine ⟨b', ?_, hsize, hslice⟩
  have hl := Region.load_eq ht
  simp only [djmt1Ch]
  push_cast at hl hb' ⊢
  rw [hl, Option.bind_eq_bind, Option.bind_some, hb']

theorem encodeLoop_spec {tmp : Region ℚ} {total : ℕ} {b : Region Byte} (ht : total * 6 ≤ tmp.size)
    (hb : total * 18 ≤ b.size) : ∃ b', encodeLoop rnd tmp total b = some b' ∧ b'.size = b.size ∧
      b'.slice 0 (total * 18) = encodedFrames rnd (frames tmp total) := by
  rw [encodedFrames_frames, show total * 18 = total * 6 * 3 by ring]
  refine loop_spec _ (fun f (u : Region Byte) => u.size = b.size ∧
    u.slice 0 (f * 6 * 3) = (List.range (f * 6)).flatMap fun k => s24Bytes rnd (tmp.get k)) total
    ⟨rfl, by simp [Region.slice]⟩ ?_
  rintro f u hf ⟨hus, hub⟩
  rw [show (f + 1) * 6 = f * 6 + djmt1Ch by simp only [djmt1Ch]; ring]
  refine loop_spec _ (fun c (v : Region Byte) => v.size = b.size ∧ v.slice 0 ((f * 6 + c) * 3) =
    (List.range (f * 6 + c)).flatMap fun k => s24Bytes rnd (tmp.get k)) djmt1Ch ⟨hus, hub⟩ ?_
  rintro c v hc ⟨hvs, hvb⟩
  simp only [djmt1Ch] at hc
  obtain ⟨v', hv', hsize, hslice⟩ := encode_sample (f := f) (c := c)
    (show f * 6 + c < tmp.size by omega) (show (f * 6 + c) * 3 + 3 ≤ v.size by omega)
  refine ⟨v', hv', hsize.trans hvs, ?_⟩
  rw [← Nat.add_assoc, hslice, hvb, List.range_succ, List.flatMap_append]
  simp

end DjmT1.Audio
