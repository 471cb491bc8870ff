import DjmT1.Lib.CInt
import DjmT1.Lib.Loop
import DjmT1.Lib.Region

/-!
# `djmt1_transfer`

The kernel driver moves frames between the packets of a URB and the PCM ring with
`djmt1_transfer` (kernel/djmt1_audio.c:82-105), which also keeps the position in
the ring and says when a period has elapsed.

* `HwParams`: the buffer and period sizes that `djmt1_hw` admits.
* `djmt1Transfer_rule`: what each turn of the copy loop keeps up holds after it.
* `djmt1Transfer_spec`: on a packet of at most 48 frames the function is defined,
  advances both positions modulo their sizes, and reports a period exactly when
  the packet completes one.
-/

namespace DjmT1.Kernel

open DjmT1.Lib

/-- `PKT_BYTES` (kernel/djmt1_audio.c:37). -/
abbrev pktBytes : ℕ := 864

/-- `FRAME_BYTES` (line 38). -/
abbrev frameBytes : ℕ := 18

/-- `FRAMES_PER_PKT` (line 39). -/
abbrev framesPerPkt : ℕ := pktBytes / frameBytes

/-- `NPKT` (line 42). -/
abbrev npkt : ℕ := 8

/-- `NURB` (line 43). -/
abbrev nurb : ℕ := 4

instance : NeZero nurb := ⟨by decide⟩

/-- `URB_BYTES` (line 44). -/
abbrev urbBytes : ℕ := pktBytes * npkt

/-- The size limits of `struct snd_pcm_hardware`. -/
structure PcmHardware where
  bufferBytesMax : ℕ
  periodBytesMin : ℕ
  periodBytesMax : ℕ
  periodsMin : ℕ
  periodsMax : ℕ

/-- The size limits of `djmt1_hw` (lines 71-74). -/
def djmt1Hw : PcmHardware where
  bufferBytesMax := 256 * 1024
  periodBytesMin := frameBytes * framesPerPkt
  periodBytesMax := 64 * 1024
  periodsMin := 2
  periodsMax := 1024

/-- A buffer and a period size, in frames, that `djmt1_hw` admits. -/
structure HwParams where
  bufferSize : ℕ
  periodSize : ℕ
  bufferMax : bufferSize * frameBytes ≤ djmt1Hw.bufferBytesMax
  periodMin : djmt1Hw.periodBytesMin ≤ periodSize * frameBytes
  periodMax : periodSize * frameBytes ≤ djmt1Hw.periodBytesMax
  periodsMin : djmt1Hw.periodsMin * periodSize ≤ bufferSize
  periodsMax : bufferSize ≤ djmt1Hw.periodsMax * periodSize

theorem HwParams.period_ge (hw : HwParams) : 48 ≤ hw.periodSize := by
  have := hw.periodMin
  simp only [djmt1Hw, frameBytes, framesPerPkt, pktBytes] at this
  omega

theorem HwParams.buffer_ge (hw : HwParams) : 2 * hw.periodSize ≤ hw.bufferSize := hw.periodsMin

theorem HwParams.buffer_le (hw : HwParams) : hw.bufferSize < 2 ^ 14 := by
  have := hw.bufferMax
  simp only [djmt1Hw, frameBytes] at this
  omega

/-! ## The function -/

/-- What `djmt1_transfer` advances: the position in the ring, the position in the
    period, and the ring memory `dma_area`. -/
structure Pcm where
  hwptr : ℕ
  periodPos : ℕ
  dma : Region Byte

/-- The body of the copy loop (lines 91-97), on ring memory and URB buffer. `pkt` is
    the offset of the packet in the buffer. -/
def copyFrame (capture : Bool) (off pkt i : ℕ) (m : Region Byte × Region Byte) :
    Option (Region Byte × Region Byte) :=
  if capture then do
    let dma ← m.1.memcpy (u32 (off * frameBytes)) m.2 (pkt + u32 (i * frameBytes) : ℕ) frameBytes
    return (dma, m.2)
  else do
    let buf ← m.2.memcpy (pkt + u32 (i * frameBytes) : ℕ) m.1 (u32 (off * frameBytes)) frameBytes
    return (m.1, buf)

/-- `djmt1_transfer` (lines 82-105): the stream and the URB buffer afterwards, and
    whether `snd_pcm_period_elapsed` is called, which is its last action. -/
def djmt1Transfer (hw : HwParams) (capture : Bool) (s : Pcm) (buf : Region Byte) (pkt nframes : ℕ) :
    Option (Pcm × Region Byte × Bool) := do
  let bufFrames := u32 hw.bufferSize
  let (dma, buf) ← (List.range nframes).foldlM (fun m (i : ℕ) => do
    let off ← umod (u32 (s.hwptr + i)) bufFrames
    copyFrame capture off pkt i m) (s.dma, buf)
  let hwptr ← umod (u32 (s.hwptr + nframes)) bufFrames
  let periodPos := u32 (s.periodPos + nframes)
  if periodPos ≥ hw.periodSize then do
    let periodPos ← umod periodPos hw.periodSize
    return (⟨hwptr, periodPos, dma⟩, buf, true)
  else return (⟨hwptr, periodPos, dma⟩, buf, false)

/-! ## What it does -/

/-- The positions are in the ring and in the period, and the ring has its size. -/
structure PcmOk (hw : HwParams) (s : Pcm) : Prop where
  hwptr : s.hwptr < hw.bufferSize
  periodPos : s.periodPos < hw.periodSize
  dma : s.dma.size = hw.bufferSize * frameBytes

/-- A turn of the copy loop, from memories `m` to `m'`: on capture ring frame `k` is
    copied from frame `q` of the URB buffer, on playback the other way. -/
def FrameCopied (capture : Bool) (k q : ℕ) (m m' : Region Byte × Region Byte) : Prop :=
  if capture then
    m'.2 = m.2 ∧ m'.1.block frameBytes k = m.2.block frameBytes q ∧
      ∀ j, j ≠ k → m'.1.block frameBytes j = m.1.block frameBytes j
  else
    m'.1 = m.1 ∧ m'.2.block frameBytes q = m.1.block frameBytes k ∧
      ∀ j, j ≠ q → m'.2.block frameBytes j = m.2.block frameBytes j

/-- One frame of the copy loop, into or out of slot `(hwptr + i) % B`. -/
theorem copyFrame_spec (hw : HwParams) {m : Region Byte × Region Byte} (capture : Bool) {k p i : ℕ}
    (hk : k < hw.bufferSize) (hdma : m.1.size = hw.bufferSize * frameBytes)
    (hi : i < 48) (hbuf : (p + i + 1) * frameBytes ≤ m.2.size) :
    ∃ m', copyFrame capture k (p * frameBytes) i m = some m' ∧ m'.1.size = m.1.size ∧
      m'.2.size = m.2.size ∧ FrameCopied capture k (p + i) m m' := by
  have hB := hw.buffer_le
  have hfits : k * frameBytes + frameBytes ≤ m.1.size := hdma ▸ Region.block_fits hk
  have hoff : u32 (k * frameBytes) = k * frameBytes := u32_eq (by simp only [frameBytes]; omega)
  have hpkt : p * frameBytes + u32 (i * frameBytes) = (p + i) * frameBytes := by
    rw [u32_eq (by simp only [frameBytes]; omega), Nat.add_mul]
  have hpfits : (p + i) * frameBytes + frameBytes ≤ m.2.size := by
    rwa [← Nat.succ_mul]
  cases capture with
  | true =>
    obtain ⟨d, hd⟩ : ∃ d, m.1.memcpy (k * frameBytes : ℕ) m.2 ((p + i) * frameBytes : ℕ)
      frameBytes = some d := ⟨_, Region.memcpy_eq hfits hpfits⟩
    refine ⟨(d, m.2), ?_, Region.size_of_memcpy hd, rfl, ?_⟩
    · simp only [copyFrame, hoff, hpkt, if_true]
      rw [hd]
      rfl
    · exact ⟨rfl, Region.block_memcpy_self hd, fun j hj => Region.block_memcpy_ne hd hj⟩
  | false =>
    obtain ⟨b, hb⟩ : ∃ b, m.2.memcpy ((p + i) * frameBytes : ℕ) m.1 (k * frameBytes : ℕ)
      frameBytes = some b := ⟨_, Region.memcpy_eq hpfits hfits⟩
    refine ⟨(m.1, b), ?_, rfl, Region.size_of_memcpy hb, ?_⟩
    · simp only [copyFrame, hoff, hpkt, if_false, Bool.false_eq_true]
      rw [hb]
      rfl
    · exact ⟨rfl, Region.block_memcpy_self hb, fun j hj => Region.block_memcpy_ne hb hj⟩

/-- The rule for `djmt1_transfer` on `n ≤ 48` frames, from frame `p` of the buffer on: it
    advances the positions, and what each turn of its copy loop keeps up holds of the two
    memories afterwards. -/
theorem djmt1Transfer_rule {hw : HwParams} {s : Pcm} {buf : Region Byte} (capture : Bool)
    {p n : ℕ} (hs : PcmOk hw s) (hn : n ≤ 48) (hbuf : (p + n) * frameBytes ≤ buf.size)
    (I : ℕ → Region Byte × Region Byte → Prop) (h0 : I 0 (s.dma, buf))
    (hI : ∀ i < n, ∀ m m', I i m →
      FrameCopied capture ((s.hwptr + i) % hw.bufferSize) (p + i) m m' → I (i + 1) m') :
    ∃ m, djmt1Transfer hw capture s buf (p * frameBytes) n =
      some (⟨(s.hwptr + n) % hw.bufferSize, (s.periodPos + n) % hw.periodSize, m.1⟩, m.2,
        decide (hw.periodSize ≤ s.periodPos + n)) ∧
      m.1.size = s.dma.size ∧ m.2.size = buf.size ∧ I n m := by
  have hP := hw.period_ge
  have hPB := hw.buffer_ge
  have hB := hw.buffer_le
  have hh := hs.hwptr
  have hp := hs.periodPos
  have hloop : ∃ m, (List.range n).foldlM (fun m (i : ℕ) => do
      let off ← umod (u32 (s.hwptr + i)) (u32 hw.bufferSize)
      copyFrame capture off (p * frameBytes) i m) (s.dma, buf) = some m ∧
      m.1.size = s.dma.size ∧ m.2.size = buf.size ∧ I n m := by
    refine loop_spec _ (fun i (m : Region Byte × Region Byte) =>
      m.1.size = s.dma.size ∧ m.2.size = buf.size ∧ I i m) n ⟨rfl, rfl, h0⟩ ?_
    rintro i m hi ⟨hd, hb, hIm⟩
    have hfit : (p + i + 1) * frameBytes ≤ m.2.size :=
      (Nat.mul_le_mul_right frameBytes (by omega)).trans (hbuf.trans hb.ge)
    obtain ⟨m', hm', hd', hb', hcopied⟩ := copyFrame_spec hw capture
      (Nat.mod_lt (s.hwptr + i) (by omega)) (hd.trans hs.dma) (show i < 48 by omega) hfit
    refine ⟨m', ?_, hd'.trans hd, hb'.trans hb, hI i hi m m' hIm hcopied⟩
    rw [u32_eq (by omega), u32_eq (by omega), umod_eq (by omega), Option.bind_eq_bind,
      Option.bind_some, hm']
  obtain ⟨m, hm, hrest⟩ := hloop
  refine ⟨m, ?_, hrest⟩
  simp only [djmt1Transfer, Option.bind_eq_bind, Option.pure_def] at hm ⊢
  rw [hm, Option.bind_some, u32_eq (by omega), u32_eq (by omega), umod_eq (by omega),
    Option.bind_some, u32_eq (by omega)]
  by_cases hge : hw.periodSize ≤ s.periodPos + n
  · rw [if_pos hge, umod_eq (by omega), Option.bind_some, decide_eq_true hge]
  · rw [if_neg hge, decide_eq_false hge, Nat.mod_eq_of_lt (a := s.periodPos + n) (by omega)]

/-- Frames `p .. p+n` of the URB buffer after a transfer from ring position `h`:
    on playback they are the ring frames from `h` on and nothing else changes; on
    capture the buffer does not change. -/
def Copied (hw : HwParams) (capture : Bool) (h p n : ℕ) (dma buf dma' buf' : Region Byte) : Prop :=
  dma'.size = dma.size ∧ buf'.size = buf.size ∧
  if capture then buf' = buf
  else dma' = dma ∧
    (∀ i < n, buf'.block frameBytes (p + i) = dma.block frameBytes ((h + i) % hw.bufferSize)) ∧
    ∀ j, ¬ (p ≤ j ∧ j < p + n) → buf'.block frameBytes j = buf.block frameBytes j

/-- `djmt1_transfer` on `n ≤ 48` frames, from frame `p` of the buffer on. -/
theorem djmt1Transfer_spec {hw : HwParams} {s : Pcm} {buf : Region Byte} (capture : Bool) {p n : ℕ}
    (hs : PcmOk hw s) (hn : n ≤ 48) (hbuf : (p + n) * frameBytes ≤ buf.size) :
    ∃ dma' buf', djmt1Transfer hw capture s buf (p * frameBytes) n =
      some (⟨(s.hwptr + n) % hw.bufferSize, (s.periodPos + n) % hw.periodSize, dma'⟩, buf',
        decide (hw.periodSize ≤ s.periodPos + n)) ∧
      Copied hw capture s.hwptr p n s.dma buf dma' buf' := by
  cases capture with
  | true =>
    obtain ⟨m, htr, hd, hb, hm⟩ := djmt1Transfer_rule true hs hn hbuf (fun _ m => m.2 = buf) rfl
      (fun i _ m m' hm hcopied => hcopied.1.trans hm)
    exact ⟨m.1, m.2, htr, hd, hb, hm⟩
  | false =>
    obtain ⟨m, htr, hd, hb, hm⟩ := djmt1Transfer_rule false hs hn hbuf
      (fun n m => m.1 = s.dma ∧
        (∀ i < n, m.2.block frameBytes (p + i) =
          s.dma.block frameBytes ((s.hwptr + i) % hw.bufferSize)) ∧
        ∀ j, ¬ (p ≤ j ∧ j < p + n) → m.2.block frameBytes j = buf.block frameBytes j)
      ⟨rfl, fun i hi => absurd hi (Nat.not_lt_zero i), fun j _ => rfl⟩ (by
        rintro i hi m m' ⟨hdma, hself, hrest⟩ ⟨hdma', hself', hne⟩
        refine ⟨hdma'.trans hdma, ?_, ?_⟩
        · intro j hj
          rcases Nat.lt_succ_iff_lt_or_eq.mp hj with hji | rfl
          · rw [hne (p + j) (by omega)]
            exact hself j hji
          · rw [hself', hdma]
        · intro j hj
          rw [hne j (by omega)]
          exact hrest j (by omega))
    exact ⟨m.1, m.2, htr, hd, hb, hm⟩

end DjmT1.Kernel
