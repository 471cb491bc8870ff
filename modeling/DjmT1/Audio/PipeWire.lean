import DjmT1.Audio.EngineInv
import DjmT1.Audio.RingFifo

/-!
# The PipeWire callbacks

`on_source_process` and `on_sink_process` (audio/djmt1-pipewire.c:29-60, and
midi/djm_full.c:184-209, the same) move audio between the rings of the engine and the
buffers of a PipeWire stream.

* `on_source_process_overdrawn`: a request that is negative once it is narrowed to an
  `int` gets past the clamp.
* `on_source_process_serves`: every other request is served from the ring, padded with
  silence, inside the buffer, and no request of that kind is.
* `on_sink_process_rotates`: a buffer whose audio does not start at its beginning.
* `on_sink_process_appends`: the frames appended are those at the beginning of the buffer,
  so they are the valid ones exactly if these are the same.
-/

namespace DjmT1.Audio

open DjmT1.Lib

/-- `FRAME` (line 29): the bytes of a frame of six `float`s. -/
abbrev frame : ℕ := 4 * djmt1Ch

/-- `struct spa_chunk`: the valid part of a buffer. -/
structure SpaChunk where
  offset : BitVec 32
  size : BitVec 32
  stride : ℤ

/-- `struct spa_data`, its memory seen as an array of `β`. -/
structure SpaData (β : Type) where
  data : Option (Region β)
  maxsize : BitVec 32
  chunk : SpaChunk

/-- `struct pw_buffer` and the one `spa_data` used, `b->buffer->datas[0]`. -/
structure PwBuffer (β : Type) where
  requested : BitVec 64
  datas0 : SpaData β

/-! ## The source -/

/-- `want` (lines 38-40). The conversion of a `uint64_t` to an `int` keeps the low 32
    bits. -/
def sourceWant (requested : BitVec 64) (maxsize : BitVec 32) : ℤ :=
  let maxframes : ℤ := (maxsize.toNat / frame : ℕ)
  let want := if requested ≠ 0 then (requested.setWidth 32).toInt else maxframes
  if want > maxframes then maxframes else want

/-- `on_source_process` (lines 31-48) on the capture ring and a dequeued buffer: the ring
    afterwards and the buffer that is queued. -/
def onSourceProcess (R : Ring ℚ) (b : PwBuffer ℚ) : Option (Ring ℚ × PwBuffer ℚ) :=
  match b.datas0.data with
  | none => some (R, b)
  | some dst => do
    let want := sourceWant b.requested b.datas0.maxsize
    let (R, dst, got) ← ringRead R dst want
    let dst ← padFrames dst got want
    let chunk := { offset := 0, size := BitVec.ofInt 32 (want * frame), stride := frame }
    return (R, { b with datas0 := { b.datas0 with data := some dst, chunk } })

/-- The memory of a buffer: `maxsize` bytes, in whole `float`s. -/
def Mapped (b : PwBuffer ℚ) (dst : Region ℚ) : Prop :=
  b.datas0.data = some dst ∧ dst.size = b.datas0.maxsize.toNat / 4

/-- A buffer is served from a ring that holds `q`: it is published as `want` frames, which
    fit, the oldest frames of the ring and then silence; nothing behind them is written,
    and the ring keeps the other frames. -/
structure Served (R : Ring ℚ) (q : List (List ℚ)) (b : PwBuffer ℚ) (dst : Region ℚ)
    (want : ℤ) : Prop where
  want_nonneg : 0 ≤ want
  want_le : want ≤ (b.datas0.maxsize.toNat / 24 : ℕ)
  runs : ∃ R' b' dst', onSourceProcess R b = some (R', b') ∧ Mapped b' dst' ∧
    (b'.datas0.chunk.size.toNat : ℤ) = 24 * want ∧
    frames dst' want.toNat = q.take (min want.toNat q.length) ++
      List.replicate (want.toNat - min want.toNat q.length) (List.replicate djmt1Ch 0) ∧
    (∀ j : ℕ, want * 6 ≤ j → dst'.get j = dst.get j) ∧
    RingInv R' (q.drop (min want.toNat q.length)) ∧ R'.cap = R.cap

/-- What is negative after narrowing stays negative. -/
theorem sourceWant_nonneg_iff (requested : BitVec 64) (maxsize : BitVec 32) :
    0 ≤ sourceWant requested maxsize ↔ requested.toNat % 2 ^ 32 < 2 ^ 31 := by
  have hint : (requested.setWidth 32).toInt = if requested.toNat % 2 ^ 32 < 2 ^ 31
      then ((requested.toNat % 2 ^ 32 : ℕ) : ℤ) else (requested.toNat % 2 ^ 32 : ℕ) - 2 ^ 32 := by
    rw [BitVec.toInt_eq_toNat_cond, BitVec.toNat_setWidth]
    split_ifs <;> omega
  simp only [sourceWant, frame, djmt1Ch]
  by_cases h0 : requested = 0
  · subst h0
    rw [if_neg (not_not.mpr rfl), if_neg (lt_irrefl _)]
    exact iff_of_true (Int.natCast_nonneg _) (by decide)
  · rw [if_pos h0, hint]
    split_ifs <;> omega

theorem sourceWant_le (requested : BitVec 64) (maxsize : BitVec 32) :
    sourceWant requested maxsize ≤ (maxsize.toNat / 24 : ℕ) := by
  simp only [sourceWant, frame, djmt1Ch]
  split_ifs <;> omega

/-- A fill behind the frames read, and nothing behind it. -/
theorem padFrames_rest {tmp tmp' : Region ℚ} {got total : ℤ}
    (h : padFrames tmp got total = some tmp') :
    tmp'.size = tmp.size ∧ ∀ j : ℕ, total * 6 ≤ j → tmp'.get j = tmp.get j := by
  unfold padFrames at h
  split_ifs at h with hlt
  · refine ⟨?_, fun j hj => Region.get_of_memset h ?_⟩
    · unfold Region.memset at h
      split_ifs at h
      cases h
      rfl
    · simp only [djmt1Ch]
      push_cast
      omega
  · obtain rfl := Option.some.inj h
    exact ⟨rfl, fun _ _ => rfl⟩

/-- The conversion of line 45 keeps the size of frames that fit in the buffer. -/
theorem published_size {n : ℕ} (h : n * 24 < 2 ^ 32) :
    ((BitVec.ofInt 32 ((n : ℤ) * frame)).toNat : ℤ) = 24 * n := by
  have hmod : ((n : ℤ) * frame) % (2 ^ 32 : ℕ) = n * 24 := by
    rw [show (frame : ℤ) = 24 by decide]
    exact Int.emod_eq_of_lt (by positivity) (by exact_mod_cast h)
  rw [BitVec.toNat_ofInt, hmod, Int.toNat_of_nonneg (by positivity), mul_comm]

/-- A request that is not negative is served. -/
theorem onSourceProcess_spec {R : Ring ℚ} {q : List (List ℚ)} {b : PwBuffer ℚ} {dst : Region ℚ}
    (h : RingInv R q) (hb : Mapped b dst)
    (hwant : 0 ≤ sourceWant b.requested b.datas0.maxsize) :
    Served R q b dst (sourceWant b.requested b.datas0.maxsize) := by
  obtain ⟨hdata, hsize⟩ := hb
  have hle := sourceWant_le b.requested b.datas0.maxsize
  obtain ⟨n, hn⟩ := Int.eq_ofNat_of_zero_le hwant
  have hmax := b.datas0.maxsize.isLt
  rw [hn] at hle
  have hcall : CallOk dst n := by
    unfold CallOk
    omega
  obtain ⟨R', dst₁, hread, hinv, hframes, hcap⟩ := ringRead_spec h hcall
  obtain ⟨hsize₁, hrest₁⟩ := ringRead_rest hread
  have hmin : min (n : ℤ) q.length = (min n q.length : ℕ) := by omega
  rw [hmin] at hread
  rw [Int.toNat_natCast] at hinv hframes
  obtain ⟨dst₂, hpad, hsize₂, hpadded⟩ := padFrames_spec (min_le_left n q.length)
    (show n * 6 ≤ dst₁.size by omega)
  obtain ⟨_, hrest₂⟩ := padFrames_rest hpad
  rw [hn]
  refine ⟨Int.natCast_nonneg n, hle, R', { b with datas0 := { b.datas0 with
    data := some dst₂, chunk := ⟨0, BitVec.ofInt 32 (n * frame), frame⟩ } }, dst₂, ?_, ⟨rfl, ?_⟩,
    ?_, ?_, ?_, ?_, hcap⟩
  · simp only [onSourceProcess, hdata, hn, hread, hpad, Option.bind_eq_bind, Option.bind_some,
      Option.pure_def]
  · rw [hsize₂, hsize₁, hsize]
  · exact published_size (by omega)
  · have hgot : frames dst₁ (min n q.length) = q.take (min n q.length) := by
      rw [min_comm, ← take_frames, hframes, List.take_append, List.take_take]
      rcases Nat.le_total n q.length with hle | hle
      · rw [List.drop_eq_nil_of_le (by rwa [length_frames]), List.take_nil, List.append_nil]
      · rw [List.take_of_length_le hle, Nat.sub_self, List.take_zero, List.append_nil,
          min_eq_left hle, List.take_length]
    rw [Int.toNat_natCast, hpadded, hgot]
  · intro j hj
    rw [hrest₂ j hj, hrest₁ j hj]
  · rw [Int.toNat_natCast]
    rcases Nat.le_total n q.length with hle | hle
    · rwa [min_eq_left hle]
    · rwa [min_eq_right hle, List.drop_length, ← List.drop_eq_nil_of_le hle]

/-- A ring of four frames, as `ring_init` sets it up. -/
def ringOfFour : Ring ℚ := ⟨some (Region.fill 30 0), 5, 0, 0⟩

theorem ringInit_four : ringInit 0 true 4 = some (ringOfFour, 0) := rfl

theorem ringOfFour_inv : RingInv ringOfFour [] := by
  obtain ⟨R, hinit, hempty⟩ := ringInit_empty (0 : ℚ) (show (0 : ℤ) ≤ 4 by decide) (by decide)
  rw [ringInit_four] at hinit
  rw [(Prod.mk.inj (Option.some.inj hinit)).1]
  exact hempty.inv (by decide)

/-- A buffer of 100 frames of which `requested` are asked for. -/
def hundredFrames (requested : BitVec 64) : PwBuffer ℚ :=
  ⟨requested, ⟨some (Region.fill 600 0), 2400, ⟨0, 0, 0⟩⟩⟩

/-- What becomes of a request of `2^32 - 1` frames: it is narrowed to `-1`. -/
theorem onSourceProcess_overdrawn : onSourceProcess ringOfFour (hundredFrames 0xFFFFFFFF) =
    some ({ ringOfFour with r := -1 },
      ⟨0xFFFFFFFF, ⟨some (Region.fill 600 0), 2400, ⟨0, 4294967272, 24⟩⟩⟩) := rfl

/-- The read index leaves the ring, and the size published is far behind the end of the
    buffer. -/
theorem on_source_process_overdrawn : RingInv ringOfFour [] ∧
    Mapped (hundredFrames 0xFFFFFFFF) (Region.fill 600 0) ∧
    (∃ R' b', onSourceProcess ringOfFour (hundredFrames 0xFFFFFFFF) = some (R', b') ∧
      R'.r = -1 ∧ b'.datas0.chunk.size = 4294967272) ∧
    ∀ want, ¬ Served ringOfFour [] (hundredFrames 0xFFFFFFFF) (Region.fill 600 0) want := by
  refine ⟨ringOfFour_inv, ⟨rfl, rfl⟩, ⟨_, _, onSourceProcess_overdrawn, rfl, rfl⟩, ?_⟩
  intro want hserved
  obtain ⟨R', b', _, hrun, _, hsize, _⟩ := hserved.runs
  rw [onSourceProcess_overdrawn] at hrun
  obtain ⟨_, rfl⟩ := Prod.mk.inj (Option.some.inj hrun)
  have hle : want ≤ 100 := hserved.want_le
  have hvalue : (4294967272 : ℤ) = 24 * want := hsize
  omega

/-- **Source callback.** A buffer is served, exactly if the low 32 bits of the request are
    not those of a negative `int`. -/
theorem on_source_process_serves {R : Ring ℚ} {q : List (List ℚ)} {b : PwBuffer ℚ}
    {dst : Region ℚ} (h : RingInv R q) (hb : Mapped b dst) :
    Served R q b dst (sourceWant b.requested b.datas0.maxsize) ↔
      b.requested.toNat % 2 ^ 32 < 2 ^ 31 := by
  rw [← sourceWant_nonneg_iff b.requested b.datas0.maxsize]
  exact ⟨fun hserved => hserved.want_nonneg, onSourceProcess_spec h hb⟩

/-- A ring of four frames that holds two frames of ones, in its last two slots. -/
def ringOfOnes : Ring ℚ := ⟨some (Region.fill 30 1), 5, 0, 3⟩

theorem ringOfOnes_inv : RingInv ringOfOnes (List.replicate 2 (List.replicate 6 1)) := by
  refine ⟨⟨⟨_, rfl, rfl⟩, by decide, ⟨le_rfl, by decide⟩, ⟨by decide, by decide⟩⟩, rfl, ?_⟩
  intro k hk
  rw [List.getElem_replicate]
  refine List.eq_replicate_iff.mpr ⟨rfl, fun x hx => ?_⟩
  obtain ⟨j, _, rfl⟩ := List.mem_map.mp hx
  rfl

/-- Three frames are asked for of which the ring has two. -/
theorem on_source_process_serves_three :
    Served ringOfOnes (List.replicate 2 (List.replicate 6 1)) (hundredFrames 3)
      (Region.fill 600 0) 3 ↔ 3 % 2 ^ 32 < 2 ^ 31 :=
  on_source_process_serves (b := hundredFrames 3) ringOfOnes_inv ⟨rfl, rfl⟩

/-! ## The sink -/

section Sink

variable {α : Type} (toFloat : Byte → Byte → Byte → Byte → α) {R : Ring α} {q : List (List α)}
  {b : PwBuffer Byte} {data : Region Byte}

/-- Memory seen as an array of `float`s, each of them what `toFloat` makes of four bytes. -/
def floats (m : Region Byte) : Region α where
  size := m.size / 4
  get i := toFloat (m.get (4 * i)) (m.get (4 * i + 1)) (m.get (4 * i + 2)) (m.get (4 * i + 3))

/-- `on_sink_process` (lines 50-60) on the playback ring and a dequeued buffer, which is
    queued as it is. -/
def onSinkProcess (R : Ring α) (b : PwBuffer Byte) : Option (Ring α) :=
  match b.datas0.data with
  | none => some R
  | some data =>
    if b.datas0.chunk.size ≠ 0 then do
      let nframes := b.datas0.chunk.size.toNat / frame
      let (R, _) ← ringWrite R (floats toFloat data) nframes
      return R
    else some R

/-- The valid bytes of a buffer: `chunk->size` of them from `chunk->offset` on. -/
def validAudio (b : PwBuffer Byte) (data : Region Byte) : Region Byte where
  size := b.datas0.chunk.size.toNat
  get i := data.get (b.datas0.chunk.offset.toNat + i)

/-- What PipeWire promises of a buffer: `maxsize` bytes of memory, in which the valid ones
    lie. -/
structure ValidBuffer (b : PwBuffer Byte) (data : Region Byte) : Prop where
  mapped : b.datas0.data = some data
  size : data.size = b.datas0.maxsize.toNat
  inside : b.datas0.chunk.offset.toNat + b.datas0.chunk.size.toNat ≤ b.datas0.maxsize.toNat

/-- The whole frames of a buffer that fit in the ring. -/
def accepted (R : Ring α) (q : List (List α)) (b : PwBuffer Byte) : ℕ :=
  min (b.datas0.chunk.size.toNat / 24) (R.cap - 1 - q.length).toNat

/-- A buffer is appended to a ring that holds `q`: the first frames of its valid audio, as
    many as fit, and nothing else. -/
def Appended (R : Ring α) (q : List (List α)) (b : PwBuffer Byte) (data : Region Byte) : Prop :=
  ∃ R', onSinkProcess toFloat R b = some R' ∧ R'.cap = R.cap ∧
    RingInv R' (q ++ frames (floats toFloat (validAudio b data)) (accepted R q b))

/-- The frames appended are those at the beginning of the memory. -/
theorem onSinkProcess_spec (h : RingInv R q) (hb : ValidBuffer b data) :
    ∃ R', onSinkProcess toFloat R b = some R' ∧ R'.cap = R.cap ∧
      RingInv R' (q ++ frames (floats toFloat data) (accepted R q b)) := by
  obtain ⟨hdata, hsize, hinside⟩ := hb
  have hlt := b.datas0.chunk.size.isLt
  by_cases h0 : b.datas0.chunk.size = 0
  · refine ⟨R, by simp only [onSinkProcess, hdata, h0, ne_eq, not_true, if_false], rfl, ?_⟩
    rw [accepted, h0]
    simpa [frames] using h
  · have hcall : CallOk (floats toFloat data) (b.datas0.chunk.size.toNat / frame : ℕ) := by
      simp only [CallOk, floats, frame, djmt1Ch, hsize]
      omega
    obtain ⟨R', hwrite, hinv, hcap⟩ := ringWrite_spec h hcall
    have hspace : (q.length : ℤ) < R.cap := by
      rw [h.length]
      exact h.used_lt
    have hmin : (min ((b.datas0.chunk.size.toNat / frame : ℕ) : ℤ)
        (R.cap - 1 - q.length)).toNat = accepted R q b := by
      simp only [accepted, frame, djmt1Ch]
      omega
    rw [hmin] at hinv
    refine ⟨R', ?_, hcap, hinv⟩
    simp only [onSinkProcess, hdata, if_pos h0, hwrite, Option.bind_eq_bind, Option.bind_some,
      Option.pure_def]

/-- They are the valid ones, exactly if they are the same. -/
theorem appended_iff (h : RingInv R q) (hb : ValidBuffer b data) :
    Appended toFloat R q b data ↔ frames (floats toFloat data) (accepted R q b) =
      frames (floats toFloat (validAudio b data)) (accepted R q b) := by
  obtain ⟨R', hrun, hcap, hinv⟩ := onSinkProcess_spec toFloat h hb
  constructor
  · rintro ⟨R'', hrun', _, hinv'⟩
    obtain rfl := Option.some.inj (hrun.symm.trans hrun')
    exact List.append_cancel_left (hinv.unique hinv')
  · intro heq
    exact ⟨R', hrun, hcap, heq ▸ hinv⟩

/-- Audio from the beginning of a buffer on is appended. -/
theorem appended_of_offset_zero (h : RingInv R q) (hb : ValidBuffer b data)
    (h0 : b.datas0.chunk.offset = 0) : Appended toFloat R q b data := by
  rw [appended_iff toFloat h hb]
  have hget : (floats toFloat data).get = (floats toFloat (validAudio b data)).get := by
    funext i
    simp [floats, validAudio, h0]
  exact List.map_congr_left fun k _ => Region.slice_congr fun j _ _ => congrFun hget j

end Sink

/-- The bit pattern of a `float`. -/
def floatBits (b0 b1 b2 b3 : Byte) : BitVec 32 := b3 ++ b2 ++ b1 ++ b0

/-- A buffer whose memory is a frame of zeros and a frame of ones. -/
def twoFrames : Region Byte := Region.ofList (List.replicate 24 0 ++ List.replicate 24 1) 0

/-- Its valid audio is the frame at `offset`. -/
def oneValid (offset : BitVec 32) : PwBuffer Byte :=
  ⟨0, ⟨some twoFrames, 48, ⟨offset, 24, 24⟩⟩⟩

/-- An empty ring of four frames of bit patterns. -/
def bitsRing : Ring (BitVec 32) := ⟨some (Region.fill 30 0), 5, 0, 0⟩

theorem bitsRing_inv : RingInv bitsRing [] := by
  have hempty : EmptyRing 5 bitsRing := ⟨rfl, ⟨_, rfl, rfl⟩, rfl, ⟨le_rfl, by decide⟩⟩
  exact hempty.inv (by decide)

/-- The valid audio is the second frame, and the first one is appended. -/
theorem on_sink_process_rotates : RingInv bitsRing [] ∧ ValidBuffer (oneValid 24) twoFrames ∧
    ¬ Appended floatBits bitsRing [] (oneValid 24) twoFrames := by
  have hb : ValidBuffer (oneValid 24) twoFrames := ⟨rfl, rfl, by decide⟩
  refine ⟨bitsRing_inv, hb, ?_⟩
  rw [appended_iff floatBits bitsRing_inv hb]
  decide

/-- **Sink callback.** The first frames of the valid audio are appended, as many as fit,
    exactly if the same number of frames at the beginning of the memory are equal to them;
    so it is whenever the valid audio begins there. -/
theorem on_sink_process_appends {α : Type} (toFloat : Byte → Byte → Byte → Byte → α)
    {R : Ring α} {q : List (List α)} {b : PwBuffer Byte} {data : Region Byte} (h : RingInv R q)
    (hb : ValidBuffer b data) :
    (Appended toFloat R q b data ↔ frames (floats toFloat data) (accepted R q b) =
      frames (floats toFloat (validAudio b data)) (accepted R q b)) ∧
    (b.datas0.chunk.offset = 0 → Appended toFloat R q b data) :=
  ⟨appended_iff toFloat h hb, appended_of_offset_zero toFloat h hb⟩

theorem on_sink_process_appends_oneValid :
    (Appended floatBits bitsRing [] (oneValid 0) twoFrames ↔
      frames (floats floatBits twoFrames) (accepted bitsRing [] (oneValid 0)) =
        frames (floats floatBits (validAudio (oneValid 0) twoFrames))
          (accepted bitsRing [] (oneValid 0))) ∧
    ((oneValid 0).datas0.chunk.offset = 0 →
      Appended floatBits bitsRing [] (oneValid 0) twoFrames) :=
  on_sink_process_appends floatBits bitsRing_inv ⟨rfl, rfl, by decide⟩

end DjmT1.Audio
