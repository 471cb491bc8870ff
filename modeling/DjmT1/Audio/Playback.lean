import DjmT1.Audio.CaptureRun
import DjmT1.Audio.Encoder

/-!
# A run of `djmt1-playback`

The program (audio/djmt1-playback.c) streams a sine tone through `NXFR` transfers of
`NPKT` packets. `fill_tone` writes the next samples of the tone to the buffer of a
transfer, at the start and whenever the transfer has come back. A `double` is the rational
number it stands for; the tone says how the results of its arithmetic are rounded, and what
the sine is.

* `fillTone_spec`: `fill_tone` writes the frames of the tone from the present phase on.
* `phaseFrom_eq`: without rounding, frame `k` of the tone has the phase `k` times the step,
  up to whole turns.
* `tone_continuous`: the transfers that are submitted carry the tone without a gap or a
  repetition, except that one which is refused takes its part of the tone with it.
* `programs_end`: `djmt1-capture` and `djmt1-playback` give the device back with no
  transfer in flight.
-/

namespace DjmT1.Audio

open DjmT1.Lib

/-- `M_PI`. -/
def mPi : ℚ := 884279719003555 / 281474976710656

/-- `SR` (line 32). -/
def sampleRate : ℚ := 48000

/-- `PKT` (line 22). -/
abbrev tonePkt : ℕ := 864

/-- `FRAMES_PER_PKT` (line 23). -/
abbrev toneFrames : ℕ := tonePkt / (6 * 3)

/-- `NPKT` (line 24). -/
abbrev toneNpkt : ℕ := 32

/-- `NXFR` (line 25). -/
abbrev toneXfrs : ℕ := 8

/-- `freq` and `amp` (line 31), the sine, and the rounding of sums, products and quotients. -/
structure Tone where
  freq : ℚ
  amp : ℚ
  sin : ℚ → ℚ
  rnd : ℚ → ℚ

variable {T : Tone}

/-- `2.0 * M_PI * freq / SR`; doubling is exact. -/
def Tone.step (T : Tone) : ℚ := T.rnd (T.rnd (2 * mPi * T.freq) / sampleRate)

/-- Lines 41-42. -/
def Tone.nextPhase (T : Tone) (phase : ℚ) : ℚ :=
  let phase := T.rnd (phase + T.step)
  if phase > 2 * mPi then T.rnd (phase - 2 * mPi) else phase

/-- `s * 8388607.0` at a phase (lines 40 and 43). -/
def Tone.level (T : Tone) (phase : ℚ) : ℚ := T.rnd (T.rnd (T.amp * T.sin phase) * 8388607)

/-- The sample at a phase (line 43). A conversion to `int32_t` that does not fit is
    undefined. -/
def Tone.sample (T : Tone) (phase : ℚ) : Option ℤ := int32 (truncate (T.level phase))

/-- Line 46. -/
def storeV24 (b : Region Byte) (k : ℕ) (v : ℤ) : Option (Region Byte) := do
  let b ← b.store k (bytes24 (BitVec.ofInt 32 v)).1
  let b ← b.store (k + 1 : ℕ) (bytes24 (BitVec.ofInt 32 v)).2.1
  b.store (k + 2 : ℕ) (bytes24 (BitVec.ofInt 32 v)).2.2

/-- The body of the inner loop of `fill_tone`, on the phase and the buffer. -/
def fillFrame (T : Tone) (pk : ℕ) (s : ℚ × Region Byte) (f : ℕ) : Option (ℚ × Region Byte) := do
  let v ← T.sample s.1
  let b ← (List.range djmt1Ch).foldlM
    (fun b c => storeV24 b (pk * tonePkt + (f * djmt1Ch + c) * 3) v) s.2
  return (T.nextPhase s.1, b)

/-- `fill_tone` (lines 36-50), on the phase and the buffer. -/
def fillTone (T : Tone) (s : ℚ × Region Byte) (npkts : ℕ) : Option (ℚ × Region Byte) :=
  (List.range npkts).foldlM (fun s pk => (List.range toneFrames).foldlM (fillFrame T pk) s) s

/-! ## The tone -/

/-- The phase of frame `k`, from the phase `p` on. -/
def Tone.phaseFrom (T : Tone) (p : ℚ) : ℕ → ℚ
  | 0 => p
  | k + 1 => T.nextPhase (T.phaseFrom p k)

/-- The value of the sample at a phase. -/
def Tone.value (T : Tone) (phase : ℚ) : ℤ := truncate (T.level phase)

/-- The bytes of a number of 24 bits, and of a frame that has it in every channel. -/
def v24Bytes (v : ℤ) : List Byte :=
  [(bytes24 (BitVec.ofInt 32 v)).1, (bytes24 (BitVec.ofInt 32 v)).2.1,
    (bytes24 (BitVec.ofInt 32 v)).2.2]

def monoFrame (v : ℤ) : List Byte := (List.replicate djmt1Ch v).flatMap v24Bytes

/-- `n` frames of the tone, from the phase `p` on. -/
def Tone.frames (T : Tone) (p : ℚ) (n : ℕ) : List Byte :=
  (List.range n).flatMap fun k => monoFrame (T.value (T.phaseFrom p k))

theorem phaseFrom_add (p : ℚ) (m n : ℕ) :
    T.phaseFrom p (m + n) = T.phaseFrom (T.phaseFrom p m) n := by
  induction n with
  | zero => rfl
  | succ n ih => rw [← Nat.add_assoc, Tone.phaseFrom, ih, Tone.phaseFrom]

theorem frames_add (p : ℚ) (m n : ℕ) :
    T.frames p (m + n) = T.frames p m ++ T.frames (T.phaseFrom p m) n := by
  simp only [Tone.frames, List.range_add, List.flatMap_append, List.flatMap_map, phaseFrom_add]

/-- Without rounding, the phase goes up by the same step, and down by whole turns. -/
theorem phaseFrom_eq (h : T.rnd = id) (p : ℚ) (k : ℕ) : ∃ m : ℕ,
    T.phaseFrom p k = p + k * (2 * mPi * T.freq / sampleRate) - m * (2 * mPi) := by
  induction k with
  | zero => exact ⟨0, by simp [Tone.phaseFrom]⟩
  | succ k ih =>
    obtain ⟨m, hm⟩ := ih
    simp only [Tone.phaseFrom, Tone.nextPhase, Tone.step, h, id_eq, hm]
    split_ifs
    · refine ⟨m + 1, ?_⟩
      push_cast
      ring
    · refine ⟨m, ?_⟩
      push_cast
      ring

/-- The amplitude is within full scale. -/
def Tone.Fits (T : Tone) : Prop := ∀ phase, |T.level phase| ≤ 8388607

theorem Tone.Fits.value (h : T.Fits) (phase : ℚ) :
    -8388607 ≤ T.value phase ∧ T.value phase ≤ 8388607 := by
  obtain ⟨hlow, hhigh⟩ := abs_le.mp (h phase)
  have hbottom := truncate_mono hlow
  have htop := truncate_mono hhigh
  have hN : truncate 8388607 = 8388607 := truncate_intCast 8388607
  rw [truncate_neg, hN] at hbottom
  rw [hN] at htop
  exact ⟨hbottom, htop⟩

theorem Tone.Fits.sample (h : T.Fits) (phase : ℚ) : T.sample phase = some (T.value phase) := by
  obtain ⟨hlow, hhigh⟩ := h.value phase
  exact int32_eq (by simp only [Tone.value] at hlow; omega)
    (by simp only [Tone.value] at hhigh; omega)

/-- A sample is read back as its value. -/
theorem Tone.Fits.decodes (h : T.Fits) (phase : ℚ) :
    s24le (bytes24 (BitVec.ofInt 32 (T.value phase))).1
      (bytes24 (BitVec.ofInt 32 (T.value phase))).2.1
      (bytes24 (BitVec.ofInt 32 (T.value phase))).2.2 = T.value phase := by
  obtain ⟨hlow, hhigh⟩ := h.value phase
  exact s24le_bytes24 (by omega) (by omega)

/-! ## `fill_tone` -/

theorem storeV24_spec {b : Region Byte} {k : ℕ} (v : ℤ) (h : k * 3 + 3 ≤ b.size) :
    ∃ b', storeV24 b (k * 3) v = some b' ∧ b'.size = b.size ∧
      b'.slice 0 ((k + 1) * 3) = b.slice 0 (k * 3) ++ v24Bytes v := by
  rw [show (k + 1) * 3 = k * 3 + 3 by ring, storeV24]
  exact Region.store_triple _ _ _ h

/-- The body of the inner loop adds a frame and moves the phase on. -/
theorem fillFrame_spec (hT : T.Fits) {s : ℚ × Region Byte} {pk f : ℕ}
    (hb : (pk * 48 + f + 1) * 18 ≤ s.2.size) :
    ∃ b, fillFrame T pk s f = some (T.nextPhase s.1, b) ∧ b.size = s.2.size ∧
      b.slice 0 ((pk * 48 + f + 1) * 18) =
        s.2.slice 0 ((pk * 48 + f) * 18) ++ monoFrame (T.value s.1) := by
  have hloop : ∃ b, (List.range djmt1Ch).foldlM (fun b c =>
      storeV24 b (pk * tonePkt + (f * djmt1Ch + c) * 3) (T.value s.1)) s.2 = some b ∧
      b.size = s.2.size ∧ b.slice 0 (((pk * 48 + f) * 6 + djmt1Ch) * 3) =
        s.2.slice 0 ((pk * 48 + f) * 18) ++
          (List.replicate djmt1Ch (T.value s.1)).flatMap v24Bytes := by
    refine loop_spec _ (fun c (b : Region Byte) => b.size = s.2.size ∧
      b.slice 0 (((pk * 48 + f) * 6 + c) * 3) = s.2.slice 0 ((pk * 48 + f) * 18) ++
        (List.replicate c (T.value s.1)).flatMap v24Bytes) djmt1Ch ⟨rfl, ?_⟩ ?_
    · rw [show ((pk * 48 + f) * 6 + 0) * 3 = (pk * 48 + f) * 18 by ring]
      simp
    · rintro c b hc ⟨hsize, hslice⟩
      simp only [djmt1Ch] at hc
      have hplace : pk * tonePkt + (f * djmt1Ch + c) * 3 = ((pk * 48 + f) * 6 + c) * 3 := by
        simp only [tonePkt, djmt1Ch]
        ring
      obtain ⟨b', hb', hsize', hslice'⟩ := storeV24_spec (b := b) (k := (pk * 48 + f) * 6 + c)
        (T.value s.1) (by omega)
      rw [hplace]
      refine ⟨b', hb', hsize'.trans hsize, ?_⟩
      rw [← Nat.add_assoc, hslice', hslice, List.replicate_succ', List.flatMap_append,
        List.append_assoc]
      simp
  obtain ⟨b, hb', hsize, hslice⟩ := hloop
  refine ⟨b, ?_, hsize, ?_⟩
  · simp only [fillFrame, hT.sample, Option.bind_eq_bind, Option.bind_some, hb', Option.pure_def]
  · rw [show (pk * 48 + f + 1) * 18 = ((pk * 48 + f) * 6 + djmt1Ch) * 3 by
      simp only [djmt1Ch]
      ring]
    exact hslice

/-- **`fill_tone`** writes the frames of the tone from the phase on, and leaves the phase of
    the frame that comes after them. -/
theorem fillTone_spec (hT : T.Fits) {p : ℚ} {b : Region Byte} {npkts : ℕ}
    (hb : npkts * 864 ≤ b.size) :
    ∃ b', fillTone T (p, b) npkts = some (T.phaseFrom p (npkts * 48), b') ∧ b'.size = b.size ∧
      b'.slice 0 (npkts * 864) = T.frames p (npkts * 48) := by
  -- the frames so far, after packet `pk` and frame `f` of it
  let Filled (k : ℕ) (s : ℚ × Region Byte) : Prop := s.1 = T.phaseFrom p k ∧ s.2.size = b.size ∧
    s.2.slice 0 (k * 18) = T.frames p k
  have houter : ∃ s, fillTone T (p, b) npkts = some s ∧ Filled (npkts * 48) s := by
    refine loop_spec _ (fun pk s => Filled (pk * 48) s) npkts ⟨by rw [Nat.zero_mul]; rfl, rfl,
      by simp [Region.slice, Tone.frames]⟩ ?_
    intro pk s hpk hs
    rw [show (pk + 1) * 48 = pk * 48 + toneFrames by
      simp only [toneFrames, tonePkt]
      ring]
    refine loop_spec _ (fun f s => Filled (pk * 48 + f) s) toneFrames hs ?_
    rintro f ⟨q, c⟩ hf ⟨rfl, hsize, hslice⟩
    simp only [toneFrames, tonePkt] at hf
    obtain ⟨c', hc', hsize', hslice'⟩ := fillFrame_spec hT (s := (T.phaseFrom p (pk * 48 + f), c))
      (show (pk * 48 + f + 1) * 18 ≤ c.size by
        simp only at hsize
        omega)
    refine ⟨_, hc', rfl, hsize'.trans hsize, ?_⟩
    rw [← Nat.add_assoc, frames_add, hslice', hslice]
    simp [Tone.frames, Tone.phaseFrom]
  obtain ⟨⟨q, b'⟩, hfill, hphase, hsize, hslice⟩ := houter
  refine ⟨b', ?_, hsize, ?_⟩
  · rw [hfill, ← hphase]
  · rw [show npkts * 864 = npkts * 48 * 18 by ring]
    exact hslice

/-! ## The program -/

/-- The phase, the counters and the buffers of the transfers (lines 31-34 and 87). -/
structure PlaybackState where
  phase : ℚ
  outPkts : BitVec 64
  outErr : BitVec 64
  xfrErrs : BitVec 64
  buffer : Fin toneXfrs → Region Byte

/-- A transfer that has come back, and the status of each of its packets. -/
structure OutResult where
  status : XferStatus
  packets : List XferStatus

/-- Lines 56-58. -/
def countOut (s : PlaybackState) (st : XferStatus) : PlaybackState :=
  if st ≠ .completed then { s with outErr := s.outErr + 1 } else { s with outPkts := s.outPkts + 1 }

/-- `cb` before the resubmission (lines 53-59). -/
def cbCount (s : PlaybackState) (r : OutResult) : PlaybackState :=
  r.packets.foldl countOut (if isError r.status then { s with xfrErrs := s.xfrErrs + 1 } else s)

/-- `fill_tone(buf, NPKT)` on the buffer of transfer `i` (lines 61 and 88). -/
def fillBuffer (T : Tone) (s : PlaybackState) (i : Fin toneXfrs) : Option PlaybackState := do
  let (phase, b) ← fillTone T (s.phase, s.buffer i) toneNpkt
  return { s with phase, buffer := Function.update s.buffer i b }

/-- The program. -/
def playbackProgram (T : Tone) : Streaming.Program PlaybackState OutResult toneXfrs where
  prepare := fillBuffer T
  receive s _ r := some (cbCount s r)
  refill := fillBuffer T

/-- The program before its first transfer, with buffers of `calloc(NPKT, PKT)`. -/
def playbackBegin : PlaybackState :=
  ⟨0, 0, 0, 0, fun _ => Region.fill (toneNpkt * tonePkt) 0⟩

/-- The frames of the `j`-th call of `fill_tone`. -/
def Tone.chunk (T : Tone) (j : ℕ) : List Byte := T.frames (T.phaseFrom 0 (j * 1536)) 1536

/-- The outcomes of the submissions, in order. -/
def sentOf : List (Streaming.Event OutResult toneXfrs) → List Bool
  | [] => []
  | .sent _ _ ok :: log => ok :: sentOf log
  | .came _ _ :: log => sentOf log

/-- The packets that have come back. -/
def returnedOf : List (Streaming.Event OutResult toneXfrs) → List XferStatus
  | [] => []
  | .came _ r :: log => r.packets ++ returnedOf log
  | .sent _ _ _ :: log => returnedOf log

/-- The buffers of the transfers whose submission was accepted, in order. -/
def played (T : Tone) : PlaybackState → List (Streaming.Event OutResult toneXfrs) →
    List (List Byte)
  | _, [] => []
  | s, e :: log =>
    match (playbackProgram T).apply s e with
    | none => []
    | some t =>
      match e with
      | .sent i _ true => (t.buffer i).toList :: played T t log
      | .sent _ _ false | .came _ _ => played T t log

/-- Before the `j`-th call of `fill_tone`. -/
structure ToneInv (T : Tone) (j : ℕ) (s : PlaybackState) : Prop where
  phase : s.phase = T.phaseFrom 0 (j * 1536)
  buffer : ∀ i, (s.buffer i).size = toneNpkt * tonePkt

theorem playbackBegin_inv (T : Tone) : ToneInv T 0 playbackBegin :=
  ⟨by rw [Nat.zero_mul]; rfl, fun _ => rfl⟩

/-- A call of `fill_tone` writes the next chunk of the tone to the buffer. -/
theorem fillBuffer_spec (hT : T.Fits) {j : ℕ} {s : PlaybackState} (h : ToneInv T j s)
    (i : Fin toneXfrs) : ∃ t, fillBuffer T s i = some t ∧ ToneInv T (j + 1) t ∧
      (t.buffer i).toList = T.chunk j ∧ t.outPkts = s.outPkts ∧ t.outErr = s.outErr := by
  have hsize : toneNpkt * 864 ≤ (s.buffer i).size := (h.buffer i).ge
  obtain ⟨b, hfill, hb, hslice⟩ := fillTone_spec hT (p := s.phase) hsize
  simp only [fillBuffer, hfill, Option.bind_eq_bind, Option.bind_some, Option.pure_def]
  refine ⟨_, rfl, ⟨?_, ?_⟩, ?_, rfl, rfl⟩
  · simp only [h.phase, ← phaseFrom_add]
    rw [show (j + 1) * 1536 = j * 1536 + toneNpkt * 48 by
      simp only [toneNpkt]
      ring]
  · intro k
    by_cases hk : k = i
    · subst hk
      simp only [Function.update_self]
      exact hb.trans (h.buffer k)
    · simp only [Function.update_of_ne hk]
      exact h.buffer k
  · simp only [Function.update_self]
    rw [Region.toList, hb, h.buffer i, Tone.chunk, ← h.phase]
    exact hslice

theorem cbCount_spec (s : PlaybackState) (r : OutResult) :
    (cbCount s r).phase = s.phase ∧ (cbCount s r).buffer = s.buffer ∧
      (cbCount s r).outPkts = s.outPkts + (r.packets.countP (· = .completed) : ℕ) ∧
      (cbCount s r).outErr = s.outErr + (r.packets.countP (· ≠ .completed) : ℕ) := by
  have hloop : ∀ (l : List XferStatus) (s : PlaybackState),
      (l.foldl countOut s).phase = s.phase ∧ (l.foldl countOut s).buffer = s.buffer ∧
      (l.foldl countOut s).outPkts = s.outPkts + (l.countP (· = .completed) : ℕ) ∧
      (l.foldl countOut s).outErr = s.outErr + (l.countP (· ≠ .completed) : ℕ) := by
    intro l
    induction l with
    | nil => intro s; simp
    | cons st l ih =>
      intro s
      obtain ⟨hphase, hbuf, hpkts, herr⟩ := ih (countOut s st)
      rw [List.foldl_cons, hphase, hbuf, hpkts, herr]
      by_cases hst : st = .completed
      · simp [countOut, hst, add_comm, BitVec.add_assoc]
      · simp [countOut, hst, add_comm, BitVec.add_assoc]
  unfold cbCount
  split_ifs
  · exact hloop _ _
  · exact hloop _ _

/-- The functions of the program are defined. -/
theorem playbackProgram_keeps (hT : T.Fits) :
    (playbackProgram T).Keeps fun s => ∃ j, ToneInv T j s where
  prepare s i h := by
    obtain ⟨j, h⟩ := h
    obtain ⟨t, ht, hinv, _⟩ := fillBuffer_spec hT h i
    exact ⟨t, ht, j + 1, hinv⟩
  refill s i h := by
    obtain ⟨j, h⟩ := h
    obtain ⟨t, ht, hinv, _⟩ := fillBuffer_spec hT h i
    exact ⟨t, ht, j + 1, hinv⟩
  receive s i r h := by
    obtain ⟨j, h⟩ := h
    obtain ⟨hphase, hbuf, _⟩ := cbCount_spec s r
    exact ⟨_, rfl, j, hphase.trans h.phase, fun i => by rw [hbuf]; exact h.buffer i⟩

/-! ## The tone that is played -/

/-- The numbers from `j` on of the submissions that are accepted. -/
def acceptedSubmits (oks : List Bool) (j : ℕ) : List ℕ :=
  ((oks.zipIdx j).filter (·.1)).map (·.2)

/-- What a run that starts before the `j`-th call plays, and counts. -/
theorem played_eq (hT : T.Fits) {log : List (Streaming.Event OutResult toneXfrs)} {j : ℕ}
    {s t : PlaybackState} (h : ToneInv T j s)
    (ht : log.foldlM (playbackProgram T).apply s = some t) :
    played T s log = (acceptedSubmits (sentOf log) j).map T.chunk ∧
    t.outPkts = s.outPkts + ((returnedOf log).countP (· = .completed) : ℕ) ∧
    t.outErr = s.outErr + ((returnedOf log).countP (· ≠ .completed) : ℕ) := by
  induction log generalizing s j with
  | nil =>
    obtain rfl := Option.some.inj ht
    simp [played, sentOf, acceptedSubmits, returnedOf]
  | cons e log ih =>
    obtain ⟨u, hu, ht⟩ := Option.bind_eq_some_iff.mp ht
    cases e with
    | came i r =>
      obtain ⟨hphase, hbuf, hpkts, herr⟩ := cbCount_spec s r
      obtain rfl : cbCount s r = u := Option.some.inj hu
      obtain ⟨hplay, hpkts', herr'⟩ := ih ⟨hphase.trans h.phase, fun i => by
        rw [hbuf]; exact h.buffer i⟩ ht
      refine ⟨?_, ?_, ?_⟩
      · simp only [played, hu, sentOf]
        exact hplay
      · rw [hpkts', hpkts, returnedOf, List.countP_append, Nat.cast_add, add_assoc]
      · rw [herr', herr, returnedOf, List.countP_append, Nat.cast_add, add_assoc]
    | sent i again ok =>
      have hfill : fillBuffer T s i = some u := by cases again <;> exact hu
      obtain ⟨u', hu', hinv, hchunk, hpkts, herr⟩ := fillBuffer_spec hT h i
      obtain rfl : u' = u := Option.some.inj (hu'.symm.trans hfill)
      obtain ⟨hplay, hpkts', herr'⟩ := ih hinv ht
      refine ⟨?_, ?_, ?_⟩
      · cases ok with
        | false =>
          simp only [played, hu, sentOf, hplay]
          simp [acceptedSubmits, List.zipIdx_cons]
        | true =>
          simp only [played, hu, sentOf, hplay, hchunk]
          simp [acceptedSubmits, List.zipIdx_cons]
      · rw [hpkts', hpkts, returnedOf]
      · rw [herr', herr, returnedOf]

/-- The chunks of a tone, one after the other. -/
theorem flatMap_chunk (T : Tone) (n : ℕ) :
    (List.range n).flatMap T.chunk = T.frames 0 (n * 1536) := by
  induction n with
  | zero => simp [Tone.frames]
  | succ n ih =>
    rw [List.range_succ, List.flatMap_append, ih, List.flatMap_singleton, Nat.add_mul, Nat.one_mul,
      frames_add]
    rfl

/-- If every submission is accepted, so are all numbers. -/
theorem acceptedSubmits_all {oks : List Bool} (h : ∀ ok ∈ oks, ok = true) :
    acceptedSubmits oks 0 = List.range oks.length := by
  have hfilter : (oks.zipIdx 0).filter (·.1) = oks.zipIdx 0 := by
    rw [List.filter_eq_self]
    rintro ⟨ok, k⟩ hk
    exact h ok (List.fst_mem_of_mem_zipIdx hk)
  rw [acceptedSubmits, hfilter, List.zipIdx_map_snd, List.range_eq_range']

/-- **The tone.** In every run of the program, with an amplitude within full scale: the
    buffers that are submitted carry chunk `j` of the tone in the `j`-th submission, so that
    they are the tone from its beginning, without a gap or a repetition, if every submission
    is accepted; every sample is read back as the level at its phase, cut off toward zero,
    where the phase of frame `k` is, without rounding, `k` times the step, up to whole turns;
    and the packets that come back are all counted, as good or bad. -/
theorem tone_continuous (hT : T.Fits) {s : Streaming.Proc PlaybackState OutResult toneXfrs}
    {log : List (Streaming.Event OutResult toneXfrs)}
    (h : (Streaming.logMachine (playbackProgram T) playbackBegin).Reach (s, log)) :
    played T playbackBegin log = (acceptedSubmits (sentOf log) 0).map T.chunk ∧
    ((∀ ok ∈ sentOf log, ok = true) →
      (played T playbackBegin log).flatten = T.frames 0 ((sentOf log).length * 1536)) ∧
    (T.rnd = id →
      ∀ k, ∃ m : ℕ, T.phaseFrom 0 k = k * (2 * mPi * T.freq / sampleRate) - m * (2 * mPi)) ∧
    (∀ phase, s24le (bytes24 (BitVec.ofInt 32 (T.value phase))).1
      (bytes24 (BitVec.ofInt 32 (T.value phase))).2.1
      (bytes24 (BitVec.ofInt 32 (T.value phase))).2.2 = T.value phase) ∧
    s.app.outPkts = ((returnedOf log).countP (· = .completed) : ℕ) ∧
    s.app.outErr = ((returnedOf log).countP (· ≠ .completed) : ℕ) := by
  obtain ⟨hplay, hpkts, herr⟩ := played_eq hT (playbackBegin_inv T) (Streaming.log_replay h)
  refine ⟨hplay, ?_, ?_, hT.decodes, ?_, ?_⟩
  · intro hall
    rw [hplay, acceptedSubmits_all hall, ← List.flatMap_def, flatMap_chunk]
  · intro hexact k
    obtain ⟨m, hm⟩ := phaseFrom_eq hexact 0 k
    exact ⟨m, by rw [hm, zero_add]⟩
  · rw [hpkts]
    exact zero_add _
  · rw [herr]
    exact zero_add _

/-- The nearest `double`, for a number that is not too large for one. -/
def roundDouble (x : ℚ) : ℚ := roundTo 53 (-1074) x

/-- A tone with a square wave for the sine. -/
def squareTone : Tone where
  freq := 440
  amp := roundDouble (6 / 100)
  sin phase := if phase < mPi then 1 else -1
  rnd := roundDouble

theorem squareTone_fits : squareTone.Fits := by
  intro phase
  simp only [squareTone, Tone.level]
  split_ifs
  · decide +kernel
  · decide +kernel

/-- The first transfer is submitted. -/
theorem tone_continuous_first : ∃ s log,
    (Streaming.logMachine (playbackProgram squareTone) playbackBegin).Reach (s, log) ∧
    sentOf log = [true] ∧ played squareTone playbackBegin log = [squareTone.chunk 0] := by
  obtain ⟨t, ht, _⟩ := fillBuffer_spec squareTone_fits (playbackBegin_inv squareTone) 0
  let s : Streaming.Proc PlaybackState OutResult toneXfrs := Streaming.start playbackBegin
  let u : Streaming.Proc PlaybackState OutResult toneXfrs :=
    { s with app := t, flying := {0}, inflight := 1, main := .submit [1, 2, 3, 4, 5, 6, 7] }
  have hstep : (Streaming.machine (playbackProgram squareTone) playbackBegin).Step s (.main true)
      u := by
    refine ⟨⟨rfl, by simp [s, Streaming.start]⟩, ?_⟩
    show Streaming.mainExec (playbackProgram squareTone) s true = some u
    have hprep : (playbackProgram squareTone).prepare s.app 0 = some t := ht
    simp only [Streaming.mainExec, s, Streaming.start, List.finRange_succ]
    exact congrArg (Option.bind · _) hprep
  have hreach : (Streaming.logMachine (playbackProgram squareTone) playbackBegin).Reach
      (u, [.sent 0 false true]) :=
    .step (s := (s, [])) (.init ⟨rfl, rfl⟩) (Machine.step_observe.mpr ⟨hstep, rfl⟩) trivial
  exact ⟨u, _, hreach, rfl, (tone_continuous squareTone_fits hreach).1⟩

/-! ## The end of the programs -/

/-- **The end.** In every run of either program, with an amplitude within full scale for the
    tone: every step is defined; `inflight` is the number of transfers in flight; the last
    loop waits only for transfers that have been cancelled, and none is submitted any more;
    and the interface is released and the device closed with no transfer in flight. -/
theorem programs_end (hT : T.Fits) (file : Bool) :
    (∀ s, (Streaming.machine captureProgram (captureBegin file)).Reach s →
      Streaming.WindsUp captureProgram (captureBegin file) s) ∧
    ∀ s, (Streaming.machine (playbackProgram T) playbackBegin).Reach s →
      Streaming.WindsUp (playbackProgram T) playbackBegin s :=
  ⟨fun _ h => Streaming.windsUp captureProgram_keeps (captureBegin_inv file) h,
    fun _ h => Streaming.windsUp (playbackProgram_keeps hT) ⟨0, playbackBegin_inv T⟩ h⟩

/-- `djmt1-capture` is started, its time is up, and its transfers come back. -/
def wholeRun : List (Streaming.Label InTransfer captureXfrs) :=
  List.replicate 22 (.main true) ++ (List.finRange captureXfrs).flatMap (fun i =>
    .complete i ⟨.cancelled, []⟩ :: List.replicate 3 (.callback true)) ++
    List.replicate 6 (.main true)

set_option maxRecDepth 2000 in
theorem programs_end_wholeRun : ∃ s,
    (Streaming.machine captureProgram (captureBegin false)).play
      (Streaming.start (captureBegin false)) wholeRun = some s ∧
    s.main = .close 0 ∧ Streaming.WindsUp captureProgram (captureBegin false) s := by
  obtain ⟨s, hplay, hmain⟩ : ∃ s, (Streaming.machine captureProgram (captureBegin false)).play
      (Streaming.start (captureBegin false)) wholeRun = some s ∧ s.main = .close 0 := by
    refine ⟨_, rfl, ?_⟩
    rfl
  exact ⟨s, hplay, hmain,
    (programs_end squareTone_fits false).1 s (Machine.play_reach rfl hplay)⟩

end DjmT1.Audio
