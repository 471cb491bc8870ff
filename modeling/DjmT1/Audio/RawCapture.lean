import DjmT1.Audio.Paths
import DjmT1.Audio.PassThrough
import DjmT1.Lib.Framing

/-!
# The raw capture file

`djmt1-capture` (audio/djmt1-capture.c) looks at every good packet twice: it writes all of
its bytes to the file of `-o` and analyses its whole frames. The state keeps the values of
the frames analysed. A `double` is read as an exact rational number.

* `cb_adds`: what a transfer adds to the file and to the frames analysed.
* `capture_spec`: so for every sequence of transfers; the levels are those of the frames.
* `fileFrames_iff`: when the file is the frames, for every sequence of packets;
  `inLine_of_whole`: so it is if all packets are whole frames.
* `engine_frames`: the engine captures these frames, if its ring never overflows.
* `raw_file_rotates`: a packet with a byte too many moves the frames of the next one.
* `raw_file_agrees`: the file, sliced into frames, is the frames analysed exactly if no
  packet comes out of line.
-/

namespace DjmT1.Audio

open DjmT1.Lib DjmT1.Lib.Framing

/-- `FRAME_BYTES` (line 28). -/
abbrev frameBytes : ℕ := djmt1Ch * 3

/-- The counters, the levels and the file (lines 33-37). -/
structure Capture where
  totalPkts : BitVec 64
  totalBytes : BitVec 64
  errPkts : BitVec 64
  xfrErrs : BitVec 64
  frames : BitVec 64
  pktlenHist : Region (BitVec 64)
  chPeak : Region ℚ
  chSumsq : Region ℚ
  /-- the bytes written to `rawf`, if it is open -/
  rawf : Option (List Byte)
  inflight : ℤ
  /-- the values of the frames analysed so far -/
  analysed : List (List ℤ)

/-- `s24le(d + k)` (lines 39-43). -/
def s24leAt (d : Region Byte) (k : ℤ) : Option ℤ := do
  let p0 ← d.load k
  let p1 ← d.load (k + 1)
  let p2 ← d.load (k + 2)
  return s24le p0 p1 p2

/-- Lines 52-53: `a` is the absolute value of `x`, and the peak is raised to it. -/
def raisePeak (peaks : Region ℚ) (c : ℕ) (x : ℚ) : Option (Region ℚ) := do
  let a := if x < 0 then -x else x
  let peak ← peaks.load c
  if a > peak then peaks.store c a else some peaks

/-- Lines 51-54: channel `c` of frame `f`, appended to the row of that frame. -/
def analyseSample (d : Region Byte) (f : ℕ) (t : Capture × List ℤ) (c : ℕ) :
    Option (Capture × List ℤ) := do
  let (s, row) := t
  let v ← s24leAt d (f * frameBytes + c * 3)
  let x : ℚ := v / 8388608
  let chPeak ← raisePeak s.chPeak c x
  let sumsq ← s.chSumsq.load c
  let chSumsq ← s.chSumsq.store c (sumsq + x * x)
  return ({ s with chPeak, chSumsq }, row ++ [v])

/-- Lines 49-56. -/
def analyseFrame (d : Region Byte) (s : Capture) (f : ℕ) : Option Capture := do
  let (s, row) ← (List.range djmt1Ch).foldlM (analyseSample d f) (s, [])
  return { s with frames := s.frames + 1, analysed := s.analysed ++ [row] }

/-- `if (rawf) fwrite(d, 1, (size_t)len, rawf)` (line 46). -/
def writeRaw (s : Capture) (d : Region Byte) (len : ℕ) : Option Capture :=
  match s.rawf with
  | none => some s
  | some raw => do
    let bytes ← (List.range len).mapM fun j => d.load (0 + j : ℕ)
    return { s with rawf := some (raw ++ bytes) }

/-- `process_packet` (lines 45-58). -/
def processPacket (s : Capture) (d : Region Byte) (len : ℕ) : Option Capture := do
  let s ← writeRaw s d len
  (List.range (len / frameBytes)).foldlM (analyseFrame d) s

/-- `if (len <= PKT_MAX) pktlen_hist[len]++` (line 70). -/
def countLength (hist : Region (BitVec 64)) (len : ℕ) : Option (Region (BitVec 64)) :=
  if len ≤ pktInMax then do
    let n ← hist.load len
    hist.store len (n + 1)
  else some hist

/-- Lines 65-71, for one packet. -/
def cbPacket (s : Capture) (p : IsoPacket) : Option Capture :=
  if p.status ≠ .completed then some { s with errPkts := s.errPkts + 1 }
  else
    let len := p.data.size
    if len = 0 then some s
    else do
      let pktlenHist ← countLength s.pktlenHist len
      processPacket { s with
        totalPkts := s.totalPkts + 1
        totalBytes := s.totalBytes + BitVec.ofNat 64 len
        pktlenHist } p.data len

/-- `cb` (lines 60-75). `resub` is the outcome of
    `running && libusb_submit_transfer(xfr) == 0`. -/
def cb (s : Capture) (x : InTransfer) (resub : Bool) : Option Capture := do
  let s := if isError x.status then { s with xfrErrs := s.xfrErrs + 1 } else s
  let s ← x.packets.foldlM cbPacket s
  return if resub then s else { s with inflight := s.inflight - 1 }

/-- The program before the first transfer, with the file of `-o` open. -/
def captureStart (inflight : ℤ) : Capture :=
  ⟨0, 0, 0, 0, 0, Region.fill (pktInMax + 1) 0, Region.fill djmt1Ch 0, Region.fill djmt1Ch 0,
    some [], inflight, []⟩

/-- A sequence of completed transfers. -/
def capture (s : Capture) (xs : List (InTransfer × Bool)) : Option Capture :=
  xs.foldlM (fun s x => cb s x.1 x.2) s

/-! ## One packet -/

/-- The values of frame `f` of a packet. -/
def frameValues (d : Region Byte) (f : ℕ) : List ℤ :=
  (List.range djmt1Ch).map fun c => sampleValue d (f * djmt1Ch + c)

/-- The values of the whole frames of a packet, if it is a good one. -/
def packetValues (p : IsoPacket) : List (List ℤ) :=
  if p.status = .completed then (List.range (p.data.size / 18)).map (frameValues p.data) else []

/-- The peak of a channel over frames. -/
def peakOf (rows : List (List ℤ)) (c : ℕ) : ℚ :=
  rows.foldl (fun m r => max m |(r.getD c 0 : ℚ) / 8388608|) 0

/-- The sum of squares of a channel over frames. -/
def sumsqOf (rows : List (List ℤ)) (c : ℕ) : ℚ :=
  (rows.map fun r => ((r.getD c 0 : ℚ) / 8388608) * ((r.getD c 0 : ℚ) / 8388608)).sum

/-- The counter and the levels are those of the frames analysed. -/
structure CaptureInv (s : Capture) : Prop where
  hist : s.pktlenHist.size = 1025
  peakSize : s.chPeak.size = 6
  sumsqSize : s.chSumsq.size = 6
  counted : s.frames = BitVec.ofNat 64 s.analysed.length
  peak : ∀ c < 6, s.chPeak.get c = peakOf s.analysed c
  sumsq : ∀ c < 6, s.chSumsq.get c = sumsqOf s.analysed c

theorem s24leAt_eq {d : Region Byte} {f c : ℕ} (h : (f * 6 + c) * 3 + 3 ≤ d.size) :
    s24leAt d (f * frameBytes + c * 3) = some (sampleValue d (f * 6 + c)) := by
  have hk : ((f * frameBytes + c * 3 : ℕ) : ℤ) = ((f * 6 + c) * 3 : ℕ) := by
    simp only [frameBytes, djmt1Ch]
    push_cast
    ring
  have hk' : (f : ℤ) * frameBytes + c * 3 = ((f * 6 + c) * 3 : ℕ) := by rw [← hk]; push_cast; rfl
  simp only [s24leAt, hk', Option.bind_eq_bind, Option.pure_def]
  rw [Region.load_eq (by omega), Option.bind_some,
    show (((f * 6 + c) * 3 : ℕ) : ℤ) + 1 = ((f * 6 + c) * 3 + 1 : ℕ) by push_cast; rfl,
    Region.load_eq (by omega), Option.bind_some,
    show (((f * 6 + c) * 3 : ℕ) : ℤ) + 2 = ((f * 6 + c) * 3 + 2 : ℕ) by push_cast; rfl,
    Region.load_eq (by omega), Option.bind_some]
  rfl

theorem raisePeak_eq {peaks : Region ℚ} {c : ℕ} (h : c < peaks.size) (x : ℚ) :
    raisePeak peaks c x =
      some { peaks with get := Function.update peaks.get c (max (peaks.get c) |x|) } := by
  have habs : (if x < 0 then -x else x) = |x| := by
    split_ifs with hx
    · exact (abs_of_neg hx).symm
    · exact (abs_of_nonneg (not_lt.mp hx)).symm
  simp only [raisePeak, habs, Region.load_eq h, Option.bind_eq_bind, Option.bind_some]
  split_ifs with hgt
  · rw [Region.store_eq h, max_eq_right hgt.le]
  · rw [max_eq_left (not_lt.mp hgt), Function.update_eq_self]

/-- A sample raises the peak of its channel and adds to its sum of squares. -/
theorem analyseSample_eq {d : Region Byte} {s : Capture} {row : List ℤ} {f c : ℕ}
    (hd : (f * 6 + c) * 3 + 3 ≤ d.size) (hp : c < s.chPeak.size) (hq : c < s.chSumsq.size) :
    analyseSample d f (s, row) c = some ({ s with
      chPeak := ⟨s.chPeak.size, Function.update s.chPeak.get c
        (max (s.chPeak.get c) |sampleAt d (f * 6 + c)|)⟩
      chSumsq := ⟨s.chSumsq.size, Function.update s.chSumsq.get c
        (s.chSumsq.get c + sampleAt d (f * 6 + c) * sampleAt d (f * 6 + c))⟩ },
      row ++ [sampleValue d (f * 6 + c)]) := by
  simp only [analyseSample, s24leAt_eq hd, Option.bind_eq_bind, Option.bind_some, Option.pure_def,
    ← sampleAt_eq]
  rw [raisePeak_eq hp, Option.bind_some, Region.load_eq hq, Option.bind_some,
    Region.store_eq hq, Option.bind_some]

/-- An array whose first `c` elements are new, and then one more. -/
theorem update_first {β : Type*} (new old : ℕ → β) (c : ℕ) :
    Function.update (fun j => if j < c then new j else old j) c (new c) =
      fun j => if j < c + 1 then new j else old j := by
  refine Function.update_eq_iff.mpr ⟨by simp, fun j hj => ?_⟩
  have hiff : j < c + 1 ↔ j < c := by omega
  simp only [hiff]

/-- The first `k` channels of a frame have been analysed. -/
def analysedTo (d : Region Byte) (f : ℕ) (s : Capture) (k : ℕ) : Capture :=
  { s with
    chPeak := ⟨6, fun c =>
      if c < k then max (s.chPeak.get c) |sampleAt d (f * 6 + c)| else s.chPeak.get c⟩
    chSumsq := ⟨6, fun c =>
      if c < k then s.chSumsq.get c + sampleAt d (f * 6 + c) * sampleAt d (f * 6 + c)
      else s.chSumsq.get c⟩ }

/-- A frame is analysed channel by channel, counted, and its row is that of its samples. -/
theorem analyseFrame_eq {d : Region Byte} {s : Capture} {f : ℕ} (hd : f * 18 + 18 ≤ d.size)
    (hp : s.chPeak.size = 6) (hq : s.chSumsq.size = 6) :
    analyseFrame d s f = some { analysedTo d f s 6 with
      frames := s.frames + 1
      analysed := s.analysed ++ [frameValues d f] } := by
  have inner : ∃ t, (List.range djmt1Ch).foldlM (analyseSample d f) (s, []) = some t ∧
      t = (analysedTo d f s 6, frameValues d f) := by
    refine loop_spec _ (fun k t => t = (analysedTo d f s k,
      (List.range k).map fun c => sampleValue d (f * 6 + c))) djmt1Ch ?_ ?_
    · obtain ⟨_, _, _, _, _, _, ⟨np, gp⟩, ⟨nq, gq⟩, _, _, _⟩ := s
      simp only at hp hq
      subst hp hq
      simp [analysedTo]
    · rintro c t hc rfl
      simp only [djmt1Ch] at hc
      refine ⟨_, analyseSample_eq (by omega) hc hc, ?_⟩
      have hpeak := update_first (fun j => max (s.chPeak.get j) |sampleAt d (f * 6 + j)|)
        s.chPeak.get c
      have hsumsq := update_first
        (fun j => s.chSumsq.get j + sampleAt d (f * 6 + j) * sampleAt d (f * 6 + j))
        s.chSumsq.get c
      simp only [analysedTo, lt_irrefl, if_false, List.range_succ, List.map_append,
        List.map_singleton, hpeak, hsumsq]
  obtain ⟨t, ht, rfl⟩ := inner
  rw [analyseFrame, ht]
  rfl

/-! ## What a transfer adds -/

/-- The bytes that a packet adds to the file: all of them, if it is a good one. -/
def payload (p : IsoPacket) : List Byte := if p.status = .completed then p.data.toList else []

/-- Rows are appended to the frames analysed and bytes to the file. -/
structure Adds (rows : List (List ℤ)) (bytes : List Byte) (s t : Capture) : Prop where
  inv : CaptureInv t
  analysed : t.analysed = s.analysed ++ rows
  rawf : t.rawf = s.rawf.map (· ++ bytes)

theorem Adds.nil {s t : Capture} (h : CaptureInv t) (ha : t.analysed = s.analysed)
    (hr : t.rawf = s.rawf) : Adds [] [] s t := by
  refine ⟨h, ?_, ?_⟩
  · rw [ha, List.append_nil]
  · rw [hr]
    simp

theorem Adds.trans {rows rows' : List (List ℤ)} {bytes bytes' : List Byte} {s t u : Capture}
    (h : Adds rows bytes s t) (h' : Adds rows' bytes' t u) :
    Adds (rows ++ rows') (bytes ++ bytes') s u := by
  refine ⟨h'.inv, ?_, ?_⟩
  · rw [h'.analysed, h.analysed, List.append_assoc]
  · rw [h'.rawf, h.rawf, Option.map_map]
    congr 1
    funext raw
    exact List.append_assoc raw bytes bytes'

/-- What a loop adds is what its iterations add. -/
theorem foldlM_adds {β : Type*} {body : Capture → β → Option Capture} {rows : β → List (List ℤ)}
    {bytes : β → List Byte} {l : List β}
    (hbody : ∀ x ∈ l, ∀ s, CaptureInv s →
      ∃ t, body s x = some t ∧ Adds (rows x) (bytes x) s t) {s : Capture} (h : CaptureInv s) :
    ∃ t, l.foldlM body s = some t ∧ Adds (l.flatMap rows) (l.flatMap bytes) s t := by
  induction l generalizing s with
  | nil => exact ⟨s, rfl, .nil h rfl rfl⟩
  | cons x l ih =>
    obtain ⟨t, ht, hadd⟩ := hbody x List.mem_cons_self s h
    obtain ⟨u, hu, hadd'⟩ := ih (fun y hy => hbody y (List.mem_cons_of_mem x hy)) hadd.inv
    refine ⟨u, ?_, hadd.trans hadd'⟩
    rw [List.foldlM_cons, ht, Option.bind_eq_bind, Option.bind_some, hu]

theorem peakOf_append (rows : List (List ℤ)) (r : List ℤ) (c : ℕ) :
    peakOf (rows ++ [r]) c = max (peakOf rows c) |(r.getD c 0 : ℚ) / 8388608| := by
  simp [peakOf]

theorem sumsqOf_append (rows : List (List ℤ)) (r : List ℤ) (c : ℕ) : sumsqOf (rows ++ [r]) c =
    sumsqOf rows c + ((r.getD c 0 : ℚ) / 8388608) * ((r.getD c 0 : ℚ) / 8388608) := by
  simp [sumsqOf]

theorem getD_frameValues (d : Region Byte) (f : ℕ) {c : ℕ} (hc : c < 6) :
    (((frameValues d f).getD c 0 : ℤ) : ℚ) / 8388608 = sampleAt d (f * 6 + c) := by
  simp [frameValues, djmt1Ch, hc, sampleAt_eq]

/-- A frame is added to what the levels and the counter are about. -/
theorem analyseFrame_adds {d : Region Byte} {s : Capture} {f : ℕ} (h : CaptureInv s)
    (hd : f * 18 + 18 ≤ d.size) :
    ∃ t, analyseFrame d s f = some t ∧ Adds [frameValues d f] [] s t := by
  refine ⟨_, analyseFrame_eq hd h.peakSize h.sumsqSize, ⟨h.hist, rfl, rfl, ?_, ?_, ?_⟩, rfl, ?_⟩
  · simp only [h.counted, List.length_append, List.length_singleton]
    exact (BitVec.ofNat_add _ 1).symm
  · intro c hc
    simp only [analysedTo, if_pos hc, peakOf_append, getD_frameValues d f hc, h.peak c hc]
  · intro c hc
    simp only [analysedTo, if_pos hc, sumsqOf_append, getD_frameValues d f hc, h.sumsq c hc]
  · simp [analysedTo]

/-- `process_packet` writes the packet and analyses its whole frames. -/
theorem processPacket_adds {s : Capture} (h : CaptureInv s) (d : Region Byte) :
    ∃ t, processPacket s d d.size = some t ∧
      Adds ((List.range (d.size / 18)).map (frameValues d)) d.toList s t := by
  have hwrite : ∃ t, writeRaw s d d.size = some t ∧ Adds [] d.toList s t := by
    have hload := Region.mapM_load (b := d) (m := 0) (n := d.size) (by omega)
    cases hr : s.rawf with
    | none => exact ⟨s, by rw [writeRaw, hr], h, by simp, by simp [hr]⟩
    | some raw =>
      refine ⟨{ s with rawf := some (raw ++ d.toList) }, ?_,
        ⟨h.hist, h.peakSize, h.sumsqSize, h.counted, h.peak, h.sumsq⟩, ?_, ?_⟩
      · simp only [writeRaw, hr, hload, Option.bind_eq_bind, Option.bind_some, Option.pure_def]
        rfl
      · simp
      · simp [hr]
  obtain ⟨t, ht, hadd⟩ := hwrite
  obtain ⟨u, hu, hadd'⟩ := foldlM_adds (l := List.range (d.size / 18))
    (fun f hf s hs => analyseFrame_adds hs (d := d) (f := f) (by
      have hlt := List.mem_range.mp hf
      have hdiv := Nat.div_mul_le_self d.size 18
      omega)) hadd.inv
  refine ⟨u, ?_, ?_⟩
  · rw [processPacket, ht, Option.bind_eq_bind, Option.bind_some]
    exact hu
  · have hnil : (List.range (d.size / 18)).flatMap (fun _ => ([] : List Byte)) = [] :=
      List.flatMap_eq_nil_iff.mpr fun _ _ => rfl
    have htotal := hadd.trans hadd'
    rwa [List.nil_append, ← List.map_eq_flatMap, hnil, List.append_nil] at htotal

/-- Every length up to `PKT_MAX` has its place in the histogram. -/
theorem countLength_defined {hist : Region (BitVec 64)} {len : ℕ} (hh : hist.size = 1025)
    (hlen : len ≤ pktInMax) : ∃ hist', countLength hist len = some hist' ∧ hist'.size = 1025 := by
  have hin : len < hist.size := by
    simp only [pktInMax] at hlen
    omega
  refine ⟨{ hist with get := Function.update hist.get len (hist.get len + 1) }, ?_, hh⟩
  rw [countLength, if_pos hlen, Region.load_eq hin, Option.bind_eq_bind, Option.bind_some,
    Region.store_eq hin]

/-- A packet adds its bytes and its frames, if it is a good one. -/
theorem cbPacket_adds {s : Capture} (h : CaptureInv s) (p : IsoPacket) :
    ∃ t, cbPacket s p = some t ∧ Adds (packetValues p) (payload p) s t := by
  by_cases hst : p.status = .completed
  · simp only [cbPacket, payload, packetValues, hst, ne_eq, not_true, if_false, if_true]
    by_cases h0 : p.data.size = 0
    · rw [if_pos h0, Region.toList, h0]
      exact ⟨s, rfl, .nil h rfl rfl⟩
    · obtain ⟨hist, hcount, hsize⟩ := countLength_defined h.hist p.le
      rw [if_neg h0, hcount, Option.bind_eq_bind, Option.bind_some]
      have hinv : CaptureInv { s with
          totalPkts := s.totalPkts + 1
          totalBytes := s.totalBytes + BitVec.ofNat 64 p.data.size
          pktlenHist := hist } :=
        ⟨hsize, h.peakSize, h.sumsqSize, h.counted, h.peak, h.sumsq⟩
      obtain ⟨t, ht, hadd⟩ := processPacket_adds hinv p.data
      exact ⟨t, ht, hadd.inv, hadd.analysed, hadd.rawf⟩
  · simp only [cbPacket, payload, packetValues, hst, ne_eq, not_false_eq_true, if_true, if_false]
    exact ⟨_, rfl, .nil ⟨h.hist, h.peakSize, h.sumsqSize, h.counted, h.peak, h.sumsq⟩ rfl rfl⟩

/-- A transfer adds what its packets add, whatever its own status is. -/
theorem cb_adds {s : Capture} (h : CaptureInv s) (x : InTransfer) (resub : Bool) :
    ∃ t, cb s x resub = some t ∧
      Adds (x.packets.flatMap packetValues) (x.packets.flatMap payload) s t := by
  have hinv : CaptureInv (if isError x.status then { s with xfrErrs := s.xfrErrs + 1 } else s) := by
    split_ifs
    · exact ⟨h.hist, h.peakSize, h.sumsqSize, h.counted, h.peak, h.sumsq⟩
    · exact h
  obtain ⟨t, ht, hadd⟩ := foldlM_adds (fun p _ s hs => cbPacket_adds hs p) hinv (l := x.packets)
  refine ⟨if resub then t else { t with inflight := t.inflight - 1 }, ?_, ?_⟩
  · rw [cb, Option.bind_eq_bind, ht, Option.bind_some]
    rfl
  · have hsame : ∀ u : Capture, u = (if isError x.status then { s with
        xfrErrs := s.xfrErrs + 1 } else s) → u.analysed = s.analysed ∧ u.rawf = s.rawf := by
      rintro u rfl
      split_ifs <;> exact ⟨rfl, rfl⟩
    obtain ⟨ha, hr⟩ := hsame _ rfl
    have ht' := hadd.inv
    split_ifs
    · exact ⟨ht', ha ▸ hadd.analysed, hr ▸ hadd.rawf⟩
    · exact ⟨⟨ht'.hist, ht'.peakSize, ht'.sumsqSize, ht'.counted, ht'.peak, ht'.sumsq⟩,
        ha ▸ hadd.analysed, hr ▸ hadd.rawf⟩

theorem captureStart_inv (inflight : ℤ) : CaptureInv (captureStart inflight) :=
  ⟨rfl, rfl, rfl, rfl, fun _ _ => rfl, fun _ _ => rfl⟩

/-- The packets of the transfers, in order. -/
def packetsOf (xs : List (InTransfer × Bool)) : List IsoPacket := xs.flatMap (·.1.packets)

/-- A sequence of transfers: the frames analysed, which the counter and the levels are
    about, and the file, are those of the packets, however these are cut into transfers. -/
theorem capture_spec (inflight : ℤ) (xs : List (InTransfer × Bool)) :
    ∃ s, capture (captureStart inflight) xs = some s ∧ CaptureInv s ∧
      s.analysed = (packetsOf xs).flatMap packetValues ∧
      s.rawf = some ((packetsOf xs).flatMap payload) := by
  obtain ⟨s, hs, hadd⟩ := foldlM_adds (l := xs) (fun x _ s h => cb_adds h x.1 x.2)
    (captureStart_inv inflight)
  refine ⟨s, hs, hadd.inv, ?_, ?_⟩
  · rw [hadd.analysed, packetsOf, List.flatMap_assoc]
    rfl
  · rw [hadd.rawf, packetsOf, List.flatMap_assoc]
    rfl

/-! ## The file in frames -/

/-- The values of 18 bytes. -/
def blockValues (b : List Byte) : List ℤ := frameValues (Region.ofList b 0) 0

/-- The file, sliced into consecutive frames. -/
def fileFrames (file : List Byte) : List (List ℤ) := (blocks 18 file).map blockValues

theorem blocks_toList (d : Region Byte) :
    blocks 18 d.toList = (List.range (d.size / 18)).map (d.block 18) := by
  rw [blocks, Region.toList, Region.length_slice]
  refine List.map_congr_left fun i hi => ?_
  have hlt := List.mem_range.mp hi
  have hdiv := Nat.div_mul_le_self d.size 18
  obtain ⟨rest, hrest⟩ : ∃ rest, d.size = i * 18 + (18 + rest) := ⟨d.size - (i * 18 + 18), by omega⟩
  have hlen := Region.length_slice d 0 (i * 18)
  rw [hrest, Region.slice_add, Region.slice_add, List.drop_left' hlen, Nat.zero_add,
    List.take_left' (Region.length_slice d _ _), Region.block]

theorem blockValues_block (d : Region Byte) (f : ℕ) :
    blockValues (d.block 18 f) = frameValues d f := by
  refine List.map_congr_left fun c hc => ?_
  have hc' : c < 6 := List.mem_range.mp hc
  have hget : ∀ j < 18, (Region.ofList (d.block 18 f) 0).get j = d.get (f * 18 + j) := by
    intro j hj
    simp [Region.ofList, Region.block, Region.slice, hj]
  have hplace : f * 18 + c * 3 = (f * djmt1Ch + c) * 3 := by
    simp only [djmt1Ch]
    ring
  rw [Nat.zero_mul, Nat.zero_add, sampleValue, sampleValue, hget _ (by omega), hget _ (by omega),
    hget _ (by omega), ← Nat.add_assoc, ← Nat.add_assoc, hplace]

/-- Frames of the same values are the same bytes. -/
theorem blockValues_inj {b b' : List Byte} (hb : b.length = 18) (hb' : b'.length = 18)
    (h : blockValues b = blockValues b') : b = b' := by
  have hblocks : ∀ k < 6, (Region.ofList b 0).block 3 k = (Region.ofList b' 0).block 3 k := by
    intro k hk
    rw [blockValues, blockValues, frameValues, frameValues, List.map_inj_left] at h
    have hval := h k (List.mem_range.mpr hk)
    rw [Nat.zero_mul, Nat.zero_add] at hval
    exact block_eq_iff.mpr hval
  have hslice : ∀ l : List Byte, l.length = 18 → (Region.ofList l 0).slice 0 (6 * 3) = l := by
    intro l hl
    have hlist := Region.toList_ofList l 0
    rwa [Region.toList, Region.size_ofList, hl] at hlist
  have heq := (Region.slice_eq_flatMap (n := 6) fun k => Region.length_block _ 3 k).mpr hblocks
  rwa [hslice b hb, ← (Region.slice_eq_flatMap (n := 6) fun k =>
    Region.length_block (Region.ofList b' 0) 3 k).mpr fun k _ => rfl, hslice b' hb'] at heq

/-- The frames of a packet are those of its bytes. -/
theorem packetValues_eq (p : IsoPacket) : packetValues p = fileFrames (payload p) := by
  unfold packetValues payload
  split_ifs with hst
  · rw [fileFrames, blocks_toList, List.map_map]
    exact List.map_congr_left fun f _ => (blockValues_block p.data f).symm
  · rfl

/-- Two lists of 18-byte blocks of the same values are the same. -/
theorem map_blockValues_inj {l m : List (List Byte)} (hl : ∀ b ∈ l, b.length = 18)
    (hm : ∀ b ∈ m, b.length = 18) (h : l.map blockValues = m.map blockValues) : l = m := by
  induction l generalizing m with
  | nil => exact (List.map_eq_nil_iff.mp h.symm).symm
  | cons b l ih =>
    cases m with
    | nil => exact absurd h (List.cons_ne_nil _ _)
    | cons b' m =>
      obtain ⟨hhead, htail⟩ := List.cons.inj h
      rw [blockValues_inj (hl b List.mem_cons_self) (hm b' List.mem_cons_self) hhead,
        ih (fun c hc => hl c (List.mem_cons_of_mem b hc))
          (fun c hc => hm c (List.mem_cons_of_mem b' hc)) htail]

/-- No packet comes out of line: the whole frames of every good packet repeat the bytes left
    over before it, and the bytes left over make no frame. -/
def InLine (ps : List IsoPacket) : Prop :=
  Aligned 18 [] (ps.map payload) ∧ (ps.map fun p => (payload p).length % 18).sum < 18

theorem fileFrames_iff (ps : List IsoPacket) :
    fileFrames (ps.flatMap payload) = ps.flatMap packetValues ↔ InLine ps := by
  have hrows : ps.flatMap packetValues =
      ((ps.map payload).flatMap (blocks 18)).map blockValues := by
    rw [List.map_flatMap, List.flatMap_map]
    exact List.flatMap_congr fun p _ => packetValues_eq p
  have hlen : ∀ b ∈ (ps.map payload).flatMap (blocks 18), b.length = 18 := by
    intro b hb
    obtain ⟨_, _, hb⟩ := List.mem_flatMap.mp hb
    exact length_of_mem_blocks hb
  have hleft : (ps.map fun p => (payload p).length % 18) =
      (ps.map payload).map fun l => l.length % 18 := by
    rw [List.map_map]
    rfl
  rw [InLine, hleft, ← blocks_flatten_iff (by decide), hrows, fileFrames, List.flatMap_def]
  constructor
  · exact map_blockValues_inj (fun b hb => length_of_mem_blocks hb) hlen
  · intro h
    rw [h]

/-- Packets of whole frames are in line. -/
theorem inLine_of_whole {ps : List IsoPacket}
    (h : ∀ p ∈ ps, p.status = .completed → 18 ∣ p.data.size) : InLine ps := by
  have hdvd : ∀ p ∈ ps, 18 ∣ (payload p).length := by
    intro p hp
    unfold payload
    split_ifs with hst
    · rw [Region.toList, Region.length_slice]
      exact h p hp hst
    · exact dvd_zero 18
  constructor
  · apply aligned_of_dvd
    intro l hl
    obtain ⟨p, hp, rfl⟩ := List.mem_map.mp hl
    exact hdvd p hp
  · have hzero : (ps.map fun p => (payload p).length % 18).sum = 0 := by
      apply List.sum_eq_zero
      intro k hk
      obtain ⟨p, hp, rfl⟩ := List.mem_map.mp hk
      exact Nat.mod_eq_zero_of_dvd (hdvd p hp)
    omega

/-! ## The engine -/

/-- The frames of a packet, up to the scale. -/
theorem decodedFrames_eq (d : Region Byte) (n : ℕ) : decodedFrames d n =
    ((List.range n).map (frameValues d)).map (List.map fun v : ℤ => (v : ℚ) / 8388608) := by
  simp only [decodedFrames, List.map_map]
  rfl

/-- The engine puts into its capture ring the values of the packets, up to the scale, if the
    ring has room for all of them. -/
theorem engine_frames {ringFrames : ℤ} (h0 : 0 ≤ ringFrames) (hs : (ringFrames + 1) * 6 < 2 ^ 31)
    {e : EngineState} (h : (engineMachine ringFrames).Reach e) (hdone : e.ev.pending = [])
    (hfits : ∀ r ∈ e.log.packets, r.short = false) :
    ∃ q, RingInv e.capRing q ∧ e.log.returned ++ q =
      (e.log.arrived.flatMap packetValues).map (List.map fun v : ℤ => (v : ℚ) / 8388608) := by
  have hinv := engine_inv h0 hs h
  obtain ⟨q, hq, hret⟩ := hinv.cap.queue
  refine ⟨q, hq, ?_⟩
  rw [hret, ← engine_arrived h, hdone, List.append_nil, List.flatMap_map, List.map_flatMap]
  refine List.flatMap_congr fun r hr => ?_
  have hok := hinv.cap.recs r hr
  rw [hok.put_eq]
  unfold PacketRec.expected packetValues
  split_ifs with hst
  · have hwhole := hok.whole hst (hfits r hr)
    obtain ⟨_, hwrote⟩ := hok
    rw [if_pos hst] at hwrote
    have hall : (min (r.packet.nf : ℤ) r.room).toNat = r.packet.nf := by omega
    rw [hall, decodedFrames_eq, IsoPacket.nf]
  · rfl

/-! ## Agreement -/

/-- The file holds the frames analysed, which are those that `frames` and the levels count;
    and they are the frames of the engine, up to the scale. -/
structure RawAgrees (ps : List IsoPacket) (s : Capture) : Prop where
  file : s.rawf.map fileFrames = some s.analysed
  counted : CaptureInv s
  engine : ∀ (ringFrames : ℤ) (e : EngineState), 0 ≤ ringFrames → (ringFrames + 1) * 6 < 2 ^ 31 →
    (engineMachine ringFrames).Reach e → e.log.arrived = ps → e.ev.pending = [] →
    (∀ r ∈ e.log.packets, r.short = false) →
    ∃ q, RingInv e.capRing q ∧
      e.log.returned ++ q = s.analysed.map (List.map fun v : ℤ => (v : ℚ) / 8388608)

/-- A packet of a frame and a byte, and a packet of a frame. -/
def oddRun : List (InTransfer × Bool) :=
  [(⟨.completed, [
    ⟨.completed, Region.ofList ((List.range 19).map (BitVec.ofNat 8)) 0, by decide⟩,
    ⟨.completed, Region.ofList ((List.range 18).map (BitVec.ofNat 8)) 0, by decide⟩]⟩, true)]

/-- The second frame of the file begins with the odd byte. -/
theorem raw_file_rotates : ∃ s, capture (captureStart 8) oddRun = some s ∧
    ¬ RawAgrees (packetsOf oddRun) s := by
  obtain ⟨s, hs, _, hrows, hraw⟩ := capture_spec 8 oddRun
  refine ⟨s, hs, fun h => ?_⟩
  have hfile := h.file
  rw [hrows, hraw] at hfile
  have hrotated : fileFrames ((packetsOf oddRun).flatMap payload) ≠
      (packetsOf oddRun).flatMap packetValues := by decide +kernel
  exact hrotated (Option.some.inj hfile)

/-- **The raw capture file.** For every sequence of transfers the program is defined, and
    the file, the frames analysed and the frames of the engine agree exactly if no packet
    comes out of line. -/
theorem raw_file_agrees (inflight : ℤ) (xs : List (InTransfer × Bool)) :
    ∃ s, capture (captureStart inflight) xs = some s ∧
      (RawAgrees (packetsOf xs) s ↔ InLine (packetsOf xs)) := by
  obtain ⟨s, hs, hinv, hrows, hraw⟩ := capture_spec inflight xs
  refine ⟨s, hs, ?_⟩
  constructor
  · intro h
    have hfile := h.file
    rw [hrows, hraw] at hfile
    exact (fileFrames_iff _).mp (Option.some.inj hfile)
  · intro h
    refine ⟨?_, hinv, ?_⟩
    · rw [hrows, hraw]
      exact congrArg some ((fileFrames_iff _).mpr h)
    · intro ringFrames e h0 hsize hreach harr hdone hfits
      rw [hrows, ← harr]
      exact engine_frames h0 hsize hreach hdone hfits

end DjmT1.Audio
