import DjmT1.Kernel.Accounting
import DjmT1.Kernel.Handlers
import DjmT1.Lib.Latest

/-!
# What is in the PCM ring

Frames come and go in packets of up to 48, eight packets a URB, while the PCM ring has
any size that `djmt1_hw` admits. An observer writes down the frames that the USB core
has delivered (capture), and what each packet was filled with (playback).

* `capture_inv`: every slot of the ring holds the latest frame that belongs to it, or
  what it held when the stream was prepared.
* `playback_inv`: the `j`-th frame played is what slot `j % B` held when its packet was
  filled, at its place in the packet.
* `ring_contents`: both, and that nothing else is written.
-/

namespace DjmT1.Kernel

open DjmT1.Lib

variable {hw : HwParams} {d : Dir} {s t : Stream}

/-! ## Capture -/

/-- What the USB core has delivered. -/
structure Received where
  /-- the ring when the stream was prepared, or when the application last wrote to it -/
  base : Region Byte
  /-- how many frames had been received then -/
  since : ℕ
  /-- what the USB core reported of the URB that completed last -/
  report : Option UrbResult
  /-- the frames received since the stream was prepared -/
  frames : List (List Byte)

/-- The whole frames of packet `i`, none if its status is bad. -/
def UrbResult.frames (r : UrbResult) (i : ℕ) : List (List Byte) :=
  if r.packetStatus i = 0 then
    (List.range (r.actualLength i / frameBytes)).map fun q =>
      r.data.slice (i * pktBytes + q * frameBytes) frameBytes
  else []

/-- The handler of the URB comes to packet `i`. -/
def Received.packet (g : Received) (i : ℕ) : Received :=
  match g.report with
  | some r => { g with frames := g.frames ++ r.frames i }
  | none => g

/-- What has been received after a step from `s` to `t`. -/
def Received.next (g : Received) (s : Stream) (l : StreamLabel) (t : Stream) : Received :=
  match l with
  | .prepare => { base := t.pcm.dma, since := 0, report := g.report, frames := [] }
  | .app _ => { g with base := t.pcm.dma, since := g.frames.length }
  | .complete _ r => { g with report := some r }
  | .handler _ =>
    match s.handler with
    | .packet _ i => if i < npkt then g.packet i else g
    | .none | .test _ | .resubmit _ | .submit _ => g
  | .start | .stop | .trigger _ => g

/-- The capture stream, and what it has received. -/
def captureMachine (hw : HwParams) : Machine (Stream × Received) StreamLabel :=
  (streamMachine hw .capture).observe (fun s => ⟨s.pcm.dma, 0, none, []⟩) Received.next

/-- The URB whose handler is executing is as the USB core reported it. -/
def Received.Reports (g : Received) (s : Stream) : Prop :=
  ∀ u, s.handler.current = some u → ∃ r, g.report = some r ∧ (s.urb u).transferBuffer = r.data ∧
    ∀ i, ((s.urb u).isoFrameDesc i).actualLength = r.actualLength i ∧
      ((s.urb u).isoFrameDesc i).status = r.packetStatus i

/-- The frames received have been moved, and the ring holds the latest. -/
structure CaptureInv (hw : HwParams) (s : Stream) (g : Received) : Prop where
  frames : g.frames = s.log.moved
  since : g.since ≤ g.frames.length
  latest : Latest hw.bufferSize g.since (g.base.block frameBytes) (s.pcm.dma.block frameBytes)
    g.frames
  report : g.Reports s

/-- `djmt1_transfer` writes the frames of a packet to their slots. -/
theorem transferStep_capture (hinv : StreamInv hw .capture s) {u : Fin nurb} {p n : ℕ}
    (hn : n ≤ 48) (hp : p + n ≤ 384) {since : ℕ} {base : ℕ → List Byte}
    (hlatest : Latest hw.bufferSize since base (s.pcm.dma.block frameBytes) s.log.moved)
    (hsince : since ≤ s.log.moved.length)
    (ht : transferStep hw .capture s u (p * frameBytes) n = some t) :
    t.urb = s.urb ∧
      t.log.moved = s.log.moved ++
        (List.range n).map (fun i => (s.urb u).transferBuffer.block frameBytes (p + i)) ∧
      Latest hw.bufferSize since base (t.pcm.dma.block frameBytes) t.log.moved := by
  obtain ⟨⟨dma, buf⟩, htr, _, _, hbuf, hring⟩ := djmt1Transfer_rule true hinv.pcmOk hn
    ((hinv.urb u).fits hp)
    (fun n m => m.2 = (s.urb u).transferBuffer ∧
      Latest hw.bufferSize since base (m.1.block frameBytes) (s.log.moved ++
        (List.range n).map fun i => (s.urb u).transferBuffer.block frameBytes (p + i)))
    ⟨rfl, by simpa using hlatest⟩ (by
      rintro i _ m m' ⟨hbuf, hring⟩ ⟨hbuf', hself, hne⟩
      refine ⟨hbuf'.trans hbuf, ?_⟩
      have hslot : (s.pcm.hwptr + i) % hw.bufferSize = (s.log.moved ++ (List.range i).map fun i =>
          (s.urb u).transferBuffer.block frameBytes (p + i)).length % hw.bufferSize := by
        rw [hinv.hwptr, Nat.mod_add_mod, List.length_append, List.length_map, List.length_range]
      rw [hslot] at hself hne
      rw [List.range_succ, List.map_append, ← List.append_assoc, List.map_singleton, ← hbuf]
      rw [← hbuf] at hring hself hne
      exact hring.push (hsince.trans (by simp)) hself hne)
  subst hbuf
  simp only [transferStep, Dir.isCapture, Option.bind_eq_bind, htr, Option.bind_some,
    Option.pure_def] at ht
  obtain rfl := Option.some.inj ht
  have hslice : ∀ i, (s.urb u).transferBuffer.slice (p * frameBytes + i * frameBytes) frameBytes =
      (s.urb u).transferBuffer.block frameBytes (p + i) := by
    intro i
    rw [← Nat.add_mul]
    rfl
  refine ⟨Function.update_eq_self u s.urb, ?_, ?_⟩
  · simp only [hslice]
  · simp only [hslice]
    exact hring

/-- The frames of a packet lie back to back. -/
theorem UrbResult.frames_eq {r : UrbResult} {i : ℕ} (h : r.packetStatus i = 0) :
    r.frames i = (List.range (r.actualLength i / frameBytes)).map
      fun q => r.data.block frameBytes (i * 48 + q) := by
  rw [UrbResult.frames, if_pos h]
  apply List.map_congr_left
  intro q _
  rw [pkt_offset, ← Nat.add_mul]
  rfl

/-- A packet that is passed over brings no frame. -/
theorem UrbResult.frames_skip {r : UrbResult} {i : ℕ}
    (h : r.packetStatus i ≠ 0 ∨ r.actualLength i < frameBytes) : r.frames i = [] := by
  unfold UrbResult.frames
  split_ifs with hst
  · rcases h with h | h
    · exact absurd hst h
    · rw [Nat.div_eq_of_lt h]
      rfl
  · rfl

/-- The handler goes on with the same URB, or ends. -/
theorem Received.Reports.mono {g : Received} (h : g.Reports s)
    (ht : ∀ u, t.handler.current = some u → s.handler.current = some u ∧
      (t.urb u).transferBuffer = (s.urb u).transferBuffer ∧
      ∀ i, ((t.urb u).isoFrameDesc i).actualLength = ((s.urb u).isoFrameDesc i).actualLength ∧
        ((t.urb u).isoFrameDesc i).status = ((s.urb u).isoFrameDesc i).status) : g.Reports t := by
  intro u hu
  obtain ⟨hcur, hbuf, hdesc⟩ := ht u hu
  obtain ⟨r, hr, hdata, hrep⟩ := h u hcur
  refine ⟨r, hr, hbuf.trans hdata, fun i => ?_⟩
  exact ⟨(hdesc i).1.trans (hrep i).1, (hdesc i).2.trans (hrep i).2⟩

/-- The handler goes on, and the URBs stay as they are. -/
theorem Received.Reports.goto {g : Received} (h : g.Reports s) (hurb : t.urb = s.urb)
    (ht : ∀ u, t.handler.current = some u → s.handler.current = some u) : g.Reports t := by
  refine h.mono fun u hu => ⟨ht u hu, ?_⟩
  rw [hurb]
  exact ⟨rfl, fun i => ⟨rfl, rfl⟩⟩

/-- A step that moves nothing. -/
theorem CaptureInv.congr {g : Received} (h : CaptureInv hw s g) (hpcm : t.pcm = s.pcm)
    (hlog : t.log = s.log) (hrep : g.Reports t) : CaptureInv hw t g := by
  refine ⟨?_, h.since, ?_, hrep⟩
  · rw [hlog]
    exact h.frames
  · rw [hpcm]
    exact h.latest

/-- The handler goes on with the same URB or ends, and moves nothing. -/
theorem CaptureInv.goto {g : Received} {pc : HandlerPc} (h : CaptureInv hw s g)
    (hpc : ∀ u, pc.current = some u → s.handler.current = some u) :
    CaptureInv hw { s with handler := pc } g :=
  h.congr rfl rfl (h.report.goto rfl hpc)

/-- Getting a URB ready again leaves what the USB core reported of it. -/
theorem Received.Reports.reset {g : Received} {u : Fin nurb} (h : g.Reports s)
    (hcur : s.handler.current = some u) :
    g.Reports { s with
      urb := Function.update s.urb u (s.urb u).resetPackets, handler := .submit u } := by
  refine h.mono fun v hv => ?_
  obtain rfl : u = v := Option.some.inj hv
  refine ⟨hcur, ?_⟩
  simp only [Function.update_self]
  refine ⟨rfl, fun i => ?_⟩
  simp only [Urb.resetPackets, resetDesc]
  split_ifs
  · exact ⟨rfl, rfl⟩
  · exact ⟨rfl, rfl⟩

/-- Nothing is received with a packet that the handler passes over. -/
theorem Received.packet_skip {g : Received} {u : Fin nurb} {i : ℕ} (h : g.Reports s)
    (hcur : s.handler.current = some u) (hskip : (s.urb u).Skips i) : g.packet i = g := by
  obtain ⟨r, hr, _, hrep⟩ := h u hcur
  have hnone : r.frames i = [] := by
    apply UrbResult.frames_skip
    rw [← (hrep i).1, ← (hrep i).2]
    exact hskip
  rw [Received.packet, hr]
  simp only [hnone, List.append_nil, ← hr]

/-- The frames of a packet are moved when they are received. -/
theorem CaptureInv.transfer {g : Received} {u : Fin nurb} {i : ℕ} (h : CaptureInv hw s g)
    (hinv : StreamInv hw .capture s) (hcur : s.handler.current = some u) (hi : i < npkt)
    (hskip : ¬ (s.urb u).Skips i)
    (ht : transferStep hw .capture s u ((s.urb u).isoFrameDesc i).offset
      ((s.urb u).packetFrames i) = some t) :
    CaptureInv hw { t with handler := .packet u (i + 1) } (g.packet i) := by
  obtain ⟨r, hr, hdata, hrep⟩ := h.report u hcur
  have hst0 : ((s.urb u).isoFrameDesc i).status = 0 := not_not.mp (not_or.mp hskip).1
  have hn := (hinv.urb u).packetFrames_le hi
  have hp := pkt_fits hi
  have hlatest := h.latest
  have hsince := h.since
  rw [h.frames] at hlatest hsince
  rw [((hinv.urb u).desc i hi).1, pkt_offset] at ht
  obtain ⟨hurb, hmoved, hring⟩ := transferStep_capture hinv hn (by omega) hlatest hsince ht
  have hframes : g.frames ++ r.frames i = t.log.moved := by
    rw [hmoved, h.frames, UrbResult.frames_eq (by rw [← (hrep i).2, hst0]), ← (hrep i).1, ← hdata]
    rfl
  have hnext : g.packet i = { g with frames := t.log.moved } := by
    rw [Received.packet, hr, ← hframes]
  rw [hnext]
  refine ⟨rfl, ?_, hring, ?_⟩
  · rw [hmoved, List.length_append]
    exact Nat.le_add_right_of_le hsince
  · refine Received.Reports.goto (s := s) (g := { g with frames := t.log.moved }) h.report hurb ?_
    intro v hv
    rw [hcur]
    exact hv

/-- A step of `djmt1_in_complete`. -/
theorem CaptureInv.handler {g : Received} {ok : Bool} (h : CaptureInv hw s g)
    (hinv : StreamInv hw .capture s) (hst : inComplete hw s ok = some t) :
    CaptureInv hw t (g.next s (.handler ok) t) := by
  cases inComplete_move hst with
  | leave hh | enter hh =>
    simp only [Received.next, hh]
    apply h.goto
    intro u hu
    rw [hh]
    exact hu
  | @skip u i hh hi hskip =>
    have hcur : s.handler.current = some u := by rw [hh]; rfl
    simp only [Received.next, hh, if_pos hi, Received.packet_skip h.report hcur hskip]
    apply h.goto
    intro v hv
    rw [hcur]
    exact hv
  | @transfer u i t hh hi hskip ht =>
    simp only [Received.next, hh, if_pos hi]
    exact h.transfer hinv (by rw [hh]; rfl) hi hskip ht
  | @finish u i hh hi =>
    simp only [Received.next, hh, if_neg (not_lt.mpr hi)]
    apply h.goto
    intro v hv
    rw [hh]
    exact hv
  | @reset u hh =>
    simp only [Received.next, hh]
    exact h.congr rfl rfl (h.report.reset (by rw [hh]; rfl))
  | stop hh =>
    simp only [Received.next, hh]
    exact h.goto fun v hv => absurd hv (by simp [HandlerPc.current])
  | @submit u hh =>
    simp only [Received.next, hh]
    rw [usbSubmitUrb_frame]
    exact h.congr rfl rfl (h.report.goto rfl fun v hv => absurd hv (by simp [HandlerPc.current]))

/-- Every step keeps the ring and what has been received together. -/
theorem CaptureInv.step {g : Received} {l : StreamLabel} (h : CaptureInv hw s g)
    (hinv : StreamInv hw .capture s) (hst : (streamMachine hw .capture).Step s l t) :
    CaptureInv hw t (g.next s l t) := by
  obtain ⟨hen, hst⟩ := hst
  cases l with
  | prepare =>
    obtain rfl := Option.some.inj hst
    exact ⟨rfl, le_rfl, Latest.refl _ _ [], h.report⟩
  | start =>
    obtain rfl := Option.some.inj hst
    exact h.congr rfl rfl h.report
  | stop =>
    obtain rfl := Option.some.inj hst
    exact h.congr rfl rfl h.report
  | app dma =>
    obtain rfl := Option.some.inj hst
    exact ⟨h.frames, le_rfl, Latest.refl _ _ _, h.report⟩
  | handler ok => exact h.handler hinv hst
  | complete u r =>
    obtain rfl := Option.some.inj hst
    refine ⟨h.frames, h.since, h.latest, ?_⟩
    intro v hv
    obtain rfl : u = v := Option.some.inj hv
    refine ⟨r, rfl, ?_⟩
    simp only [Function.update_self]
    exact ⟨rfl, fun i => ⟨rfl, rfl⟩⟩
  | trigger ok =>
    rcases triggerStep_cases hst with ⟨_, rfl⟩ | ⟨u, rest, _, rfl⟩ | ⟨u, rest, _, rfl⟩
    · exact h.congr rfl rfl h.report
    · exact h.congr rfl rfl h.report
    · exact h.congr rfl rfl h.report

theorem capture_inv {e : Stream × Received} (h : (captureMachine hw).Reach e) :
    CaptureInv hw e.1 e.2 := by
  refine Machine.ReachIf.observe (C := fun _ _ _ => True) (I := CaptureInv hw) h ?_ ?_
  · rintro s ⟨dma, _, rfl⟩
    refine ⟨rfl, le_rfl, Latest.refl _ _ [], ?_⟩
    intro u hu
    exact absurd hu (by simp [probedStream, HandlerPc.current])
  · intro s l t g hr hI hst _
    exact hI.step (stream_inv hr) hst

/-! ## Playback -/

/-- A packet that `djmt1_out_complete` has filled. -/
structure Placed where
  urb : Fin nurb
  packet : ℕ
  /-- the PCM ring when it did -/
  ring : Region Byte
  /-- the buffer of the URB afterwards -/
  buffer : Region Byte

/-- What has been placed after a step from `s` to `t`. -/
def Placed.next (g : List Placed) (s : Stream) (l : StreamLabel) (t : Stream) : List Placed :=
  match l with
  | .prepare => []
  | .handler _ =>
    match s.handler with
    | .packet u i => if i < npkt then g ++ [⟨u, i, s.pcm.dma, (t.urb u).transferBuffer⟩] else g
    | .none | .test _ | .resubmit _ | .submit _ => g
  | .start | .stop | .trigger _ | .complete _ _ | .app _ => g

/-- The playback stream, and the packets it has filled since it was prepared. -/
def playbackMachine (hw : HwParams) : Machine (Stream × List Placed) StreamLabel :=
  (streamMachine hw .playback).observe (fun _ => []) Placed.next

/-- Frame `q` of the packet. -/
def Placed.frame (x : Placed) (q : ℕ) : List Byte :=
  x.buffer.slice (x.packet * pktBytes + frameBytes * q) frameBytes

/-- `y` is filled next after `x`: the next packet of the same URB, or the first one of
    another. -/
def Placed.Before (x y : Placed) : Prop :=
  if x.packet + 1 < npkt then y.urb = x.urb ∧ y.packet = x.packet + 1 else y.packet = 0

/-- The packet that was filled last is the one before the one the handler is at. -/
def Placed.Last (x : Placed) (pc : HandlerPc) : Prop :=
  match pc with
  | .packet u i => (i = 0 ∧ x.packet + 1 = npkt) ∨ (x.urb = u ∧ x.packet + 1 = i)
  | .none | .test _ | .resubmit _ | .submit _ => x.packet + 1 = npkt

/-- The packets filled hold the frames of the ring in order. -/
structure PlaybackInv (hw : HwParams) (s : Stream) (g : List Placed) : Prop where
  count : s.log.moved.length = 48 * g.length
  frames : ∀ m (hm : m < g.length), ∀ q < 48,
    g[m].frame q = g[m].ring.block frameBytes ((48 * m + q) % hw.bufferSize)
  packet : ∀ x ∈ g, x.packet < npkt
  chain : g.IsChain Placed.Before
  last : ∀ x ∈ g.getLast?, x.Last s.handler

/-- `djmt1_transfer` fills a packet from the slots at `hwptr`, and writes nothing else. -/
theorem transferStep_playback (hinv : StreamInv hw .playback s) {u : Fin nurb} {p : ℕ}
    (hp : p + 48 ≤ 384)
    (ht : transferStep hw .playback s u (p * frameBytes) framesPerPkt = some t) :
    t.pcm.dma = s.pcm.dma ∧ t.log.moved.length = s.log.moved.length + 48 ∧
      (∀ v, v ≠ u → t.urb v = s.urb v) ∧
      (∀ q < 48, (t.urb u).transferBuffer.block frameBytes (p + q) =
        s.pcm.dma.block frameBytes ((s.log.moved.length + q) % hw.bufferSize)) ∧
      ∀ j, ¬ (p ≤ j ∧ j < p + 48) →
        (t.urb u).transferBuffer.block frameBytes j =
          (s.urb u).transferBuffer.block frameBytes j := by
  obtain ⟨dma, buf, htr, _, _, hdma, hself, hrest⟩ :=
    djmt1Transfer_spec false hinv.pcmOk le_rfl ((hinv.urb u).fits hp)
  rw [show framesPerPkt = 48 from rfl] at ht
  simp only [transferStep, Dir.isCapture, Option.bind_eq_bind, htr, Option.bind_some,
    Option.pure_def] at ht
  obtain rfl := Option.some.inj ht
  refine ⟨hdma, by simp, fun v hv => Function.update_of_ne hv _ _, ?_, ?_⟩
  · intro q hq
    simp only [Function.update_self]
    rw [hself q hq, hinv.hwptr, Nat.mod_add_mod]
  · intro j hj
    simp only [Function.update_self]
    exact hrest j hj

theorem Placed.frame_eq (x : Placed) (q : ℕ) :
    x.frame q = x.buffer.block frameBytes (x.packet * 48 + q) := by
  rw [Placed.frame, pkt_offset, Nat.mul_comm frameBytes q, ← Nat.add_mul]
  rfl

/-- A step that fills no packet, after which the handler is where the last packet
    leaves it. -/
theorem PlaybackInv.congr {g : List Placed} (h : PlaybackInv hw s g) (hlog : t.log = s.log)
    (hpc : ∀ x : Placed, x.packet < npkt → x.Last s.handler → x.Last t.handler) :
    PlaybackInv hw t g := by
  refine ⟨?_, h.frames, h.packet, h.chain, fun x hx => ?_⟩
  · rw [hlog]
    exact h.count
  · exact hpc x (h.packet x (List.mem_of_mem_getLast? hx)) (h.last x hx)

/-- A packet is filled. -/
theorem PlaybackInv.place {g : List Placed} {y : Placed} (h : PlaybackInv hw s g)
    (hlen : t.log.moved.length = s.log.moved.length + 48)
    (hframes : ∀ q < 48,
      y.frame q = y.ring.block frameBytes ((s.log.moved.length + q) % hw.bufferSize))
    (hpacket : y.packet < npkt) (hbefore : ∀ x ∈ g.getLast?, x.Before y)
    (hlast : y.Last t.handler) : PlaybackInv hw t (g ++ [y]) := by
  refine ⟨?_, ?_, ?_, ?_, ?_⟩
  · rw [hlen, h.count, List.length_append, List.length_singleton]
    ring
  · intro m hm q hq
    rw [List.length_append, List.length_singleton] at hm
    by_cases hmg : m < g.length
    · rw [List.getElem_append_left hmg]
      exact h.frames m hmg q hq
    · obtain rfl : m = g.length := by omega
      rw [List.getElem_concat_length rfl, hframes q hq, h.count]
  · intro x hx
    rcases List.mem_append.mp hx with hx | hx
    · exact h.packet x hx
    · rw [List.mem_singleton.mp hx]
      exact hpacket
  · rw [List.isChain_append]
    refine ⟨h.chain, List.isChain_singleton y, fun x hx z hz => ?_⟩
    obtain rfl : y = z := Option.some.inj hz
    exact hbefore x hx
  · intro x hx
    rw [List.getLast?_concat] at hx
    obtain rfl : y = x := Option.some.inj hx
    exact hlast

/-- A step of `djmt1_out_complete`. -/
theorem PlaybackInv.handler {g : List Placed} {ok : Bool} (h : PlaybackInv hw s g)
    (hinv : StreamInv hw .playback s) (hst : outComplete hw s ok = some t) :
    PlaybackInv hw t (Placed.next g s (.handler ok) t) := by
  cases outComplete_move hst with
  | leave hh =>
    simp only [Placed.next, hh]
    refine h.congr rfl fun x _ hx => ?_
    rw [hh] at hx
    exact hx
  | enter hh =>
    simp only [Placed.next, hh]
    refine h.congr rfl fun x _ hx => .inl ⟨rfl, ?_⟩
    rw [hh] at hx
    exact hx
  | @transfer u i t hh hi ht =>
    rw [pkt_offset] at ht
    obtain ⟨_, hlen, _, hself, _⟩ := transferStep_playback (hinv.resetPacket u i) (pkt_fits hi) ht
    simp only [Placed.next, hh, if_pos hi]
    refine h.place hlen (fun q hq => ?_) hi (fun x hx => ?_) (.inr ⟨rfl, rfl⟩)
    · rw [Placed.frame_eq]
      exact hself q hq
    · have hlast := h.last x hx
      rw [hh] at hlast
      unfold Placed.Before
      rcases hlast with ⟨rfl, hx8⟩ | ⟨hxu, hxi⟩
      · rw [if_neg (by omega)]
      · rw [if_pos (by omega)]
        exact ⟨hxu.symm, hxi.symm⟩
  | @finish u i hh hi =>
    simp only [Placed.next, hh, if_neg (not_lt.mpr hi)]
    refine h.congr rfl fun x hx8 hx => ?_
    rw [hh] at hx
    change x.packet + 1 = npkt
    rcases hx with ⟨_, hx⟩ | ⟨_, hx⟩
    · exact hx
    · omega
  | @submit u hh =>
    simp only [Placed.next, hh]
    rw [usbSubmitUrb_frame]
    refine h.congr rfl fun x _ hx => ?_
    rw [hh] at hx
    exact hx

/-- Every step keeps the packets filled and the frames moved together. -/
theorem PlaybackInv.step {g : List Placed} {l : StreamLabel} (h : PlaybackInv hw s g)
    (hinv : StreamInv hw .playback s) (hst : (streamMachine hw .playback).Step s l t) :
    PlaybackInv hw t (Placed.next g s l t) := by
  obtain ⟨hen, hst⟩ := hst
  cases l with
  | prepare =>
    obtain rfl := Option.some.inj hst
    exact ⟨rfl, fun m hm => absurd hm (Nat.not_lt_zero m), fun x hx => absurd hx List.not_mem_nil,
      List.isChain_nil, fun x hx => absurd hx (by simp [Placed.next])⟩
  | start | stop | app =>
    obtain rfl := Option.some.inj hst
    exact h.congr rfl fun x _ hx => hx
  | handler ok => exact h.handler hinv hst
  | complete u r =>
    obtain rfl := Option.some.inj hst
    refine h.congr rfl fun x _ hx => ?_
    rw [hen.2.1] at hx
    exact hx
  | trigger ok =>
    rcases triggerStep_cases hst with ⟨_, rfl⟩ | ⟨u, rest, _, rfl⟩ | ⟨u, rest, _, rfl⟩
    · exact h.congr rfl fun x _ hx => hx
    · exact h.congr rfl fun x _ hx => hx
    · exact h.congr rfl fun x _ hx => hx

theorem playback_inv {e : Stream × List Placed} (h : (playbackMachine hw).Reach e) :
    PlaybackInv hw e.1 e.2 := by
  refine Machine.ReachIf.observe (C := fun _ _ _ => True) (I := PlaybackInv hw) h ?_ ?_
  · rintro s ⟨dma, _, rfl⟩
    exact ⟨rfl, fun m hm => absurd hm (Nat.not_lt_zero m), fun x hx => absurd hx List.not_mem_nil,
      List.isChain_nil, fun x hx => absurd hx (by simp)⟩
  · intro s l t g hr hI hst _
    exact hI.step (stream_inv hr) hst

/-! ## Nothing else is written -/

/-- `djmt1_in_complete` leaves the URB buffers alone. -/
theorem inComplete_writes {ok : Bool} (hinv : StreamInv hw .capture s)
    (hst : inComplete hw s ok = some t) (v : Fin nurb) :
    (t.urb v).transferBuffer = (s.urb v).transferBuffer := by
  cases inComplete_move hst with
  | leave | enter | skip | finish | stop => rfl
  | @transfer u i t hh hi hskip ht =>
    obtain ⟨hoff, _⟩ := (hinv.urb u).desc i hi
    have hn := (hinv.urb u).packetFrames_le hi
    rw [hoff, pkt_offset] at ht
    have hp := pkt_fits hi
    obtain ⟨hurb, _⟩ := transferStep_capture hinv hn (by omega) (Latest.refl _ _ _) le_rfl ht
    change (t.urb v).transferBuffer = _
    rw [hurb]
  | @reset u hh =>
    by_cases hv : v = u
    · subst hv
      simp only [Function.update_self]
      rfl
    · simp only [Function.update_of_ne hv]
  | submit => rw [usbSubmitUrb_frame]

/-- `djmt1_out_complete` leaves the ring alone, and the URB buffers but for the packet it
    is at. -/
theorem outComplete_writes {ok : Bool} (hinv : StreamInv hw .playback s)
    (hst : outComplete hw s ok = some t) :
    t.pcm.dma = s.pcm.dma ∧ ∀ v b,
      (t.urb v).transferBuffer.get b = (s.urb v).transferBuffer.get b ∨
      ∃ i < npkt, s.handler = .packet v i ∧ i * pktBytes ≤ b ∧ b < (i + 1) * pktBytes := by
  cases outComplete_move hst with
  | leave | enter | finish => exact ⟨rfl, fun v b => .inl rfl⟩
  | @transfer u i t hh hi ht =>
    rw [pkt_offset] at ht
    obtain ⟨hdma, _, hother, _, hrest⟩ :=
      transferStep_playback (hinv.resetPacket u i) (pkt_fits hi) ht
    refine ⟨hdma, fun v b => ?_⟩
    by_cases hv : v = u
    · subst hv
      by_cases hb : i * 48 ≤ b / frameBytes ∧ b / frameBytes < i * 48 + 48
      · refine .inr ⟨i, hi, hh, ?_, ?_⟩
        · simp only [frameBytes, pktBytes] at hb ⊢
          omega
        · simp only [frameBytes, pktBytes] at hb ⊢
          omega
      · refine .inl (Region.get_eq_of_block (w := frameBytes) (by decide) ?_)
        refine (hrest _ hb).trans ?_
        simp only [Function.update_self]
        rfl
    · left
      change (t.urb v).transferBuffer.get b = _
      rw [hother v hv]
      simp only [Function.update_of_ne hv]
  | submit =>
    rw [usbSubmitUrb_frame]
    exact ⟨rfl, fun v b => .inl rfl⟩

/-! ## The contents of the ring -/

/-- **Ring contents.** In every state of every run: each slot of the capture ring holds
    the latest frame received that belongs to it, or what it held when the stream was
    prepared (or when the application last wrote to the ring). The `j`-th frame played
    since `prepare` is frame `j % 48` of packet `j / 48`, and is what ring slot `j % B`
    held when that packet was filled; the packets are filled in order, URB by URB. The
    capture handler writes nothing but the ring, which is as large as `B` frames, the
    playback handler nothing but the packet it is at, and no step is undefined. -/
theorem ring_contents (hw : HwParams) :
    (∀ e, (captureMachine hw).Reach e →
      Latest hw.bufferSize e.2.since (e.2.base.block frameBytes) (e.1.pcm.dma.block frameBytes)
        e.2.frames ∧
      ∀ ok t, inComplete hw e.1 ok = some t →
        ∀ u, (t.urb u).transferBuffer = (e.1.urb u).transferBuffer) ∧
    (∀ e, (playbackMachine hw).Reach e →
      (∀ j < 48 * e.2.length, ∃ x, e.2[j / 48]? = some x ∧
        x.frame (j % 48) = x.ring.block frameBytes (j % hw.bufferSize)) ∧
      e.2.IsChain Placed.Before ∧
      ∀ ok t, outComplete hw e.1 ok = some t → t.pcm.dma = e.1.pcm.dma ∧
        ∀ u b, (t.urb u).transferBuffer.get b = (e.1.urb u).transferBuffer.get b ∨
          ∃ i < npkt, e.1.handler = .packet u i ∧ i * pktBytes ≤ b ∧ b < (i + 1) * pktBytes) ∧
    ∀ d s, (streamMachine hw d).Reach s →
      s.pcm.dma.size = hw.bufferSize * frameBytes ∧ (streamMachine hw d).Defined s := by
  refine ⟨?_, ?_, ?_⟩
  · intro e he
    have hr : (streamMachine hw .capture).Reach e.1 :=
      Machine.ReachIf.unobserved (C := fun _ _ _ => True) he
    exact ⟨(capture_inv he).latest, fun ok t hst => inComplete_writes (stream_inv hr) hst⟩
  · intro e he
    have hr : (streamMachine hw .playback).Reach e.1 :=
      Machine.ReachIf.unobserved (C := fun _ _ _ => True) he
    have hinv := playback_inv he
    refine ⟨fun j hj => ?_, hinv.chain, fun ok t hst => outComplete_writes (stream_inv hr) hst⟩
    have hm : j / 48 < e.2.length := by omega
    refine ⟨_, List.getElem?_eq_getElem hm, ?_⟩
    rw [hinv.frames _ hm _ (Nat.mod_lt j (by decide)), Nat.div_add_mod]
  · intro d s hr
    refine ⟨(stream_inv hr).dma, fun l hl => ?_⟩
    obtain ⟨t, ht, _⟩ := (stream_inv hr).step hl
    exact Option.isSome_iff_exists.mpr ⟨t, ht⟩

instance (e : Stream × Received) (l : StreamLabel) : Decidable ((captureMachine hw).enabled e l) :=
  inferInstanceAs (Decidable (streamEnabled e.1 l))

instance (e : Stream × List Placed) (l : StreamLabel) :
    Decidable ((playbackMachine hw).enabled e l) :=
  inferInstanceAs (Decidable (streamEnabled e.1 l))

theorem captureMachine_init :
    (captureMachine smallHw).init (probedStream onesRing, ⟨onesRing, 0, none, []⟩) :=
  ⟨⟨onesRing, rfl, rfl⟩, rfl⟩

theorem playbackMachine_init : (playbackMachine smallHw).init (probedStream onesRing, []) :=
  ⟨⟨onesRing, rfl, rfl⟩, rfl⟩

/-- A capture URB brings one whole packet, which completes a period, and a short
    one. -/
def periodRun : List StreamLabel :=
  let lengths (i : ℕ) : ℕ := if i = 0 then 864 else if i = 1 then 40 else 0
  [.prepare, .start] ++ List.replicate 5 (.trigger true) ++
    .complete 0 ⟨0, lengths, fun _ => 0, Region.fill urbBytes 7⟩ ::
    List.replicate 12 (.handler true)

/-- A playback URB goes around a ring of two packets four times. -/
def aroundRun : List StreamLabel :=
  [.prepare, .start] ++ List.replicate 5 (.trigger true) ++
    .complete 0 ⟨0, fun _ => 0, fun _ => 0, Region.fill urbBytes 0⟩ ::
    List.replicate 11 (.handler true)

/-- A whole packet and two frames of the next are received, and eight packets played. -/
theorem ring_contents_rounds :
    (∃ e, (captureMachine smallHw).play (probedStream onesRing, ⟨onesRing, 0, none, []⟩)
        periodRun = some e ∧ e.2.frames.length = 50 ∧ e.2.since = 0 ∧
      Latest 96 e.2.since (e.2.base.block frameBytes) (e.1.pcm.dma.block frameBytes) e.2.frames) ∧
    ∃ e, (playbackMachine smallHw).play (probedStream onesRing, []) aroundRun = some e ∧
      e.2.length = 8 ∧ ∀ j < 48 * e.2.length, ∃ x, e.2[j / 48]? = some x ∧
        x.frame (j % 48) = x.ring.block frameBytes (j % 96) := by
  obtain ⟨hcapture, hplayback, _⟩ := ring_contents smallHw
  have hc : ∃ e, (captureMachine smallHw).play
      (probedStream onesRing, ⟨onesRing, 0, none, []⟩) periodRun = some e ∧
      e.2.frames.length = 50 ∧ e.2.since = 0 := ⟨_, rfl, rfl, rfl⟩
  have hp : ∃ e, (playbackMachine smallHw).play (probedStream onesRing, []) aroundRun = some e ∧
      e.2.length = 8 := ⟨_, rfl, rfl⟩
  obtain ⟨e, he, hlen, hsince⟩ := hc
  obtain ⟨f, hf, hcount⟩ := hp
  exact ⟨⟨e, he, hlen, hsince, (hcapture e (Machine.play_reach captureMachine_init he)).1⟩,
    f, hf, hcount, (hplayback f (Machine.play_reach playbackMachine_init hf)).1⟩

end DjmT1.Kernel
