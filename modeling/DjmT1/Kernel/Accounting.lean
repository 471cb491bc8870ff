import DjmT1.Kernel.Submission
import DjmT1.Lib.Period

/-!
# Frame and period accounting

`StreamInv` says where the frames moved since the last `prepare` have brought a stream:
the ring position, the period position and the calls of `snd_pcm_period_elapsed` are
those of the number of frames moved. The reason that no call is lost or doubled is that
a packet has at most 48 frames, a period at least as many, and a buffer at least two
periods.

It also says that the URBs are laid out as `djmt1_alloc_urbs` left them, so that no step
leaves a buffer or the ring.

* `stream_inv`: it holds in every state of every run.
-/

namespace DjmT1.Kernel

open DjmT1.Lib

variable {hw : HwParams} {d : Dir} {s t : Stream}

/-- A URB has a buffer for its packets, which lie in it back to back. -/
structure UrbOk (x : Urb) : Prop where
  size : x.transferBuffer.size = urbBytes
  desc : ∀ i < npkt, (x.isoFrameDesc i).offset = i * pktBytes ∧
    (x.isoFrameDesc i).length = pktBytes ∧ (x.isoFrameDesc i).actualLength ≤ pktBytes

/-- The position of the stream is where the frames moved since `prepare` have brought
    it. -/
structure StreamInv (hw : HwParams) (d : Dir) (s : Stream) : Prop where
  dma : s.pcm.dma.size = hw.bufferSize * frameBytes
  urb : ∀ u, UrbOk (s.urb u)
  hwptr : s.pcm.hwptr = s.log.moved.length % hw.bufferSize
  periodPos : s.pcm.periodPos = s.log.moved.length % hw.periodSize
  marks : Reported hw.periodSize s.log.moved.length s.log.marks
  handler : d = .playback → ∀ u, s.handler ≠ .resubmit u

theorem StreamInv.pcmOk (h : StreamInv hw d s) : PcmOk hw s.pcm := by
  have hP := hw.period_ge
  have hB := hw.buffer_ge
  refine ⟨?_, ?_, h.dma⟩
  · rw [h.hwptr]; exact Nat.mod_lt _ (by omega)
  · rw [h.periodPos]; exact Nat.mod_lt _ (by omega)

theorem allocUrb_ok : UrbOk allocUrb := ⟨rfl, fun _ _ => ⟨rfl, rfl, Nat.zero_le pktBytes⟩⟩

theorem UrbOk.resetPacket {x : Urb} (h : UrbOk x) (i : ℕ) : UrbOk (x.resetPacket i) := by
  refine ⟨h.size, ?_⟩
  intro j hj
  by_cases hji : j = i
  · subst hji
    simp only [Urb.resetPacket, Function.update_self]
    exact ⟨rfl, rfl, (h.desc j hj).2.2⟩
  · simp only [Urb.resetPacket, Function.update_of_ne hji]
    exact h.desc j hj

theorem UrbOk.resetPackets {x : Urb} (h : UrbOk x) : UrbOk x.resetPackets := by
  refine ⟨h.size, ?_⟩
  intro j hj
  simp only [Urb.resetPackets, if_pos hj]
  exact ⟨rfl, rfl, (h.desc j hj).2.2⟩

/-- What the USB core reports fits the URB. -/
theorem UrbOk.report {x : Urb} (h : UrbOk x) {r : UrbResult}
    (hsize : r.data.size = x.transferBuffer.size)
    (hlen : ∀ i < npkt, r.actualLength i ≤ (x.isoFrameDesc i).length) (d : Dir) :
    UrbOk (x.report d r) := by
  constructor
  · simp only [Urb.report]
    split_ifs
    · exact hsize.trans h.size
    · exact h.size
  · intro i hi
    obtain ⟨hoff, hl, _⟩ := h.desc i hi
    exact ⟨hoff, hl, (hlen i hi).trans hl.le⟩

/-- One URB of the stream changes and stays well formed. -/
theorem urbs_update {urb : Fin nurb → Urb} (h : ∀ u, UrbOk (urb u)) {u : Fin nurb} {x : Urb}
    (hx : UrbOk x) : ∀ v, UrbOk (Function.update urb u x v) := by
  intro v
  by_cases hv : v = u
  · subst hv; rw [Function.update_self]; exact hx
  · rw [Function.update_of_ne hv]; exact h v

/-- Packet `i` begins at frame `48 * i` of the buffer. -/
theorem pkt_offset (i : ℕ) : i * pktBytes = i * 48 * frameBytes := by
  simp only [pktBytes, frameBytes]
  ring

theorem pkt_fits {i : ℕ} (hi : i < npkt) : i * 48 + 48 ≤ 384 := by
  simp only [npkt] at hi
  omega

/-- The frames of a URB lie in its buffer. -/
theorem UrbOk.fits {x : Urb} (h : UrbOk x) {p n : ℕ} (hp : p + n ≤ 384) :
    (p + n) * frameBytes ≤ x.transferBuffer.size := by
  rw [h.size]
  simp only [frameBytes, urbBytes, pktBytes, npkt]
  omega

/-- A packet has at most 48 frames. -/
theorem UrbOk.packetFrames_le {x : Urb} (h : UrbOk x) {i : ℕ} (hi : i < npkt) :
    x.packetFrames i ≤ 48 := by
  have hlen := (h.desc i hi).2.2
  simp only [Urb.packetFrames, frameBytes, pktBytes] at hlen ⊢
  omega

/-- `djmt1_transfer` on `n ≤ 48` frames of a URB buffer. -/
theorem StreamInv.transfer (h : StreamInv hw d s) (c : Dir) (u : Fin nurb) {p n : ℕ} (hn : n ≤ 48)
    (hp : p + n ≤ 384) : ∃ t, transferStep hw c s u (p * frameBytes) n = some t ∧
      StreamInv hw d t := by
  have hP := hw.period_ge
  obtain ⟨dma', buf', htr, hcopied⟩ := djmt1Transfer_spec c.isCapture h.pcmOk hn ((h.urb u).fits hp)
  simp only [transferStep, Option.bind_eq_bind, htr, Option.bind_some, Option.pure_def]
  refine ⟨_, rfl, ?_, ?_, ?_, ?_, ?_, h.handler⟩
  · exact hcopied.1.trans h.dma
  · exact urbs_update h.urb ⟨hcopied.2.1.trans (h.urb u).size, (h.urb u).desc⟩
  · simp only [List.length_append, List.length_map, List.length_range]
    rw [h.hwptr, Nat.mod_add_mod]
  · simp only [List.length_append, List.length_map, List.length_range]
    rw [h.periodPos, Nat.mod_add_mod]
  · simp only [List.length_append, List.length_map, List.length_range, decide_eq_true_eq]
    rw [h.periodPos]
    exact h.marks.advance (by omega) (by omega)

/-- A step that leaves the accounts, the ring and the URBs alone. -/
theorem StreamInv.congr (h : StreamInv hw d s) (hpcm : t.pcm = s.pcm) (hurb : t.urb = s.urb)
    (hlog : t.log = s.log) (hpc : d = .playback → ∀ u, t.handler ≠ .resubmit u) :
    StreamInv hw d t := by
  obtain ⟨hdma, hok, hhw, hperiod, hmarks, _⟩ := h
  rw [← hpcm, ← hlog] at hhw hperiod
  rw [← hpcm] at hdma
  rw [← hurb] at hok
  rw [← hlog] at hmarks
  exact ⟨hdma, hok, hhw, hperiod, hmarks, hpc⟩

/-- The handler moves on. -/
theorem StreamInv.goto (h : StreamInv hw d s) {pc : HandlerPc}
    (hpc : d = .playback → ∀ u, pc ≠ .resubmit u) : StreamInv hw d { s with handler := pc } :=
  h.congr rfl rfl rfl hpc

/-- The descriptor of a packet is reset. -/
theorem StreamInv.resetPacket (h : StreamInv hw d s) (u : Fin nurb) (i : ℕ) :
    StreamInv hw d { s with urb := Function.update s.urb u ((s.urb u).resetPacket i) } :=
  ⟨h.dma, urbs_update h.urb ((h.urb u).resetPacket i), h.hwptr, h.periodPos, h.marks, h.handler⟩

/-- The handler submits its URB and ends. -/
theorem StreamInv.submit (h : StreamInv hw d s) (u : Fin nurb) (ok : Bool) :
    StreamInv hw d { (usbSubmitUrb s u ok).1 with handler := .none } := by
  rw [usbSubmitUrb_frame]
  exact h.congr rfl rfl rfl fun _ v => by simp

/-- A step of `djmt1_in_complete` is defined and keeps the accounts. -/
theorem StreamInv.inComplete (h : StreamInv hw .capture s) (hrun : s.handler ≠ .none) (ok : Bool) :
    ∃ t, inComplete hw s ok = some t ∧ StreamInv hw .capture t := by
  have hfree {pc : HandlerPc} : Dir.capture = .playback → ∀ u, pc ≠ .resubmit u := by
    intro hd; cases hd
  unfold Kernel.inComplete
  cases hh : s.handler with
  | none => exact absurd hh hrun
  | test u =>
    simp only
    split_ifs
    · exact ⟨_, rfl, h.goto hfree⟩
    · exact ⟨_, rfl, h.goto hfree⟩
  | packet u i =>
    simp only
    split_ifs with hi hskip
    · exact ⟨_, rfl, h.goto hfree⟩
    · -- a packet of `actual_length / 18` frames at its offset
      have hn := (h.urb u).packetFrames_le hi
      obtain ⟨hoff, _⟩ := (h.urb u).desc i hi
      obtain ⟨t, ht, hinv⟩ := h.transfer .capture u hn (show i * 48 + _ ≤ 384 by
        have := pkt_fits hi
        omega)
      unfold Urb.packetFrames at ht
      rw [hoff, pkt_offset, ht]
      exact ⟨_, rfl, hinv.goto hfree⟩
    · exact ⟨_, rfl, h.goto hfree⟩
  | resubmit u =>
    simp only
    split_ifs
    · refine ⟨_, rfl, ⟨h.dma, ?_, h.hwptr, h.periodPos, h.marks, hfree⟩⟩
      exact urbs_update h.urb (h.urb u).resetPackets
    · exact ⟨_, rfl, h.goto hfree⟩
  | submit u => exact ⟨_, rfl, h.submit u ok⟩

/-- A step of `djmt1_out_complete` is defined and keeps the accounts. -/
theorem StreamInv.outComplete (h : StreamInv hw .playback s) (hrun : s.handler ≠ .none)
    (ok : Bool) : ∃ t, outComplete hw s ok = some t ∧ StreamInv hw .playback t := by
  unfold Kernel.outComplete
  cases hh : s.handler with
  | none => exact absurd hh hrun
  | resubmit u => exact absurd hh (h.handler rfl u)
  | test u =>
    simp only
    split_ifs
    · exact ⟨_, rfl, h.goto fun _ v => by simp⟩
    · exact ⟨_, rfl, h.goto fun _ v => by simp⟩
  | packet u i =>
    simp only
    split_ifs with hi
    · -- a packet of 48 frames, after its descriptor has been reset
      obtain ⟨t, ht, hinv⟩ := (h.resetPacket u i).transfer .playback u (p := i * 48) (n := 48)
        le_rfl (pkt_fits hi)
      rw [hh] at ht
      rw [pkt_offset, show framesPerPkt = 48 from rfl, ht]
      exact ⟨_, rfl, hinv.goto fun _ v => by simp⟩
    · exact ⟨_, rfl, h.goto fun _ v => by simp⟩
  | submit u => exact ⟨_, rfl, h.submit u ok⟩

/-- A step of a completion handler is defined and keeps the accounts. -/
theorem StreamInv.complete (h : StreamInv hw d s) (hrun : s.handler ≠ .none) (ok : Bool) :
    ∃ t, completeStep hw d s ok = some t ∧ StreamInv hw d t := by
  cases d with
  | capture => exact h.inComplete hrun ok
  | playback => exact h.outComplete hrun ok

/-- Every step is defined and keeps the accounts, which `prepare` starts afresh. -/
theorem StreamInv.step {l : StreamLabel} (h : StreamInv hw d s) (hl : streamEnabled s l) :
    ∃ t, streamExec hw d s l = some t ∧ StreamInv hw d t := by
  cases l with
  | prepare =>
    exact ⟨_, rfl, h.dma, h.urb, (Nat.zero_mod _).symm, (Nat.zero_mod _).symm, .nil _, h.handler⟩
  | start => exact ⟨_, rfl, h.congr rfl rfl rfl h.handler⟩
  | stop => exact ⟨_, rfl, h.congr rfl rfl rfl h.handler⟩
  | app dma => exact ⟨_, rfl, hl.trans h.dma, h.urb, h.hwptr, h.periodPos, h.marks, h.handler⟩
  | handler ok => exact h.complete hl ok
  | complete u r =>
    obtain ⟨_, _, hsize, hlen⟩ := hl
    exact ⟨_, rfl, h.dma, urbs_update h.urb ((h.urb u).report hsize hlen d), h.hwptr, h.periodPos,
      h.marks, fun _ v => by simp⟩
  | trigger ok =>
    obtain ⟨t, ht⟩ := triggerStep_defined hl ok
    refine ⟨t, ht, ?_⟩
    rcases triggerStep_cases ht with ⟨_, rfl⟩ | ⟨u, rest, _, rfl⟩ | ⟨u, rest, _, rfl⟩
    · exact h.congr rfl rfl rfl h.handler
    · exact h.congr rfl rfl rfl h.handler
    · exact h.congr rfl rfl rfl h.handler

/-- The accounts hold in every state of every run. -/
theorem stream_inv (h : (streamMachine hw d).Reach s) : StreamInv hw d s := by
  apply h.invariant
  · rintro s ⟨dma, hdma, rfl⟩
    exact ⟨hdma, fun _ => allocUrb_ok, (Nat.zero_mod _).symm, (Nat.zero_mod _).symm, .nil _,
      fun _ u => by simp [probedStream]⟩
  · intro s l t _ hi hstep _
    obtain ⟨t', ht', hinv⟩ := hi.step hstep.1
    obtain rfl : t' = t := Option.some.inj (ht'.symm.trans hstep.2)
    exact hinv

end DjmT1.Kernel
