import DjmT1.Audio.Gauge

/-!
# The capture and playback paths end to end

What `EngineInv` and `GaugeInv` say of whole runs of the engine, for a ring of any
size whose sample indices fit in an `int`.

* `capture_path`: the frames the callers read, followed by those in the capture
  ring, are the decoded frames of the good packets, each cut where the ring was
  full; `cap_over` counts the packets that were cut.
* `playback_path`: the transfers submitted to the device carry `NXFR` silent
  payloads and then the frames the callers wrote, in order, with silence only
  where the ring ran dry; `play_under` counts the transfers that were padded.
-/

namespace DjmT1.Audio

open DjmT1.Lib

variable {ringFrames : ℤ}

/-! ## Capture -/

/-- The frames of a packet that reach the capture ring: none of a bad packet, the
    first `min(nf, space)` of a good one. -/
def PacketRec.expected (r : PacketRec) : List (List ℚ) :=
  if r.packet.status = .completed then
    decodedFrames r.packet.data (min (r.packet.nf : ℤ) r.room).toNat
  else []

theorem PacketRec.Ok.put_eq {r : PacketRec} (h : r.Ok) : r.put = r.expected := by
  obtain ⟨_, hwrote⟩ := h
  unfold PacketRec.put PacketRec.expected
  split_ifs at hwrote ⊢
  · rw [hwrote]
  · rw [hwrote]
    simp [decodedFrames]

/-- A good packet that `cap_over` does not count was captured whole. -/
theorem PacketRec.Ok.whole {r : PacketRec} (h : r.Ok) (hst : r.packet.status = .completed)
    (hshort : r.short = false) : r.wrote = r.packet.nf := by
  obtain ⟨_, hwrote⟩ := h
  rw [if_pos hst] at hwrote
  have hge : ¬ r.wrote < r.packet.nf := by simpa [PacketRec.short, hst] using hshort
  omega

/-- **The capture path.** In every state of every run, the frames returned by
    `djmt1_iso_read` followed by the frames in the ring are, packet by packet in
    arrival order, the first `wrote` decoded frames of each packet that came in
    good, where `wrote` is the smaller of `nf` and the room there was in the ring when
    the packet was processed; `cap_over` counts the packets with `wrote < nf`; the
    packets accounted for are those that arrived, up to the ones `in_cb` has yet to
    deal with; and no step that may be taken is undefined, so none reads a packet past
    its `actual_length` or leaves `tmp`. -/
theorem capture_path (h0 : 0 ≤ ringFrames) (hs : (ringFrames + 1) * 6 < 2 ^ 31)
    {e : EngineState} {g : Gauge} (h : (gaugedMachine ringFrames).Reach (e, g)) :
    (∃ q, RingInv e.capRing q ∧
      e.log.returned ++ q = e.log.packets.flatMap PacketRec.expected) ∧
    (∀ r ∈ e.log.packets, r.packet.status = .completed →
      0 ≤ r.room ∧ r.wrote = min (r.packet.nf : ℤ) r.room) ∧
    e.log.packets.map PacketRec.room = g.rooms ∧
    e.capOver = count32 PacketRec.short e.log.packets ∧
    e.log.packets.map PacketRec.packet ++ e.ev.pending = e.log.arrived ∧
    (engineMachine ringFrames).Defined e := by
  have hreach : (engineMachine ringFrames).Reach e :=
    Machine.ReachIf.unobserved (C := fun _ _ _ => True) h
  have hinv := engine_inv h0 hs hreach
  obtain ⟨q, hq, hret⟩ := hinv.cap.queue
  refine ⟨⟨q, hq, ?_⟩, ?_, (gauge_inv h0 hs h).rooms, hinv.cap.over_eq, engine_arrived hreach,
    hinv.defined ringFrames⟩
  · rw [hret]
    apply List.flatMap_congr
    intro r hr
    exact (hinv.cap.recs r hr).put_eq
  · intro r hr hst
    obtain ⟨hroom, hwrote⟩ := hinv.cap.recs r hr
    rw [if_pos hst] at hwrote
    exact ⟨hroom, hwrote⟩

/-- The ring `djmt1_iso_start` sets up for `n` frames. -/
def startRing (n : ℕ) : Ring ℚ := ⟨some (Region.fill ((n + 1) * djmt1Ch) 0), n + 1, 0, 0⟩

theorem gaugedMachine_init (n : ℕ) (h : ringInit 0 true n = some (startRing n, 0)) :
    (gaugedMachine n).init (engineStart (startRing n), ⟨0, 0, 0, 0, [], [], [], [], []⟩) :=
  ⟨⟨startRing n, h, rfl⟩, rfl⟩

/-- A good packet of `n ≤ 56` whole frames. -/
def goodPacket (n : ℕ) (h : n * 18 ≤ pktInMax) : IsoPacket :=
  ⟨.completed, Region.fill (n * 18) 7, h⟩

/-- A packet with an error. -/
def badPacket : IsoPacket := ⟨.error, Region.fill 0 0, by decide⟩

/-- Three frames arrive with room for two, then a bad packet; one frame is read. -/
def overrunRun : List EngineLabel :=
  [.inDone ⟨.completed, [goodPacket 3 (by decide), badPacket]⟩ (Region.fill 336 0)] ++
    List.replicate 9 (.ev true) ++ .callRead (Region.fill 6 0) 1 :: List.replicate 5 .read

theorem capture_path_overrunRun :
    ∃ e g, (gaugedMachine 2).play
        (engineStart (startRing 2), ⟨0, 0, 0, 0, [], [], [], [], []⟩) overrunRun = some (e, g) ∧
    g.rooms = [2, 0] ∧
    (∃ q, RingInv e.capRing q ∧
      e.log.returned ++ q = e.log.packets.flatMap PacketRec.expected) ∧
    (∀ r ∈ e.log.packets, r.packet.status = .completed →
      0 ≤ r.room ∧ r.wrote = min (r.packet.nf : ℤ) r.room) ∧
    e.log.packets.map PacketRec.room = g.rooms ∧
    e.capOver = count32 PacketRec.short e.log.packets ∧
    e.log.packets.map PacketRec.packet ++ e.ev.pending = e.log.arrived ∧
    (engineMachine 2).Defined e := by
  have hrun : ∃ e g, (gaugedMachine 2).play
      (engineStart (startRing 2), ⟨0, 0, 0, 0, [], [], [], [], []⟩) overrunRun = some (e, g) ∧
      g.rooms = [2, 0] := ⟨_, _, rfl, rfl⟩
  obtain ⟨e, g, hplay, hrooms⟩ := hrun
  exact ⟨e, g, hplay, hrooms, capture_path (by decide) (by decide)
    (Machine.play_reach (gaugedMachine_init 2 rfl) hplay)⟩

/-! ## Playback -/

/-- The payload of a transfer: the frames read, encoded, then zero bytes up to the
    864 bytes of each of its packets. -/
def FillRec.payload (f : FillRec) : List Byte :=
  encodedFrames roundFloat f.frames ++
    List.replicate (f.numIsoPackets * pktOut - f.frames.length * 18) 0

/-- The bytes of a transfer are the encoding of its padded frames. -/
theorem FillRec.Ok.payload_eq {f : FillRec} (h : f.Ok) :
    f.payload = encodedFrames roundFloat f.padded := by
  obtain ⟨htotal, _, hlen, _⟩ := h
  unfold FillRec.payload FillRec.padded
  rw [encodedFrames_append, encodedFrames_zero roundFloat_zero]
  congr 2
  simp only [pktOut]
  omega

theorem FillRec.Ok.length_payload {f : FillRec} (h : f.Ok) :
    f.payload.length = f.numIsoPackets * pktOut := by
  obtain ⟨htotal, _, hlen, hch⟩ := h
  rw [FillRec.payload, List.length_append, length_encodedFrames hch, List.length_replicate]
  simp only [pktOut]
  omega

/-- The resubmission at the end of `out_cb`, if this step reaches it, succeeds. -/
def Resubmits : EngineLabel → Prop
  | .ev resub => resub = true
  | _ => True

instance : (l : EngineLabel) → Decidable (Resubmits l)
  | .ev resub => inferInstanceAs (Decidable (resub = true))
  | .inDone _ _ | .outDone _ _ | .callRead _ _ | .read | .callWrite _ _ | .write =>
    inferInstanceAs (Decidable True)

/-- Every transfer filled has been submitted. -/
theorem engine_resubmitted {e : EngineState}
    (h : (engineMachine ringFrames).ReachIf (fun _ l _ => Resubmits l) e) :
    ∀ f ∈ e.log.fills, f.resubmitted = true := by
  refine h.invariant (I := fun e => ∀ f ∈ e.log.fills, f.resubmitted = true) ?_ ?_
  · intro e he
    obtain ⟨R, _, rfl⟩ := he
    exact fun f hf => absurd hf List.not_mem_nil
  · intro s l t _ hi hstep hl
    rcases engineExec_fills hstep.2 with hfills | ⟨f, rfl, hfills⟩
    · rw [hfills]; exact hi
    · rw [hfills, List.forall_mem_append, List.forall_mem_singleton]
      exact ⟨hi, hl⟩

/-- **The playback path.** In every state of every run in which each resubmission
    succeeds, the payloads submitted to the device are `NXFR` silent ones and then
    one for each completed transfer, which carries the next frames accepted from
    the callers and, only if the ring held fewer than the transfer needs, zero
    bytes; every accepted frame is in exactly one of them or in the ring; and
    `play_under` counts the transfers that were padded. -/
theorem playback_path (h0 : 0 ≤ ringFrames) (hs : (ringFrames + 1) * 6 < 2 ^ 31)
    {e : EngineState} {g : Gauge}
    (h : (gaugedMachine ringFrames).ReachIf (fun _ l _ => Resubmits l) (e, g)) :
    e.log.submitted = List.replicate nxfr silentPayload ++ e.log.fills.map FillRec.payload ∧
    e.log.fills.map FillRec.numIsoPackets ++ e.ev.filling = g.completed ∧
    (∃ q, RingInv e.playRing q ∧ e.log.accepted = e.log.fills.flatMap FillRec.frames ++ q) ∧
    (∀ f ∈ e.log.fills, f.total = (f.numIsoPackets * 48 : ℕ) ∧
      (f.frames.length : ℤ) = min f.total f.held ∧
      f.payload.length = f.numIsoPackets * pktOut) ∧
    e.log.fills.map FillRec.held = g.helds ∧
    e.playUnder = count32 FillRec.short e.log.fills ∧
    (engineMachine ringFrames).Defined e := by
  have hreach : (engineMachine ringFrames).ReachIf (fun _ l _ => Resubmits l) e :=
    Machine.ReachIf.unobserved (C := fun _ l _ => Resubmits l) h
  have hinv := engine_inv h0 hs hreach.reach
  have hgauge := gauge_inv h0 hs h.reach
  have hall := engine_resubmitted hreach
  refine ⟨?_, hgauge.completed, hinv.play.queue, ?_, hgauge.helds, hinv.play.under_eq,
    hinv.defined ringFrames⟩
  · rw [hinv.play.submitted, List.filter_eq_self.mpr hall]
    congr 1
    apply List.map_congr_left
    intro f hf
    exact (hinv.play.recs f hf).payload_eq.symm
  · intro f hf
    have hok := hinv.play.recs f hf
    exact ⟨hok.1, hok.2.2.1, hok.length_payload⟩

/-- One frame is written and a transfer of one packet is filled. -/
def underrunRun : List EngineLabel :=
  .callWrite (Region.fill 6 1) 1 :: List.replicate 5 .write ++
    .outDone ⟨.completed, 1, Region.fill pktOut 0, by decide, by decide⟩ (Region.fill 6912 5) ::
    List.replicate 5 (.ev true)

theorem playback_path_underrunRun :
    ∃ e g, (gaugedMachine 2).playIf (fun _ l _ => Resubmits l)
        (engineStart (startRing 2), ⟨0, 0, 0, 0, [], [], [], [], []⟩) underrunRun =
          some (e, g) ∧
    g.helds = [1] ∧ g.completed = [1] ∧
    e.log.submitted = List.replicate nxfr silentPayload ++ e.log.fills.map FillRec.payload ∧
    e.log.fills.map FillRec.numIsoPackets ++ e.ev.filling = g.completed ∧
    (∃ q, RingInv e.playRing q ∧ e.log.accepted = e.log.fills.flatMap FillRec.frames ++ q) ∧
    (∀ f ∈ e.log.fills, f.total = (f.numIsoPackets * 48 : ℕ) ∧
      (f.frames.length : ℤ) = min f.total f.held ∧
      f.payload.length = f.numIsoPackets * pktOut) ∧
    e.log.fills.map FillRec.held = g.helds ∧
    e.playUnder = count32 FillRec.short e.log.fills ∧
    (engineMachine 2).Defined e := by
  have hrun : ∃ e g, (gaugedMachine 2).playIf (fun _ l _ => Resubmits l)
      (engineStart (startRing 2), ⟨0, 0, 0, 0, [], [], [], [], []⟩) underrunRun = some (e, g) ∧
      g.helds = [1] ∧ g.completed = [1] := ⟨_, _, rfl, rfl, rfl⟩
  obtain ⟨e, g, hplay, hhelds, hcompleted⟩ := hrun
  exact ⟨e, g, hplay, hhelds, hcompleted, playback_path (by decide) (by decide)
    (Machine.playIf_reachIf (.init (gaugedMachine_init 2 rfl)) hplay)⟩

end DjmT1.Audio
