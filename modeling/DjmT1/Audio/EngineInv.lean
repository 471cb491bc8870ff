import DjmT1.Audio.Engine

/-!
# The invariant of the data path

`CapSide` is about the capture ring: what the callers have read, followed by what
the ring holds, is what the packets brought in. `PlaySide` is about the playback
ring: what the callers have written is what the OUT transfers carried, followed
by what the ring holds. Every step of the engine is defined and keeps both
(`engineExec_inv`), whatever the interleaving.
-/

namespace DjmT1.Audio

open DjmT1.Lib

/-! ## What the records say -/

/-- `nf` of a packet: its whole frames. -/
def IsoPacket.nf (p : IsoPacket) : ℕ := p.data.size / 18

/-- The frames of a packet that went into the capture ring. -/
def PacketRec.put (r : PacketRec) : List (List ℚ) := decodedFrames r.packet.data r.wrote.toNat

/-- The ring had no room for some frame of a good packet. -/
def PacketRec.short (r : PacketRec) : Bool :=
  r.packet.status = .completed ∧ r.wrote < r.packet.nf

/-- A good packet is written as far as the ring has room; a bad one is skipped. -/
def PacketRec.Ok (r : PacketRec) : Prop :=
  0 ≤ r.room ∧
    if r.packet.status = .completed then r.wrote = min (r.packet.nf : ℤ) r.room else r.wrote = 0

/-- The ring held fewer frames than the transfer needs. -/
def FillRec.short (f : FillRec) : Bool := (f.frames.length : ℤ) < f.total

/-- The frames of a transfer: those read, then silence. -/
def FillRec.padded (f : FillRec) : List (List ℚ) :=
  f.frames ++ List.replicate (f.total.toNat - f.frames.length) (List.replicate djmt1Ch 0)

/-- A transfer of 48 frames a packet takes what the ring held, up to its size. -/
def FillRec.Ok (f : FillRec) : Prop :=
  f.total = (f.numIsoPackets * 48 : ℕ) ∧ 0 ≤ f.held ∧
    (f.frames.length : ℤ) = min f.total f.held ∧ ∀ c ∈ f.frames, c.length = djmt1Ch

/-- The payload of a transfer that `djmt1_iso_start` submits. -/
def silentPayload : List Byte := List.replicate (npkt * pktOut) 0

/-- The number of records that satisfy `p`, as a 32-bit counter. -/
def count32 {β : Type} (p : β → Bool) (l : List β) : BitVec 32 := BitVec.ofNat 32 (l.countP p)

theorem count32_append {β : Type} (p : β → Bool) (l : List β) (x : β) :
    count32 p (l ++ [x]) = if p x then count32 p l + 1 else count32 p l := by
  unfold count32
  rw [List.countP_append, List.countP_singleton]
  split_ifs
  · exact BitVec.ofNat_add _ _
  · rw [Nat.add_zero]

/-- A counter that has not moved has not counted. -/
theorem count32_same {β : Type} {p : β → Bool} {l : List β} {x : β}
    (h : count32 p (l ++ [x]) = count32 p l) : p x = false := by
  by_contra hx
  rw [Bool.not_eq_false] at hx
  rw [count32_append, if_pos hx] at h
  exact absurd h (by bv_omega)

/-- The frames of `tmp` are those of the packet, also for the first few. -/
theorem frames_eq_of_le {tmp : Region ℚ} {p : Region Byte} {m n : ℕ}
    (h : frames tmp n = decodedFrames p n) (hmn : m ≤ n) : frames tmp m = decodedFrames p m := by
  have ht := congrArg (List.take m) h
  simp only [frames, decodedFrames, ← List.map_take, List.take_range, Nat.min_eq_left hmn] at ht
  exact ht

/-! ## The two sides -/

/-- What holds of the event thread with respect to the capture ring. -/
def CapAt (R : Ring ℚ) : EvPc → Prop
  | .idle | .outRead _ _ _ => True
  | .inCb _ tmp => tmp.size = 336
  | .inWrite p _ nf pc => pc.src.size = 336 ∧ p.status = .completed ∧ nf = p.nf ∧
      frames pc.src p.nf = decodedFrames p.data p.nf ∧ WriteOk R nf pc

/-- What holds of the event thread with respect to the playback ring. -/
def PlayAt (R : Ring ℚ) : EvPc → Prop
  | .idle | .inCb _ _ | .inWrite _ _ _ _ => True
  | .outRead x total pc => total = (x.numIsoPackets * 48 : ℕ) ∧ pc.dst.size = 6912 ∧
      ReadOk R total pc

/-- The capture side: ring, reading caller, event thread, `cap_over`, history. -/
structure CapSide (R : Ring ℚ) (rd : Option (ReadPc ℚ)) (ev : EvPc) (capOver : BitVec 32)
    (packets : List PacketRec) (returned : List (List ℚ)) : Prop where
  queue : ∃ q, RingInv R q ∧ returned ++ q = packets.flatMap PacketRec.put
  rd : ∀ pc ∈ rd, ∃ n₀, ReadOk R n₀ pc
  ev : CapAt R ev
  recs : ∀ r ∈ packets, r.Ok
  over_eq : capOver = count32 PacketRec.short packets

/-- The playback side: ring, writing caller, event thread, `play_under`, history. -/
structure PlaySide (R : Ring ℚ) (wr : Option (ℤ × WritePc ℚ)) (ev : EvPc) (playUnder : BitVec 32)
    (fills : List FillRec) (submitted : List (List Byte)) (accepted : List (List ℚ)) : Prop where
  queue : ∃ q, RingInv R q ∧ accepted = fills.flatMap FillRec.frames ++ q
  wr : ∀ c ∈ wr, WriteOk R c.1 c.2
  ev : PlayAt R ev
  recs : ∀ f ∈ fills, f.Ok
  under_eq : playUnder = count32 FillRec.short fills
  submitted : submitted = List.replicate nxfr silentPayload ++
    (fills.filter FillRec.resubmitted).map fun f => encodedFrames roundFloat f.padded

/-- The invariant of the data path. -/
structure EngineInv (e : EngineState) : Prop where
  cap : CapSide e.capRing e.rd e.ev e.capOver e.log.packets e.log.returned
  play : PlaySide e.playRing e.wr e.ev e.playUnder e.log.fills e.log.submitted e.log.accepted

section Sides

variable {R R' : Ring ℚ} {ev ev' : EvPc}

/-- The event thread moves without touching the capture ring. -/
theorem CapSide.moveEv {rd n packets returned} (h : CapSide R rd ev n packets returned)
    (hev : CapAt R ev') : CapSide R rd ev' n packets returned :=
  ⟨h.queue, h.rd, hev, h.recs, h.over_eq⟩

/-- The event thread moves without touching the playback ring. -/
theorem PlaySide.moveEv {wr n fills submitted accepted}
    (h : PlaySide R wr ev n fills submitted accepted) (hev : PlayAt R ev') :
    PlaySide R wr ev' n fills submitted accepted :=
  ⟨h.queue, h.wr, hev, h.recs, h.under_eq, h.submitted⟩

/-- A caller's read does not disturb the event thread's write. -/
theorem CapAt.stable (h : CapAt R ev) (hm : ReaderMoves R R') : CapAt R' ev := by
  cases ev with
  | inWrite p rest nf pc =>
    obtain ⟨hsize, hst, hnf, hfr, hw⟩ := h
    exact ⟨hsize, hst, hnf, hfr, hw.stable hm⟩
  | _ => exact h

/-- A caller's write does not disturb the event thread's read. -/
theorem PlayAt.stable (h : PlayAt R ev) (hm : WriterMoves R R') : PlayAt R' ev := by
  cases ev with
  | outRead x total pc =>
    obtain ⟨ht, hsize, hr⟩ := h
    exact ⟨ht, hsize, hr.stable hm⟩
  | _ => exact h

/-- A packet that brings no frames is recorded. -/
theorem CapSide.skip {rd n packets returned p} (h : CapSide R rd ev n packets returned)
    (hp : p.status = .completed → p.nf = 0) (hev : CapAt R ev') :
    CapSide R rd ev' n (packets ++ [⟨p, R.cap - 1 - R.used, 0⟩]) returned := by
  obtain ⟨⟨q, hq, hret⟩, hrd, -, hrecs, hover⟩ := h
  have hroom := hq.used_lt
  refine ⟨⟨q, hq, ?_⟩, hrd, hev, ?_, ?_⟩
  · rw [hret, List.flatMap_append]
    simp [PacketRec.put, decodedFrames]
  · rw [List.forall_mem_append, List.forall_mem_singleton]
    refine ⟨hrecs, by simp only; omega, ?_⟩
    split_ifs with hst
    · rw [hp hst]; simp only; omega
    · rfl
  · rw [count32_append, if_neg, hover]
    simp only [PacketRec.short, decide_eq_true_eq, not_and, not_lt]
    intro hst
    rw [hp hst]
    rfl

/-- A step of `ring_write` inside `in_cb`. -/
theorem CapSide.write {rd n packets returned p rest nf pc}
    (h : CapSide R rd (.inWrite p rest nf pc) n packets returned) :
    (∃ R' pc', writeStep R pc = some (R', .inl pc') ∧
      CapSide R' rd (.inWrite p rest nf pc') n packets returned) ∨
    (∃ R' wrote sp, writeStep R pc = some (R', .inr (wrote, sp)) ∧
      CapSide R' rd (.inCb rest pc.src) (if wrote < nf then n + 1 else n)
        (packets ++ [⟨p, sp, wrote⟩]) returned) := by
  obtain ⟨⟨q, hq, hret⟩, hrd, ⟨hsize, hst, hnf, hfr, hw⟩, hrecs, hover⟩ := h
  rcases writeStep_spec hq hw with ⟨R', pc', hstep, hq', hw', hsrc, hm⟩ |
    ⟨R', wrote, sp, hstep, hwrote, h0, hq', hm⟩
  · refine .inl ⟨R', pc', hstep, ⟨q, hq', hret⟩, reader_stable hrd hm, ?_, hrecs, hover⟩
    rw [CapAt, hsrc]
    exact ⟨hsize, hst, hnf, hfr, hw'⟩
  · refine .inr ⟨R', wrote, sp, hstep, ⟨_, hq', ?_⟩, reader_stable hrd hm, hsize, ?_, ?_⟩
    · have htake : frames pc.src wrote.toNat = decodedFrames p.data wrote.toNat :=
        frames_eq_of_le hfr (by omega)
      rw [← List.append_assoc, hret, List.flatMap_append, htake]
      simp [PacketRec.put]
    · rw [List.forall_mem_append, List.forall_mem_singleton]
      exact ⟨hrecs, by simp only; omega, by rw [if_pos hst]; exact hnf ▸ hwrote⟩
    · rw [count32_append, hover]
      simp only [PacketRec.short, hst, hnf, true_and, decide_eq_true_eq]

/-- A step of a caller's `djmt1_iso_read`. -/
theorem CapSide.read {ev n packets returned pc} (h : CapSide R (some pc) ev n packets returned) :
    (∃ R' pc', readStep R pc = some (R', .inl pc') ∧
      CapSide R' (some pc') ev n packets returned) ∨
    (∃ R' dst k av, readStep R pc = some (R', .inr (dst, k, av)) ∧
      CapSide R' none ev n packets (returned ++ frames dst k.toNat)) := by
  obtain ⟨⟨q, hq, hret⟩, hrd, hev, hrecs, hover⟩ := h
  obtain ⟨n₀, hr⟩ := hrd pc rfl
  rcases readStep_spec hq hr with ⟨R', pc', hstep, hq', hr', -, hm⟩ |
    ⟨R', dst, k, av, hstep, -, -, -, htake, -, hq', hm⟩
  · refine .inl ⟨R', pc', hstep, ⟨q, hq', hret⟩, ?_, hev.stable hm, hrecs, hover⟩
    rintro _ ⟨⟩
    exact ⟨n₀, hr'⟩
  · refine .inr ⟨R', dst, k, av, hstep, ⟨_, hq', ?_⟩, by simp, hev.stable hm, hrecs, hover⟩
    rw [htake, List.append_assoc, List.take_append_drop]
    exact hret

/-- A step of a caller's `djmt1_iso_write`. -/
theorem PlaySide.write {ev n fills submitted accepted n₀ pc}
    (h : PlaySide R (some (n₀, pc)) ev n fills submitted accepted) :
    (∃ R' pc', writeStep R pc = some (R', .inl pc') ∧
      PlaySide R' (some (n₀, pc')) ev n fills submitted accepted) ∨
    (∃ R' k sp, writeStep R pc = some (R', .inr (k, sp)) ∧ k = min n₀ sp ∧
      PlaySide R' none ev n fills submitted (accepted ++ frames pc.src k.toNat)) := by
  obtain ⟨⟨q, hq, hacc⟩, hwr, hev, hrecs, hunder, hsub⟩ := h
  rcases writeStep_spec hq (hwr (n₀, pc) rfl) with ⟨R', pc', hstep, hq', hw', -, hm⟩ |
    ⟨R', k, sp, hstep, hk, -, hq', hm⟩
  · refine .inl ⟨R', pc', hstep, ⟨q, hq', hacc⟩, ?_, hev.stable hm, hrecs, hunder, hsub⟩
    rintro _ ⟨⟩
    exact hw'
  · refine .inr ⟨R', k, sp, hstep, hk, ⟨_, hq', ?_⟩, by simp, hev.stable hm, hrecs, hunder, hsub⟩
    rw [hacc, List.append_assoc]

end Sides

/-! ## Filling an OUT transfer -/

theorem padFrames_spec {tmp : Region ℚ} {k n : ℕ} (hk : k ≤ n) (hn : n * 6 ≤ tmp.size) :
    ∃ t, padFrames tmp k n = some t ∧ t.size = tmp.size ∧
      frames t n = frames tmp k ++ List.replicate (n - k) (List.replicate djmt1Ch 0) := by
  unfold padFrames
  by_cases hlt : k < n
  · have hms := Region.memset_eq (x := (0 : ℚ)) (show k * 6 + (n - k) * 6 ≤ tmp.size by omega)
    push_cast at hms
    rw [if_pos (by exact_mod_cast hlt), show ((n : ℤ) - k).toNat = n - k by omega]
    refine ⟨_, hms, rfl, ?_⟩
    apply List.ext_getElem
    · simp; omega
    · intro f h1 h2
      rw [length_frames] at h1
      rw [getElem_frames]
      by_cases hf : f < k
      · rw [List.getElem_append_left (by simpa using hf), getElem_frames]
        refine Region.slice_congr fun j h0 hj => ?_
        simp only [djmt1Ch] at h0 hj ⊢
        rw [if_neg (by omega)]
      · rw [List.getElem_append_right (by simpa using hf), List.getElem_replicate]
        refine List.eq_replicate_iff.mpr ⟨by simp, fun x hx => ?_⟩
        simp only [Region.block, Region.slice, List.mem_map, List.mem_range, djmt1Ch] at hx
        obtain ⟨c, hc, rfl⟩ := hx
        rw [if_pos (by omega)]
  · have he : n = k := by omega
    subst he
    rw [if_neg (by omega)]
    exact ⟨tmp, rfl, rfl, by simp⟩

theorem outFill_spec {x : OutTransfer} {tmp : Region ℚ} {k : ℕ} (ht : tmp.size = 6912)
    (hk : k ≤ x.numIsoPackets * 48) :
    ∃ b, outFill x tmp k (x.numIsoPackets * 48 : ℕ) = some b ∧
      b.slice 0 (x.numIsoPackets * pktOut) = encodedFrames roundFloat (frames tmp k ++
        List.replicate (x.numIsoPackets * 48 - k) (List.replicate djmt1Ch 0)) := by
  have hle := x.le
  have hfits := x.fits
  simp only [npkt, pktOut] at hle hfits
  obtain ⟨t, hmem, hsize, hfr⟩ := padFrames_spec hk (by omega : _ * 6 ≤ tmp.size)
  obtain ⟨b, hb, -, hbytes⟩ := encodeLoop_spec
    (show x.numIsoPackets * 48 * 6 ≤ t.size by omega)
    (show x.numIsoPackets * 48 * 18 ≤ x.buffer.size by omega)
  refine ⟨b, ?_, ?_⟩
  · simp only [outFill, Option.bind_eq_bind]
    rw [hmem, Option.bind_some, Int.toNat_natCast, hb]
  · rw [← hfr, ← hbytes]
    congr 1
    simp only [pktOut]
    ring

/-- A step of `ring_read` inside `out_cb`, with the rest of the callback after the
    last one. -/
theorem PlaySide.fill {R : Ring ℚ} {wr n fills submitted accepted x total pc}
    (h : PlaySide R wr (.outRead x total pc) n fills submitted accepted) (resub : Bool) :
    (∃ R' pc', readStep R pc = some (R', .inl pc') ∧
      PlaySide R' wr (.outRead x total pc') n fills submitted accepted) ∨
    (∃ R' tmp got av b, readStep R pc = some (R', .inr (tmp, got, av)) ∧
      outFill x tmp got total = some b ∧
      PlaySide R' wr .idle (if got < total then n + 1 else n)
        (fills ++ [⟨x.numIsoPackets, total, av, frames tmp got.toNat, resub⟩])
        (submitted ++ if resub then [b.slice 0 (x.numIsoPackets * pktOut)] else []) accepted) := by
  obtain ⟨⟨q, hq, hacc⟩, hwr, ⟨rfl, hsize, hr⟩, hrecs, hunder, hsub⟩ := h
  rcases readStep_spec hq hr with ⟨R', pc', hstep, hq', hr', hdst, hm⟩ |
    ⟨R', tmp, got, av, hstep, hgot, h0, hlen, htake, hdst, hq', hm⟩
  · exact .inl ⟨R', pc', hstep, ⟨q, hq', hacc⟩, fun c hc => (hwr c hc).stable hm,
      ⟨rfl, hdst.trans hsize, hr'⟩, hrecs, hunder, hsub⟩
  · obtain ⟨k, rfl⟩ := Int.eq_ofNat_of_zero_le h0
    obtain ⟨b, hb, hbytes⟩ := outFill_spec (x := x) (hdst.trans hsize) (show k ≤ _ by omega)
    refine .inr ⟨R', tmp, k, av, b, hstep, hb, ⟨_, hq', ?_⟩, fun c hc => (hwr c hc).stable hm,
      trivial, ?_, ?_, ?_⟩
    · rw [hacc, List.flatMap_append, List.append_assoc, Int.toNat_natCast] at *
      rw [htake]
      simp
    · rw [List.forall_mem_append, List.forall_mem_singleton]
      exact ⟨hrecs, rfl, by simp only; omega, by simpa using hgot,
        fun c hc => length_of_mem_frames hc⟩
    · rw [count32_append, hunder]
      simp [FillRec.short]
    · rw [hsub, List.filter_append, List.map_append, List.append_assoc]
      cases resub with
      | false => simp
      | true =>
        have hpad (av : ℤ) : FillRec.padded ⟨x.numIsoPackets, (x.numIsoPackets * 48 : ℕ), av,
            frames tmp k, true⟩ = frames tmp k ++
              List.replicate (x.numIsoPackets * 48 - k) (List.replicate djmt1Ch 0) := by
          simp only [FillRec.padded, Int.toNat_natCast, length_frames]
        rw [if_pos rfl, hbytes, ← hpad av]
        rfl

/-! ## Every step -/

/-- Every step of the event thread is defined and keeps both sides. -/
theorem evStep_inv {e : EngineState} (h : EngineInv e) (hev : ¬ e.ev.isIdle) (resub : Bool) :
    ∃ t, evStep e resub = some t ∧ EngineInv t := by
  obtain ⟨capRing, playRing, capOver, playUnder, xferErr, ev, rd, wr, log⟩ := e
  obtain ⟨hcap, hplay⟩ := h
  simp only at hcap hplay
  cases ev with
  | idle => exact absurd rfl hev
  | inCb rest tmp =>
    have htmp : tmp.size = 336 := hcap.ev
    cases rest with
    | nil => exact ⟨_, rfl, hcap.moveEv trivial, hplay.moveEv trivial⟩
    | cons p rest =>
      have hle := p.le
      simp only [pktInMax] at hle
      have hnf : packetFrames p = p.nf := by
        simp only [packetFrames, IsoPacket.nf, djmt1Ch, inMaxFrames, pktInMax]
        rw [if_neg (by omega)]
        push_cast
        rfl
      simp only [evStep]
      by_cases hst : p.status = .completed
      · rw [if_neg (not_not.mpr hst), hnf]
        by_cases h0 : p.nf = 0
        · rw [if_pos (by omega)]
          exact ⟨_, rfl, hcap.skip (fun _ => h0) htmp, hplay.moveEv trivial⟩
        · rw [if_neg (by omega), Int.toNat_natCast]
          obtain ⟨tmp', hdec, hsize, hfr⟩ := decodeLoop_spec
            (show p.nf * 18 ≤ p.data.size by unfold IsoPacket.nf; omega)
            (show p.nf * 6 ≤ tmp.size by unfold IsoPacket.nf; omega)
          rw [hdec]
          refine ⟨_, rfl, hcap.moveEv ⟨hsize.trans htmp, hst, rfl, hfr, ⟨?_, rfl⟩⟩,
            hplay.moveEv trivial⟩
          change CallOk tmp' p.nf
          unfold CallOk IsoPacket.nf
          omega
      · rw [if_pos hst]
        exact ⟨_, rfl, hcap.skip (fun h => absurd h hst) htmp, hplay.moveEv trivial⟩
  | inWrite p rest nf pc =>
    simp only [evStep]
    rcases hcap.write with ⟨R', pc', hstep, hcap'⟩ | ⟨R', wrote, sp, hstep, hcap'⟩
    · rw [hstep]; exact ⟨_, rfl, hcap', hplay.moveEv trivial⟩
    · rw [hstep]; exact ⟨_, rfl, hcap', hplay.moveEv trivial⟩
  | outRead x total pc =>
    simp only [evStep]
    rcases hplay.fill resub with ⟨R', pc', hstep, hplay'⟩ | ⟨R', tmp, got, av, b, hstep, hb, hplay'⟩
    · rw [hstep]; exact ⟨_, rfl, hcap.moveEv trivial, hplay'⟩
    · simp only [hstep, Option.bind_eq_bind, Option.bind_some, hb, Option.pure_def]
      exact ⟨_, rfl, hcap.moveEv trivial, hplay'⟩

/-- Counting a transfer only moves `xfer_err`. -/
theorem countXfer_cases (e : EngineState) (st : XferStatus) :
    ∃ n, countXfer e st = { e with xferErr := n } := by
  unfold countXfer
  split_ifs
  · exact ⟨_, rfl⟩
  · exact ⟨_, rfl⟩

/-- Every step of the engine is defined and keeps both sides. -/
theorem engineExec_inv {e : EngineState} {l : EngineLabel} (h : EngineInv e)
    (hl : engineEnabled e l) : ∃ t, engineExec e l = some t ∧ EngineInv t := by
  cases l with
  | inDone x tmp =>
    refine ⟨_, rfl, ?_⟩
    obtain ⟨n, hn⟩ := countXfer_cases e x.status
    rw [hn]
    exact ⟨h.cap.moveEv hl.2, h.play.moveEv trivial⟩
  | outDone x tmp =>
    have hle := x.le
    have htmp : tmp.size = 6912 := hl.2
    simp only [npkt] at hle
    have ht : int32 (x.numIsoPackets * framesPerPkt) = some ((x.numIsoPackets * 48 : ℕ) : ℤ) := by
      simp only [framesPerPkt, pktOut, djmt1Ch]
      rw [int32_eq (by omega) (by omega)]
      push_cast
      rfl
    have hcall : CallOk tmp (x.numIsoPackets * 48 : ℕ) := by unfold CallOk; omega
    simp only [engineExec, ht, Option.bind_eq_bind, Option.bind_some, Option.pure_def]
    refine ⟨_, rfl, ?_⟩
    obtain ⟨n, hn⟩ := countXfer_cases e x.status
    rw [hn]
    exact ⟨h.cap.moveEv trivial, h.play.moveEv ⟨rfl, htmp, hcall, rfl⟩⟩
  | ev resub => exact evStep_inv h hl resub
  | callRead dst n =>
    refine ⟨_, rfl, ⟨h.cap.queue, ?_, h.cap.ev, h.cap.recs, h.cap.over_eq⟩, h.play⟩
    rintro _ ⟨⟩
    exact ⟨n, hl.2, rfl⟩
  | read =>
    obtain ⟨pc, hpc⟩ := Option.isSome_iff_exists.mp hl
    have hcap := h.cap
    rw [hpc] at hcap
    simp only [engineExec, hpc, Option.bind_eq_bind, Option.bind_some]
    rcases hcap.read with ⟨R', pc', hstep, hcap'⟩ | ⟨R', dst, k, av, hstep, hcap'⟩
    · rw [hstep]; exact ⟨_, rfl, hcap', h.play⟩
    · rw [hstep]; exact ⟨_, rfl, hcap', h.play⟩
  | callWrite src n =>
    refine ⟨_, rfl, h.cap, h.play.queue, ?_, h.play.ev, h.play.recs, h.play.under_eq,
      h.play.submitted⟩
    rintro _ ⟨⟩
    exact ⟨hl.2, rfl⟩
  | write =>
    obtain ⟨⟨n₀, pc⟩, hpc⟩ := Option.isSome_iff_exists.mp hl
    have hplay := h.play
    rw [hpc] at hplay
    simp only [engineExec, hpc, Option.bind_eq_bind, Option.bind_some]
    rcases hplay.write with ⟨R', pc', hstep, hplay'⟩ | ⟨R', k, sp, hstep, -, hplay'⟩
    · rw [hstep]; exact ⟨_, rfl, h.cap, hplay'⟩
    · rw [hstep]; exact ⟨_, rfl, h.cap, hplay'⟩

/-! ## What a step adds to the history -/

/-- What a step of the event thread inside a callback can do. -/
inductive EvMove (e : EngineState) (resub : Bool) : EngineState → Prop
  | leave {tmp : Region ℚ} (h : e.ev = .inCb [] tmp) : EvMove e resub { e with ev := .idle }
  | skip {p : IsoPacket} {rest : List IsoPacket} {tmp : Region ℚ}
    (h : e.ev = .inCb (p :: rest) tmp) :
    EvMove e resub (skipPacket e p (.inCb rest tmp))
  | decode {p : IsoPacket} {rest : List IsoPacket} {tmp tmp' : Region ℚ}
    (h : e.ev = .inCb (p :: rest) tmp) : EvMove e resub { e with
      ev := .inWrite p rest (packetFrames p) (.availW tmp' (packetFrames p)) }
  | write {p : IsoPacket} {rest : List IsoPacket} {nf : ℤ} {pc pc' : WritePc ℚ} {R : Ring ℚ}
    (h : e.ev = .inWrite p rest nf pc) (hst : writeStep e.capRing pc = some (R, .inl pc')) :
    EvMove e resub { e with capRing := R, ev := .inWrite p rest nf pc' }
  | wrote {p : IsoPacket} {rest : List IsoPacket} {nf wrote room : ℤ} {pc : WritePc ℚ}
    {R : Ring ℚ} (h : e.ev = .inWrite p rest nf pc)
    (hst : writeStep e.capRing pc = some (R, .inr (wrote, room))) :
    EvMove e resub (wrotePacket { e with capRing := R } p nf wrote room (.inCb rest pc.src))
  | read {x : OutTransfer} {total : ℤ} {pc pc' : ReadPc ℚ} {R : Ring ℚ}
    (h : e.ev = .outRead x total pc) (hst : readStep e.playRing pc = some (R, .inl pc')) :
    EvMove e resub { e with playRing := R, ev := .outRead x total pc' }
  | fill {x : OutTransfer} {total got held : ℤ} {pc : ReadPc ℚ} {R : Ring ℚ} {tmp : Region ℚ}
    {b : Region Byte} (h : e.ev = .outRead x total pc)
    (hst : readStep e.playRing pc = some (R, .inr (tmp, got, held))) :
    EvMove e resub (filledTransfer { e with playRing := R } x total got held
      (frames tmp got.toNat) (b.slice 0 (x.numIsoPackets * pktOut)) resub)

theorem evStep_move {e t : EngineState} {resub : Bool} (h : evStep e resub = some t) :
    EvMove e resub t := by
  unfold evStep at h
  cases hev : e.ev with
  | idle => simp [hev] at h
  | inCb rest tmp =>
    cases rest with
    | nil =>
      simp only [hev] at h
      obtain rfl := Option.some.inj h
      exact .leave hev
    | cons p rest =>
      simp only [hev] at h
      split_ifs at h
      · obtain rfl := Option.some.inj h
        exact .skip hev
      · obtain rfl := Option.some.inj h
        exact .skip hev
      · obtain ⟨tmp', _, h⟩ := Option.bind_eq_some_iff.mp h
        obtain rfl := Option.some.inj h
        exact .decode hev
  | inWrite p rest nf pc =>
    simp only [hev] at h
    obtain ⟨⟨R, pc' | ⟨wrote, sp⟩⟩, hst, h⟩ := Option.bind_eq_some_iff.mp h
    · obtain rfl := Option.some.inj h
      exact .write hev hst
    · obtain rfl := Option.some.inj h
      exact .wrote hev hst
  | outRead x total pc =>
    simp only [hev] at h
    obtain ⟨⟨R, pc' | ⟨tmp, got, av⟩⟩, hst, h⟩ := Option.bind_eq_some_iff.mp h
    · obtain rfl := Option.some.inj h
      exact .read hev hst
    · obtain ⟨b, _, h⟩ := Option.bind_eq_some_iff.mp h
      obtain rfl := Option.some.inj h
      exact .fill hev hst

/-- It does not touch the callers' ends. -/
theorem evStep_callers {e t : EngineState} {resub : Bool} (h : evStep e resub = some t) :
    t.rd = e.rd ∧ t.wr = e.wr := by
  cases evStep_move h with
  | _ => exact ⟨rfl, rfl⟩

/-- A step of the event thread leaves the history alone, deals with the next
    pending packet, or fills a transfer. -/
theorem evStep_cases {e t : EngineState} {resub : Bool} (h : evStep e resub = some t) :
    t.wr = e.wr ∧
    ((t.log = e.log ∧ t.ev.pending = e.ev.pending) ∨
    (∃ p room wrote, e.ev.pending = p :: t.ev.pending ∧
      t.log = { e.log with packets := e.log.packets ++ [⟨p, room, wrote⟩] }) ∨
    (∃ f submitted, f.resubmitted = resub ∧ t.ev.pending = e.ev.pending ∧
      t.log = { e.log with fills := e.log.fills ++ [f], submitted })) := by
  cases evStep_move h with
  | leave hev | decode hev | write hev | read hev =>
    refine ⟨rfl, .inl ⟨rfl, ?_⟩⟩
    rw [hev]
    rfl
  | skip hev | wrote hev =>
    refine ⟨rfl, .inr (.inl ⟨_, _, _, ?_, rfl⟩)⟩
    rw [hev]
    rfl
  | fill hev =>
    refine ⟨rfl, .inr (.inr ⟨_, _, rfl, ?_, rfl⟩)⟩
    rw [hev]
    rfl

/-- An OUT transfer completes, and `out_cb` begins. -/
theorem engineOutDone_eq {e t : EngineState} {x : OutTransfer} {tmp : Region ℚ}
    (h : engineExec e (.outDone x tmp) = some t) :
    ∃ n total, t = { e with xferErr := n, ev := .outRead x total (.availW tmp total) } := by
  simp only [engineExec, Option.bind_eq_bind, Option.pure_def] at h
  obtain ⟨total, _, h⟩ := Option.bind_eq_some_iff.mp h
  obtain rfl := Option.some.inj h
  obtain ⟨n, hn⟩ := countXfer_cases e x.status
  rw [hn]
  exact ⟨n, total, rfl⟩

/-- A step of a caller's `djmt1_iso_read` touches neither the event thread nor its
    part of the history. -/
theorem engineRead_log {e t : EngineState} (h : engineExec e .read = some t) :
    t.ev = e.ev ∧ t.wr = e.wr ∧ t.log = { e.log with returned := t.log.returned } := by
  simp only [engineExec, Option.bind_eq_bind, Option.pure_def] at h
  obtain ⟨pc, _, h⟩ := Option.bind_eq_some_iff.mp h
  obtain ⟨⟨R, pc' | ⟨dst, n, av⟩⟩, _, h⟩ := Option.bind_eq_some_iff.mp h
  · obtain rfl := Option.some.inj h
    exact ⟨rfl, rfl, rfl⟩
  · obtain rfl := Option.some.inj h
    exact ⟨rfl, rfl, rfl⟩

/-- A step of a caller's `djmt1_iso_write` goes on with the call or records it. -/
theorem engineWrite_cases {e t : EngineState} (h : engineExec e .write = some t) :
    t.ev = e.ev ∧ ∃ n₀ pc, e.wr = some (n₀, pc) ∧
      ((∃ R pc', writeStep e.playRing pc = some (R, .inl pc') ∧ t.wr = some (n₀, pc') ∧
          t.log = e.log) ∨
        (∃ R n sp accepted, writeStep e.playRing pc = some (R, .inr (n, sp)) ∧ t.wr = none ∧
          t.log = { e.log with accepted, writes := e.log.writes ++ [(n₀, n)] })) := by
  simp only [engineExec, Option.bind_eq_bind, Option.pure_def] at h
  obtain ⟨⟨n₀, pc⟩, hpc, h⟩ := Option.bind_eq_some_iff.mp h
  obtain ⟨⟨R, pc' | ⟨n, sp⟩⟩, hst, h⟩ := Option.bind_eq_some_iff.mp h
  · obtain rfl := Option.some.inj h
    exact ⟨rfl, n₀, pc, hpc, .inl ⟨R, pc', hst, rfl, rfl⟩⟩
  · obtain rfl := Option.some.inj h
    exact ⟨rfl, n₀, pc, hpc, .inr ⟨R, n, sp, _, hst, rfl, rfl⟩⟩

/-- A transfer arrives, or the next pending packet is dealt with, or neither. -/
theorem engineExec_packets {e t : EngineState} {l : EngineLabel} (hl : engineEnabled e l)
    (h : engineExec e l = some t) :
    (t.ev.pending = e.ev.pending ∧ t.log.arrived = e.log.arrived ∧
      t.log.packets = e.log.packets) ∨
    (∃ x tmp, l = .inDone x tmp ∧ e.ev.pending = [] ∧ t.ev.pending = x.packets ∧
      t.log.arrived = e.log.arrived ++ x.packets ∧ t.log.packets = e.log.packets) ∨
    (∃ p room wrote, e.ev.pending = p :: t.ev.pending ∧ t.log.arrived = e.log.arrived ∧
      t.log.packets = e.log.packets ++ [⟨p, room, wrote⟩]) := by
  have hidle : e.ev.isIdle → e.ev.pending = [] := by
    intro hi
    cases hev : e.ev with
    | idle => rfl
    | _ => rw [hev] at hi; exact absurd hi Bool.false_ne_true
  cases l with
  | inDone x tmp =>
    obtain rfl := Option.some.inj h
    exact .inr (.inl ⟨x, tmp, rfl, hidle hl.1, rfl, rfl, rfl⟩)
  | outDone x tmp =>
    obtain ⟨n, total, rfl⟩ := engineOutDone_eq h
    exact .inl ⟨(hidle hl.1).symm, rfl, rfl⟩
  | ev resub =>
    obtain ⟨_, ⟨hlog, hev⟩ | ⟨p, room, wrote, hev, hlog⟩ | ⟨f, _, _, hev, hlog⟩⟩ := evStep_cases h
    · rw [hlog]; exact .inl ⟨hev, rfl, rfl⟩
    · rw [hlog]; exact .inr (.inr ⟨p, room, wrote, hev, rfl, rfl⟩)
    · rw [hlog]; exact .inl ⟨hev, rfl, rfl⟩
  | read =>
    obtain ⟨hev, _, hlog⟩ := engineRead_log h
    rw [hev, hlog]
    exact .inl ⟨rfl, rfl, rfl⟩
  | write =>
    obtain ⟨hev, n₀, pc, _, ⟨_, _, _, _, hlog⟩ | ⟨_, _, _, _, _, _, hlog⟩⟩ := engineWrite_cases h
    · rw [hev, hlog]; exact .inl ⟨rfl, rfl, rfl⟩
    · rw [hev, hlog]; exact .inl ⟨rfl, rfl, rfl⟩
  | _ =>
    obtain rfl := Option.some.inj h
    exact .inl ⟨rfl, rfl, rfl⟩

/-- A transfer is filled, or none is. -/
theorem engineExec_fills {e t : EngineState} {l : EngineLabel} (h : engineExec e l = some t) :
    t.log.fills = e.log.fills ∨
    ∃ f, l = .ev f.resubmitted ∧ t.log.fills = e.log.fills ++ [f] := by
  cases l with
  | inDone x tmp => obtain rfl := Option.some.inj h; exact .inl rfl
  | outDone x tmp =>
    obtain ⟨n, total, rfl⟩ := engineOutDone_eq h
    exact .inl rfl
  | ev resub =>
    obtain ⟨_, ⟨hlog, _⟩ | ⟨_, _, _, _, hlog⟩ | ⟨f, _, rfl, _, hlog⟩⟩ := evStep_cases h
    · rw [hlog]; exact .inl rfl
    · rw [hlog]; exact .inl rfl
    · rw [hlog]; exact .inr ⟨f, rfl, rfl⟩
  | read => rw [(engineRead_log h).2.2]; exact .inl rfl
  | write =>
    obtain ⟨_, _, _, _, ⟨_, _, _, _, hlog⟩ | ⟨_, _, _, _, _, _, hlog⟩⟩ := engineWrite_cases h
    · rw [hlog]; exact .inl rfl
    · rw [hlog]; exact .inl rfl
  | _ => obtain rfl := Option.some.inj h; exact .inl rfl

/-- A caller starts to write, goes on with the write, or completes it. -/
theorem engineExec_writes {e t : EngineState} {l : EngineLabel} (h : engineExec e l = some t) :
    (t.wr = e.wr ∧ t.log.writes = e.log.writes) ∨
    (∃ src n, t.wr = some (n, .availW src n) ∧ t.log.writes = e.log.writes) ∨
    (l = .write ∧ ∃ n₀ pc, e.wr = some (n₀, pc) ∧
      ((∃ R pc', writeStep e.playRing pc = some (R, .inl pc') ∧ t.wr = some (n₀, pc') ∧
          t.log.writes = e.log.writes) ∨
        (∃ R n sp, writeStep e.playRing pc = some (R, .inr (n, sp)) ∧ t.wr = none ∧
          t.log.writes = e.log.writes ++ [(n₀, n)]))) := by
  cases l with
  | outDone x tmp =>
    obtain ⟨n, total, rfl⟩ := engineOutDone_eq h
    exact .inl ⟨rfl, rfl⟩
  | ev resub =>
    obtain ⟨hwr, ⟨hlog, _⟩ | ⟨_, _, _, _, hlog⟩ | ⟨f, _, rfl, _, hlog⟩⟩ := evStep_cases h
    · rw [hlog]; exact .inl ⟨hwr, rfl⟩
    · rw [hlog]; exact .inl ⟨hwr, rfl⟩
    · rw [hlog]; exact .inl ⟨hwr, rfl⟩
  | read =>
    obtain ⟨_, hwr, hlog⟩ := engineRead_log h
    rw [hlog]; exact .inl ⟨hwr, rfl⟩
  | write =>
    obtain ⟨_, n₀, pc, hpc, ⟨R, pc', hst, hwr, hlog⟩ | ⟨R, n, sp, _, hst, hwr, hlog⟩⟩ :=
      engineWrite_cases h
    · rw [hlog]; exact .inr (.inr ⟨rfl, n₀, pc, hpc, .inl ⟨R, pc', hst, hwr, rfl⟩⟩)
    · rw [hlog]; exact .inr (.inr ⟨rfl, n₀, pc, hpc, .inr ⟨R, n, sp, hst, hwr, rfl⟩⟩)
  | callWrite src n =>
    obtain rfl := Option.some.inj h
    exact .inr (.inl ⟨src, n, rfl, rfl⟩)
  | inDone x tmp =>
    obtain rfl := Option.some.inj h
    obtain ⟨n, hn⟩ := countXfer_cases e x.status
    rw [hn]
    exact .inl ⟨rfl, rfl⟩
  | callRead dst n => obtain rfl := Option.some.inj h; exact .inl ⟨rfl, rfl⟩

/-! ## Every run -/

/-- The engine starts with nothing in the rings and nothing recorded. -/
theorem engineStart_inv {ringFrames : ℤ} (h0 : 0 ≤ ringFrames) (hs : (ringFrames + 1) * 6 < 2 ^ 31)
    {e : EngineState} (h : (engineMachine ringFrames).init e) : EngineInv e := by
  obtain ⟨R, hR, rfl⟩ := h
  obtain ⟨R', hR', hempty⟩ := ringInit_empty (0 : ℚ) h0 hs
  obtain rfl : R' = R := congrArg Prod.fst (Option.some.inj (hR'.symm.trans hR))
  have hinv := hempty.inv hs
  refine ⟨⟨⟨[], hinv, rfl⟩, ?_, trivial, ?_, rfl⟩, ⟨⟨[], hinv, rfl⟩, ?_, trivial, ?_, rfl, ?_⟩⟩
  · exact fun pc hpc => absurd hpc (Option.not_mem_none pc)
  · exact fun r hr => absurd hr List.not_mem_nil
  · exact fun c hc => absurd hc (Option.not_mem_none c)
  · exact fun f hf => absurd hf List.not_mem_nil
  · have hsilent := Region.slice_fill (npkt * pktOut) (0 : Byte) 0 (npkt * pktOut)
    exact (congrArg (List.replicate nxfr) hsilent).trans (List.append_nil _).symm

/-- The invariant holds in every state of every run. -/
theorem engine_inv {ringFrames : ℤ} (h0 : 0 ≤ ringFrames) (hs : (ringFrames + 1) * 6 < 2 ^ 31)
    {e : EngineState} (h : (engineMachine ringFrames).Reach e) : EngineInv e := by
  refine h.invariant (fun e he => engineStart_inv h0 hs he) ?_
  intro s l t _ hi hstep _
  obtain ⟨u, hu, hinv⟩ := engineExec_inv hi hstep.1
  obtain rfl : u = t := Option.some.inj (hu.symm.trans hstep.2)
  exact hinv

/-- No step of a run is undefined. -/
theorem EngineInv.defined {e : EngineState} (h : EngineInv e) (ringFrames : ℤ) :
    (engineMachine ringFrames).Defined e := by
  intro l hl
  obtain ⟨t, ht, _⟩ := engineExec_inv h hl
  exact Option.isSome_iff_exists.mpr ⟨t, ht⟩

/-- The packets dealt with, followed by those pending, are those that arrived. -/
theorem engine_arrived {ringFrames : ℤ} {e : EngineState} (h : (engineMachine ringFrames).Reach e) :
    e.log.packets.map PacketRec.packet ++ e.ev.pending = e.log.arrived := by
  refine h.invariant (I := fun e =>
    e.log.packets.map PacketRec.packet ++ e.ev.pending = e.log.arrived) ?_ ?_
  · intro e he
    obtain ⟨R, _, rfl⟩ := he
    rfl
  · intro s l t _ hi hstep _
    rcases engineExec_packets hstep.1 hstep.2 with ⟨hev, harr, hrec⟩ |
      ⟨x, _, _, hev, hev', harr, hrec⟩ | ⟨p, _, _, hev, harr, hrec⟩
    · rw [hev, harr, hrec, hi]
    · rw [hev', harr, hrec, ← hi, hev, List.append_nil]
    · rw [harr, hrec, ← hi, hev, List.map_append, List.append_assoc]
      rfl

end DjmT1.Audio
