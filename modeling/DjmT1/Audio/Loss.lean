import DjmT1.Audio.Paths

/-!
# Which losses the counters show

`cap_over`, `play_under` and `xfer_err` are the engine's health line. They show a
frame dropped for lack of room in the capture ring and a transfer padded with
silence, but not a packet that came in with an error, which `in_cb` skips, nor a
frame that `djmt1_iso_write` refuses because the playback ring is full.

* `loss_uncounted`: both kinds of loss happen with no counter moving.
* `no_loss_of_counters`: where all packets come in good and no write asks for more
  than the playback ring has free, a run that moves no counter loses nothing.
-/

namespace DjmT1.Audio

open DjmT1.Lib

variable {ringFrames : ℤ}

/-- A step that moves none of the counters. -/
def SameCounters (e t : EngineState) : Prop :=
  t.capOver = e.capOver ∧ t.playUnder = e.playUnder ∧ t.xferErr = e.xferErr

instance (e t : EngineState) : Decidable (SameCounters e t) :=
  inferInstanceAs (Decidable (_ ∧ _ ∧ _))

/-- Nothing was lost or replaced: all packets of the completed IN transfers dealt
    with went whole into the capture ring, all OUT transfers were filled from the
    playback ring, and all frames passed to `djmt1_iso_write` were accepted. -/
structure NoLoss (log : EngineLog) : Prop where
  captured : ∀ r ∈ log.packets, r.packet.status = .completed ∧ r.wrote = r.packet.nf
  played : ∀ f ∈ log.fills, (f.frames.length : ℤ) = f.total
  written : ∀ c ∈ log.writes, c.2 = c.1

/-- The packets of a completed transfer are all good; a write asks for no more
    frames than are free when it computes the space. -/
def Fits (e : EngineState) : EngineLabel → Prop
  | .inDone x _ => ∀ p ∈ x.packets, p.status = .completed
  | .write =>
    match e.wr with
    | some (_, .availR _ n _) => n ≤ e.playRing.cap - 1 - e.playRing.used
    | _ => True
  | .outDone _ _ | .ev _ | .callRead _ _ | .read | .callWrite _ _ => True

/-! ## Losses that no counter shows -/

/-- A good packet is captured and the next one has an error. -/
def badPacketRun : List EngineLabel :=
  .inDone ⟨.completed, [goodPacket 1 (by decide), badPacket]⟩ (Region.fill 336 0) ::
    List.replicate 8 (.ev true)

/-- Three frames are written to a ring with room for two. -/
def refusedRun : List EngineLabel :=
  .callWrite (Region.fill 18 1) 3 :: List.replicate 6 .write

/-- Runs that move no counter lose a packet, and refuse a frame. -/
theorem loss_uncounted :
    (∃ e, (engineMachine 2).ReachIf (fun e _ t => SameCounters e t) e ∧
      (∃ r ∈ e.log.packets, r.packet.status ≠ .completed) ∧ ¬ NoLoss e.log) ∧
    (∃ e, (engineMachine 2).ReachIf (fun e _ t => SameCounters e t) e ∧
      (∃ c ∈ e.log.writes, c.2 < c.1) ∧ ¬ NoLoss e.log) := by
  constructor
  · refine ⟨_, Machine.playIf_reachIf (.init ⟨startRing 2, rfl, rfl⟩)
      (show (engineMachine 2).playIf (fun e _ t => SameCounters e t) (engineStart (startRing 2))
        badPacketRun = some _ from rfl), ?_⟩
    have hbad : (⟨badPacket, 1, 0⟩ : PacketRec) ∈
        [⟨goodPacket 1 (by decide), 2, 1⟩, ⟨badPacket, 1, 0⟩] :=
      List.mem_cons_of_mem _ List.mem_cons_self
    exact ⟨⟨_, hbad, by decide⟩, fun h => absurd (h.captured _ hbad).1 (by decide)⟩
  · refine ⟨_, Machine.playIf_reachIf (.init ⟨startRing 2, rfl, rfl⟩)
      (show (engineMachine 2).playIf (fun e _ t => SameCounters e t) (engineStart (startRing 2))
        refusedRun = some _ from rfl), ?_⟩
    have hrefused : ((3, 2) : ℤ × ℤ) ∈ [((3 : ℤ), (2 : ℤ))] := List.mem_cons_self
    exact ⟨⟨_, hrefused, by decide⟩, fun h => absurd (h.written _ hrefused) (by decide)⟩

/-! ## The losses they do show -/

/-- The `n` of a `ring_write` in progress. -/
def WritePc.n {α : Type} : WritePc α → ℤ
  | .availW _ n | .availR _ n _ | .loadW _ n _ | .copy _ n _ _ _ => n

/-- A write that asks for no more than is free is not clamped, and accepts all. -/
theorem writeStep_whole {α : Type} {R : Ring α} {q : List (List α)} {n₀ : ℤ} {pc : WritePc α}
    (h : RingInv R q) (hp : WriteOk R n₀ pc)
    (hroom : ∀ src n w, pc = .availR src n w → n ≤ R.cap - 1 - R.used) :
    (∀ R' pc', writeStep R pc = some (R', .inl pc') → pc'.n = pc.n) ∧
    (∀ R' n sp, writeStep R pc = some (R', .inr (n, sp)) → n = pc.n) := by
  have hok := h.toRingOk
  cases pc with
  | availW src n =>
    refine ⟨fun R' pc' hst => ?_, fun R' n sp hst => ?_⟩
    · cases hst; rfl
    · cases hst
  | availR src n w =>
    obtain ⟨rfl, rfl⟩ := hp.2
    have hfree := hroom src n R.w rfl
    have hst := writeStep_availR hok src n
    rw [if_neg (by omega)] at hst
    rw [hst]
    refine ⟨fun R' pc' he => ?_, fun R' n sp he => ?_⟩
    · cases he; rfl
    · cases he
  | loadW src n sp =>
    refine ⟨fun R' pc' hst => ?_, fun R' n sp hst => ?_⟩
    · cases hst; rfl
    · cases hst
  | copy src n sp w i =>
    simp only [writeStep, Option.bind_eq_bind, Option.pure_def]
    refine ⟨fun R' pc' hst => ?_, fun R' n' sp' hst => ?_⟩
    · split_ifs at hst
      · obtain ⟨R₁, _, he⟩ := Option.bind_eq_some_iff.mp hst
        cases he; rfl
      · obtain ⟨w', _, he⟩ := Option.bind_eq_some_iff.mp hst
        cases he
    · split_ifs at hst
      · obtain ⟨R₁, _, he⟩ := Option.bind_eq_some_iff.mp hst
        cases he
      · obtain ⟨w', _, he⟩ := Option.bind_eq_some_iff.mp hst
        cases he; rfl

/-- What such runs keep: nothing is lost so far, the pending packets are good, and
    the write in progress has not been clamped. -/
structure LossInv (e : EngineState) : Prop where
  log : NoLoss e.log
  pending : ∀ p ∈ e.ev.pending, p.status = .completed
  whole : ∀ c ∈ e.wr, c.2.n = c.1

/-- A transfer that `play_under` does not count was filled from the ring. -/
theorem FillRec.Ok.whole {f : FillRec} (h : f.Ok) (hshort : f.short = false) :
    (f.frames.length : ℤ) = f.total := by
  obtain ⟨_, _, hlen, _⟩ := h
  have hge : ¬ (f.frames.length : ℤ) < f.total := by simpa [FillRec.short] using hshort
  omega

/-- A write that fits is recorded as accepted in full. -/
theorem LossInv.writes {e t : EngineState} {l : EngineLabel} (h : LossInv e) (he : EngineInv e)
    (hex : engineExec e l = some t) (hfits : Fits e l) :
    (∀ c ∈ t.log.writes, c.2 = c.1) ∧ ∀ c ∈ t.wr, c.2.n = c.1 := by
  rcases engineExec_writes hex with ⟨hwr, hlog⟩ | ⟨src, n, hwr, hlog⟩ | ⟨rfl, n₀, pc, hpc, hcall⟩
  · rw [hwr, hlog]
    exact ⟨h.log.written, h.whole⟩
  · rw [hwr, hlog]
    refine ⟨h.log.written, ?_⟩
    rintro _ ⟨⟩
    rfl
  · have hn : pc.n = n₀ := h.whole (n₀, pc) hpc
    obtain ⟨q, hq, _⟩ := he.play.queue
    have hroom : ∀ src n w, pc = .availR src n w → n ≤ e.playRing.cap - 1 - e.playRing.used := by
      rintro src n w rfl
      simpa only [Fits, hpc] using hfits
    obtain ⟨hinl, hinr⟩ := writeStep_whole hq (he.play.wr (n₀, pc) hpc) hroom
    rcases hcall with ⟨R, pc', hst, hwr, hlog⟩ | ⟨R, n, sp, hst, hwr, hlog⟩
    · rw [hwr, hlog]
      refine ⟨h.log.written, ?_⟩
      rintro _ ⟨⟩
      exact (hinl R pc' hst).trans hn
    · rw [hwr, hlog, List.forall_mem_append, List.forall_mem_singleton]
      exact ⟨⟨h.log.written, (hinr R n sp hst).trans hn⟩,
        fun c hc => absurd hc (Option.not_mem_none c)⟩

/-- One step that fits and moves no counter keeps `LossInv`. -/
theorem LossInv.step {e t : EngineState} {l : EngineLabel} (h : LossInv e) (he : EngineInv e)
    (ht : EngineInv t) (hstep : engineEnabled e l ∧ engineExec e l = some t) (hfits : Fits e l)
    (hsame : SameCounters e t) : LossInv t := by
  obtain ⟨hen, hex⟩ := hstep
  refine ⟨⟨?_, ?_, (h.writes he hex hfits).1⟩, ?_, (h.writes he hex hfits).2⟩
  · -- a packet is written whole, or `cap_over` would move
    rcases engineExec_packets hen hex with ⟨_, _, hrec⟩ | ⟨_, _, _, _, _, _, hrec⟩ |
      ⟨p, room, wrote, hev, _, hrec⟩
    · rw [hrec]; exact h.log.captured
    · rw [hrec]; exact h.log.captured
    · have hst : p.status = .completed := h.pending p (by rw [hev]; exact List.mem_cons_self)
      have hover := hsame.1
      rw [ht.cap.over_eq, he.cap.over_eq, hrec] at hover
      have hok := ht.cap.recs
      rw [hrec, List.forall_mem_append, List.forall_mem_singleton] at hok ⊢
      exact ⟨h.log.captured, hst, hok.2.whole hst (count32_same hover)⟩
  · -- a transfer is filled from the ring, or `play_under` would move
    rcases engineExec_fills hex with hfills | ⟨f, _, hfills⟩
    · rw [hfills]; exact h.log.played
    · have hunder := hsame.2.1
      rw [ht.play.under_eq, he.play.under_eq, hfills] at hunder
      have hok := ht.play.recs
      rw [hfills, List.forall_mem_append, List.forall_mem_singleton] at hok ⊢
      exact ⟨h.log.played, hok.2.whole (count32_same hunder)⟩
  · -- packets become pending when their transfer completes
    rcases engineExec_packets hen hex with ⟨hev, _, _⟩ | ⟨x, tmp, rfl, _, hev, _, _⟩ |
      ⟨p, _, _, hev, _, _⟩
    · rw [hev]; exact h.pending
    · rw [hev]; exact hfits
    · intro p' hp'
      exact h.pending p' (by rw [hev]; exact List.mem_cons_of_mem p hp')

/-- **Losses that do move a counter.** In every run that moves none of the counters
    and whose steps all fit, no audio is lost or replaced: neither of the packets that
    arrived, up to those that `in_cb` has yet to deal with, nor in the OUT transfers that
    completed, up to the one that `out_cb` is at, nor in the writes. -/
theorem no_loss_of_counters (h0 : 0 ≤ ringFrames) (hs : (ringFrames + 1) * 6 < 2 ^ 31)
    {e : EngineState} {g : Gauge}
    (h : (gaugedMachine ringFrames).ReachIf (fun x l y => Fits x.1 l ∧ SameCounters x.1 y.1)
      (e, g)) :
    NoLoss e.log ∧ e.log.packets.map PacketRec.packet ++ e.ev.pending = e.log.arrived ∧
    e.log.fills.map FillRec.numIsoPackets ++ e.ev.filling = g.completed := by
  have hr : (engineMachine ringFrames).ReachIf (fun e l t => Fits e l ∧ SameCounters e t) e :=
    Machine.ReachIf.unobserved (C := fun e l t => Fits e l ∧ SameCounters e t) h
  have hinv : LossInv e := by
    apply hr.invariant
    · rintro e ⟨R, _, rfl⟩
      refine ⟨⟨?_, ?_, ?_⟩, ?_, ?_⟩
      · exact fun r hr => absurd hr List.not_mem_nil
      · exact fun f hf => absurd hf List.not_mem_nil
      · exact fun c hc => absurd hc List.not_mem_nil
      · exact fun p hp => absurd hp List.not_mem_nil
      · exact fun c hc => absurd hc (Option.not_mem_none c)
    · intro s l t hr hi hstep hc
      have ht : (engineMachine ringFrames).Reach t := .step hr.reach hstep trivial
      exact hi.step (engine_inv h0 hs hr.reach) (engine_inv h0 hs ht) hstep hc.1 hc.2
  exact ⟨hinv.log, engine_arrived hr.reach, (gauge_inv h0 hs h.reach).completed⟩

instance (e : EngineState) : (l : EngineLabel) → Decidable (Fits e l)
  | .inDone x _ => inferInstanceAs (Decidable (∀ p ∈ x.packets, p.status = .completed))
  | .write =>
    match h : e.wr with
    | some (_, .availR _ n _) =>
      decidable_of_iff (n ≤ e.playRing.cap - 1 - e.playRing.used) (by simp only [Fits, h])
    | some (_, .availW _ _) | some (_, .loadW _ _ _) | some (_, .copy _ _ _ _ _) | none =>
      .isTrue (by simp only [Fits, h])
  | .outDone _ _ | .ev _ | .callRead _ _ | .read | .callWrite _ _ =>
    inferInstanceAs (Decidable True)

/-- A good packet is captured and two frames are written to a ring with room for
    two. -/
def fittingRun : List EngineLabel :=
  .inDone ⟨.completed, [goodPacket 1 (by decide)]⟩ (Region.fill 336 0) ::
    List.replicate 6 (.ev true) ++ .callWrite (Region.fill 18 1) 2 :: List.replicate 6 .write

theorem no_loss_of_counters_fittingRun :
    ∃ e g, (gaugedMachine 2).playIf (fun x l y => Fits x.1 l ∧ SameCounters x.1 y.1)
        (engineStart (startRing 2), ⟨0, 0, 0, 0, [], [], [], [], []⟩) fittingRun =
          some (e, g) ∧
      NoLoss e.log ∧ e.log.packets.map PacketRec.packet ++ e.ev.pending = e.log.arrived ∧
      e.log.fills.map FillRec.numIsoPackets ++ e.ev.filling = g.completed := by
  have hrun : ∃ e g, (gaugedMachine 2).playIf (fun x l y => Fits x.1 l ∧ SameCounters x.1 y.1)
      (engineStart (startRing 2), ⟨0, 0, 0, 0, [], [], [], [], []⟩) fittingRun =
        some (e, g) := ⟨_, _, rfl⟩
  obtain ⟨e, g, hplay⟩ := hrun
  exact ⟨e, g, hplay, no_loss_of_counters (by decide) (by decide)
    (Machine.playIf_reachIf (.init (gaugedMachine_init 2 rfl)) hplay)⟩

end DjmT1.Audio
