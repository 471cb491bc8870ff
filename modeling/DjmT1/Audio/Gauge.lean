import DjmT1.Audio.EngineInv

/-!
# What the rings held when they were looked at

`ring_write` is the only one to move `w`: the room that it works out is the room there
is when it loads `r`. `ring_read` is the only one to move `r`: the frames that it counts
are those there are when it loads `w`. An observer of the two rings notes both down, for
every call, and what OUT transfers complete.

* `writeStep_gauged`, `readStep_gauged`: the calls work with these numbers.
* `gauge_inv`: so do the records of the engine, one for each packet and each transfer.
-/

namespace DjmT1.Audio

open DjmT1.Lib DjmT1.Lib.Circular

section Calls

variable {α : Type} {R R' : Ring α} {q : List (List α)} {n₀ g : ℤ}

/-- The room in the ring when a `ring_write` works it out; `g` if it does not now. -/
def WritePc.gauge (R : Ring α) (g : ℤ) : WritePc α → ℤ
  | .availR _ _ _ => R.cap - 1 - R.used
  | .availW _ _ | .loadW _ _ _ | .copy _ _ _ _ _ => g

/-- The frames in the ring when a `ring_read` loads `w`; `g` if it does not now. -/
def ReadPc.gauge (R : Ring α) (g : ℤ) : ReadPc α → ℤ
  | .availW _ _ => R.used
  | .availR _ _ _ | .loadR _ _ _ | .copy _ _ _ _ _ => g

/-- The room that a `ring_write` works with was `g`. -/
def WritePc.Gauged (g : ℤ) : WritePc α → Prop
  | .availW _ _ | .availR _ _ _ => True
  | .loadW _ _ sp | .copy _ _ sp _ _ => sp = g

/-- The number of frames that a `ring_read` works with was `g`. -/
def ReadPc.Gauged (R : Ring α) (g : ℤ) : ReadPc α → Prop
  | .availW _ _ => True
  | .availR _ _ w => occ R.cap w R.r = g
  | .loadR _ _ av | .copy _ _ av _ _ => av = g

theorem ReadPc.Gauged.stable {pc : ReadPc α} (h : pc.Gauged R g) (hm : WriterMoves R R') :
    pc.Gauged R' g := by
  cases pc with
  | availR dst n w =>
    unfold ReadPc.Gauged at h ⊢
    rw [hm.cap, hm.r]
    exact h
  | _ => exact h

theorem writeStep_gauged {pc : WritePc α} (h : RingInv R q) (hp : WriteOk R n₀ pc)
    (hg : pc.Gauged g) :
    (∀ R' pc', writeStep R pc = some (R', .inl pc') → pc'.Gauged (pc.gauge R g)) ∧
    (∀ R' n sp, writeStep R pc = some (R', .inr (n, sp)) → sp = pc.gauge R g) := by
  have hok := h.toRingOk
  cases pc with
  | availW src n =>
    refine ⟨fun R' pc' hst => ?_, fun R' n sp hst => ?_⟩
    · cases hst; trivial
    · cases hst
  | availR src n w =>
    obtain ⟨rfl, rfl⟩ := hp.2
    rw [writeStep_availR hok]
    refine ⟨fun R' pc' he => ?_, fun R' n sp he => ?_⟩
    · cases he; rfl
    · cases he
  | loadW src n sp =>
    refine ⟨fun R' pc' hst => ?_, fun R' n sp hst => ?_⟩
    · cases hst; exact hg
    · cases hst
  | copy src n sp w i =>
    simp only [writeStep, Option.bind_eq_bind, Option.pure_def]
    refine ⟨fun R' pc' hst => ?_, fun R' n' sp' hst => ?_⟩
    · split_ifs at hst
      · obtain ⟨R₁, _, he⟩ := Option.bind_eq_some_iff.mp hst
        cases he; exact hg
      · obtain ⟨w', _, he⟩ := Option.bind_eq_some_iff.mp hst
        cases he
    · split_ifs at hst
      · obtain ⟨R₁, _, he⟩ := Option.bind_eq_some_iff.mp hst
        cases he
      · obtain ⟨w', _, he⟩ := Option.bind_eq_some_iff.mp hst
        cases he; exact hg

theorem readStep_gauged {pc : ReadPc α} (h : RingInv R q) (hp : ReadOk R n₀ pc)
    (hg : pc.Gauged R g) :
    (∀ R' pc', readStep R pc = some (R', .inl pc') → pc'.Gauged R' (pc.gauge R g)) ∧
    (∀ R' dst n av, readStep R pc = some (R', .inr (dst, n, av)) → av = pc.gauge R g) := by
  have hok := h.toRingOk
  cases pc with
  | availW dst n =>
    refine ⟨fun R' pc' hst => ?_, fun R' dst n av hst => ?_⟩
    · cases hst; rfl
    · cases hst
  | availR dst n w =>
    obtain ⟨_, hw, _⟩ := hp.2
    simp only [readStep, Option.bind_eq_bind, Option.pure_def]
    rw [availAt_eq hok.cap_lt hw hok.rindex, Option.bind_some]
    refine ⟨fun R' pc' he => ?_, fun R' dst n av he => ?_⟩
    · cases he; exact hg
    · cases he
  | loadR dst n av =>
    refine ⟨fun R' pc' hst => ?_, fun R' dst n av hst => ?_⟩
    · cases hst; exact hg
    · cases hst
  | copy dst n av r i =>
    simp only [readStep, Option.bind_eq_bind, Option.pure_def]
    refine ⟨fun R' pc' hst => ?_, fun R' dst' n' av' hst => ?_⟩
    · split_ifs at hst
      · obtain ⟨dst', _, he⟩ := Option.bind_eq_some_iff.mp hst
        cases he; exact hg
      · obtain ⟨r', _, he⟩ := Option.bind_eq_some_iff.mp hst
        cases he
    · split_ifs at hst
      · obtain ⟨dst', _, he⟩ := Option.bind_eq_some_iff.mp hst
        cases he
      · obtain ⟨r', _, he⟩ := Option.bind_eq_some_iff.mp hst
        cases he; exact hg

theorem writeStep_moves {pc : WritePc α} {x : WritePc α ⊕ ℤ × ℤ} (h : RingInv R q)
    (hp : WriteOk R n₀ pc) (hst : writeStep R pc = some (R', x)) : WriterMoves R R' := by
  rcases writeStep_spec h hp with ⟨R₁, pc', hstep, -, -, -, hm⟩ | ⟨R₁, n, sp, hstep, -, -, -, hm⟩
  · cases hst.symm.trans hstep; exact hm
  · cases hst.symm.trans hstep; exact hm

end Calls

/-! ## An observer of the rings of the engine -/

/-- What has been noted down. -/
structure Gauge where
  /-- the room in the capture ring, for the packet that `in_cb` is at -/
  room : ℤ
  /-- the frames in the playback ring, for the transfer that `out_cb` is at -/
  held : ℤ
  /-- the frames in the capture ring, for the `djmt1_iso_read` in progress -/
  reading : ℤ
  /-- the room in the playback ring, for the `djmt1_iso_write` in progress -/
  writing : ℤ
  /-- the same for the packets, transfers and calls dealt with -/
  rooms : List ℤ
  helds : List ℤ
  reads : List ℤ
  writes : List ℤ
  /-- `num_iso_packets` of the OUT transfers that have completed -/
  completed : List ℕ

/-- The room for the packet that `in_cb` is at. -/
def EvPc.room (R : Ring ℚ) (g : ℤ) : EvPc → ℤ
  | .inWrite _ _ _ pc => pc.gauge R g
  | .idle | .inCb _ _ | .outRead _ _ _ => R.cap - 1 - R.used

/-- The frames for the transfer that `out_cb` is at. -/
def EvPc.held (R : Ring ℚ) (g : ℤ) : EvPc → ℤ
  | .outRead _ _ pc => pc.gauge R g
  | .idle | .inCb _ _ | .inWrite _ _ _ _ => R.used

/-- The OUT transfer that `out_cb` is at. -/
def EvPc.filling : EvPc → List ℕ
  | .outRead x _ _ => [x.numIsoPackets]
  | .idle | .inCb _ _ | .inWrite _ _ _ _ => []

/-- `l`, with `x` at its end if `c` holds. -/
def noteIf {β : Type} (c : Prop) [Decidable c] (l : List β) (x : β) : List β :=
  if c then l ++ [x] else l

/-- What has been noted down after a step from `e` to `t`. -/
def Gauge.next (g : Gauge) (e : EngineState) (l : EngineLabel) (t : EngineState) : Gauge :=
  match l with
  | .outDone x _ => { g with completed := g.completed ++ [x.numIsoPackets] }
  | .ev _ =>
    let room := e.ev.room e.capRing g.room
    let held := e.ev.held e.playRing g.held
    { g with
      room
      held
      rooms := noteIf (e.log.packets.length < t.log.packets.length) g.rooms room
      helds := noteIf (e.log.fills.length < t.log.fills.length) g.helds held }
  | .read =>
    let reading := (e.rd.map (ReadPc.gauge e.capRing g.reading)).getD g.reading
    { g with reading, reads := noteIf (t.rd = none) g.reads reading }
  | .write =>
    let writing := (e.wr.map fun c => c.2.gauge e.playRing g.writing).getD g.writing
    { g with writing, writes := noteIf (t.wr = none) g.writes writing }
  | .inDone _ _ | .callRead _ _ | .callWrite _ _ => g

/-- The engine and an observer of its rings. -/
def gaugedMachine (ringFrames : ℤ) : Machine (EngineState × Gauge) EngineLabel :=
  (engineMachine ringFrames).observe (fun _ => ⟨0, 0, 0, 0, [], [], [], [], []⟩) Gauge.next

instance (n : ℤ) (x : EngineState × Gauge) (l : EngineLabel) :
    Decidable ((gaugedMachine n).enabled x l) :=
  inferInstanceAs (Decidable ((engineMachine n).enabled x.1 l))

/-- The records say what the rings held, one for each packet and each transfer. -/
structure GaugeInv (e : EngineState) (g : Gauge) : Prop where
  room : ∀ p rest nf pc, e.ev = .inWrite p rest nf pc → pc.Gauged g.room
  held : ∀ x total pc, e.ev = .outRead x total pc → pc.Gauged e.playRing g.held
  reading : ∀ pc ∈ e.rd, pc.Gauged e.capRing g.reading
  writing : ∀ c ∈ e.wr, c.2.Gauged g.writing
  rooms : e.log.packets.map PacketRec.room = g.rooms
  helds : e.log.fills.map FillRec.held = g.helds
  completed : e.log.fills.map FillRec.numIsoPackets ++ e.ev.filling = g.completed

variable {e t : EngineState} {g : Gauge}

/-- A step of `in_cb` or `out_cb`. -/
theorem GaugeInv.ev {resub : Bool} (h : GaugeInv e g) (he : EngineInv e)
    (hst : evStep e resub = some t) : GaugeInv t (g.next e (.ev resub) t) := by
  obtain ⟨q, hq, _⟩ := he.cap.queue
  obtain ⟨q', hq', _⟩ := he.play.queue
  have hcap := he.cap.ev
  have hplay := he.play.ev
  cases evStep_move hst with
  | leave hev =>
    have hfill := h.completed
    rw [hev] at hfill
    simp only [Gauge.next, noteIf, lt_irrefl, if_false]
    exact ⟨by simp, by simp, h.reading, h.writing, h.rooms, h.helds, hfill⟩
  | decode hev =>
    have hfill := h.completed
    rw [hev] at hfill
    simp only [Gauge.next, noteIf, lt_irrefl, if_false]
    refine ⟨?_, by simp, h.reading, h.writing, h.rooms, h.helds, hfill⟩
    rintro _ _ _ _ ⟨⟩
    trivial
  | skip hev =>
    have hfill := h.completed
    rw [hev] at hfill
    simp only [Gauge.next, noteIf, skipPacket, hev, EvPc.room, List.length_append,
      List.length_singleton, Nat.lt_succ_self, if_true, lt_irrefl, if_false]
    refine ⟨by simp, by simp, h.reading, h.writing, ?_, h.helds, hfill⟩
    rw [List.map_append, h.rooms]
    rfl
  | @write p rest nf pc pc' R hev hw =>
    have hfill := h.completed
    rw [hev] at hfill hcap
    obtain ⟨_, _, _, _, hok⟩ := hcap
    have hmoves := writeStep_moves hq hok hw
    simp only [Gauge.next, noteIf, lt_irrefl, if_false, hev, EvPc.room]
    refine ⟨?_, by simp, fun pc hpc => (h.reading pc hpc).stable hmoves, h.writing, h.rooms,
      h.helds, hfill⟩
    rintro _ _ _ _ ⟨⟩
    exact (writeStep_gauged hq hok (h.room _ _ _ _ hev)).1 R pc' hw
  | @wrote p rest nf wrote room pc R hev hw =>
    have hfill := h.completed
    rw [hev] at hfill hcap
    obtain ⟨_, _, _, _, hok⟩ := hcap
    have hmoves := writeStep_moves hq hok hw
    have hroom := (writeStep_gauged hq hok (h.room _ _ _ _ hev)).2 R wrote room hw
    simp only [Gauge.next, noteIf, wrotePacket, hev, EvPc.room, List.length_append,
      List.length_singleton, Nat.lt_succ_self, if_true, lt_irrefl, if_false]
    refine ⟨by simp, by simp, fun pc hpc => (h.reading pc hpc).stable hmoves, h.writing, ?_,
      h.helds, hfill⟩
    rw [List.map_append, h.rooms, ← hroom]
    rfl
  | @read x total pc pc' R hev hr =>
    have hfill := h.completed
    rw [hev] at hfill hplay
    obtain ⟨_, _, hok⟩ := hplay
    simp only [Gauge.next, noteIf, lt_irrefl, if_false, hev, EvPc.held]
    refine ⟨by simp, ?_, h.reading, h.writing, h.rooms, h.helds, hfill⟩
    rintro _ _ _ ⟨⟩
    exact (readStep_gauged hq' hok (h.held _ _ _ hev)).1 R pc' hr
  | @fill x total got held pc R tmp b hev hr =>
    have hfill := h.completed
    rw [hev] at hfill hplay
    obtain ⟨_, _, hok⟩ := hplay
    have hheld := (readStep_gauged hq' hok (h.held _ _ _ hev)).2 R tmp got held hr
    simp only [Gauge.next, noteIf, filledTransfer, hev, EvPc.held, List.length_append,
      List.length_singleton, Nat.lt_succ_self, if_true, lt_irrefl, if_false]
    refine ⟨by simp, by simp, h.reading, h.writing, h.rooms, ?_, ?_⟩
    · rw [List.map_append, h.helds, ← hheld]
      rfl
    · rw [← hfill, List.map_append, List.append_assoc]
      rfl

/-- A step of a caller's `djmt1_iso_read`. -/
theorem GaugeInv.read (h : GaugeInv e g) (he : EngineInv e)
    (hst : engineExec e .read = some t) : GaugeInv t (g.next e .read t) := by
  obtain ⟨q, hq, _⟩ := he.cap.queue
  simp only [engineExec, Option.bind_eq_bind, Option.pure_def] at hst
  obtain ⟨pc, hpc, hst⟩ := Option.bind_eq_some_iff.mp hst
  obtain ⟨n₀, hok⟩ := he.cap.rd pc hpc
  have hgauged := readStep_gauged hq hok (h.reading pc hpc)
  obtain ⟨⟨R, pc' | ⟨dst, n, av⟩⟩, hr, hst⟩ := Option.bind_eq_some_iff.mp hst
  · obtain rfl := Option.some.inj hst
    refine ⟨h.room, h.held, ?_, h.writing, h.rooms, h.helds, h.completed⟩
    rintro _ ⟨⟩
    simp only [Gauge.next, hpc, Option.map_some, Option.getD_some]
    exact hgauged.1 R pc' hr
  · obtain rfl := Option.some.inj hst
    exact ⟨h.room, h.held, fun _ hnone => absurd hnone (Option.not_mem_none _), h.writing, h.rooms,
      h.helds, h.completed⟩

/-- A step of a caller's `djmt1_iso_write`. -/
theorem GaugeInv.write (h : GaugeInv e g) (he : EngineInv e)
    (hst : engineExec e .write = some t) : GaugeInv t (g.next e .write t) := by
  obtain ⟨q, hq, _⟩ := he.play.queue
  simp only [engineExec, Option.bind_eq_bind, Option.pure_def] at hst
  obtain ⟨⟨n₀, pc⟩, hpc, hst⟩ := Option.bind_eq_some_iff.mp hst
  have hok := he.play.wr (n₀, pc) hpc
  have hgauged := writeStep_gauged hq hok (h.writing (n₀, pc) hpc)
  obtain ⟨⟨R, pc' | ⟨n, sp⟩⟩, hw, hst⟩ := Option.bind_eq_some_iff.mp hst
  · have hmoves := writeStep_moves hq hok hw
    obtain rfl := Option.some.inj hst
    refine ⟨h.room, fun x total pc hev => (h.held x total pc hev).stable hmoves, h.reading, ?_,
      h.rooms, h.helds, h.completed⟩
    rintro _ ⟨⟩
    simp only [Gauge.next, hpc, Option.map_some, Option.getD_some]
    exact hgauged.1 R pc' hw
  · have hmoves := writeStep_moves hq hok hw
    obtain rfl := Option.some.inj hst
    exact ⟨h.room, fun x total pc hev => (h.held x total pc hev).stable hmoves, h.reading,
      fun _ hnone => absurd hnone (Option.not_mem_none _), h.rooms, h.helds, h.completed⟩

/-- Every step keeps the records and the observer together. -/
theorem GaugeInv.step {l : EngineLabel} (h : GaugeInv e g) (he : EngineInv e)
    (hen : engineEnabled e l) (hst : engineExec e l = some t) : GaugeInv t (g.next e l t) := by
  have hidle : e.ev.isIdle → e.ev.filling = [] := by
    intro hi
    cases hev : e.ev with
    | outRead => rw [hev] at hi; exact absurd hi Bool.false_ne_true
    | _ => rfl
  cases l with
  | inDone x tmp =>
    obtain rfl := Option.some.inj hst
    obtain ⟨n, hn⟩ := countXfer_cases e x.status
    have hfill := h.completed
    rw [hidle hen.1] at hfill
    rw [hn]
    exact ⟨by simp, by simp, h.reading, h.writing, h.rooms, h.helds, hfill⟩
  | outDone x tmp =>
    obtain ⟨n, total, rfl⟩ := engineOutDone_eq hst
    have hfill := h.completed
    rw [hidle hen.1, List.append_nil] at hfill
    refine ⟨by simp, ?_, h.reading, h.writing, h.rooms, h.helds, ?_⟩
    · rintro _ _ _ ⟨⟩
      trivial
    · rw [Gauge.next, ← hfill]
      rfl
  | ev resub => exact h.ev he hst
  | read => exact h.read he hst
  | write => exact h.write he hst
  | callRead dst n =>
    obtain rfl := Option.some.inj hst
    refine ⟨h.room, h.held, ?_, h.writing, h.rooms, h.helds, h.completed⟩
    rintro _ ⟨⟩
    trivial
  | callWrite src n =>
    obtain rfl := Option.some.inj hst
    refine ⟨h.room, h.held, h.reading, ?_, h.rooms, h.helds, h.completed⟩
    rintro _ ⟨⟩
    trivial

/-- What the observer starts with. -/
theorem gaugeInv_start {ringFrames : ℤ} (h : (engineMachine ringFrames).init e) :
    GaugeInv e ⟨0, 0, 0, 0, [], [], [], [], []⟩ := by
  obtain ⟨R, _, rfl⟩ := h
  exact ⟨by simp [engineStart], by simp [engineStart], by simp [engineStart],
    by simp [engineStart], rfl, rfl, rfl⟩

/-- The records and the observer agree in every state of every run. -/
theorem gauge_inv {ringFrames : ℤ} (h0 : 0 ≤ ringFrames) (hs : (ringFrames + 1) * 6 < 2 ^ 31)
    {x : EngineState × Gauge} (h : (gaugedMachine ringFrames).Reach x) : GaugeInv x.1 x.2 := by
  refine Machine.ReachIf.observe (C := fun _ _ _ => True) (I := GaugeInv) h
    (fun e he => gaugeInv_start he) ?_
  intro s l t g hr hi hst _
  exact hi.step (engine_inv h0 hs hr) hst.1 hst.2

end DjmT1.Audio
