import DjmT1.Audio.Paths
import DjmT1.Audio.PipeWire

/-!
# Between the PipeWire graph and the mixer

`djmt1-pipewire` and `djm_full` let PipeWire call `on_source_process` and
`on_sink_process` while `iso_thread` moves the other ends of the two rings.
`graphMachine` puts the two callbacks, each with its `djmt1_iso_read` or
`djmt1_iso_write` taken step by step, into the engine's interleavings.

* `graphInv_step`: what the callbacks have passed on is what the engine has returned and
  accepted.
* `seen_inv`: their records say what the rings held, one for each buffer that they have
  taken up.
* `graph_paths`: the audio in the buffers that PipeWire gets back is, in order and
  without a gap besides the counted ones, what the mixer sent, with silence only where
  the ring ran dry; and what the mixer is sent is the audio of the buffers that PipeWire
  hands over.
-/

namespace DjmT1.Audio

open DjmT1.Lib

/-- A buffer that `on_source_process` has queued: its memory, the frames that were asked
    for, those that `djmt1_iso_read` returned, and those it found in the ring. -/
structure SourceRec where
  buffer : PwBuffer ℚ
  dst : Region ℚ
  want : ℤ
  got : ℤ
  held : ℤ

/-- A buffer that `on_sink_process` has passed on: its memory, the frames that
    `djmt1_iso_write` took, and the room it found in the ring. -/
structure SinkRec where
  buffer : PwBuffer Byte
  data : Region Byte
  took : ℤ
  room : ℤ

/-- The process: the engine, the buffers that the two callbacks are busy with, and those
    they are done with. -/
structure Graph where
  engine : EngineState
  source : Option (PwBuffer ℚ)
  sink : Option (PwBuffer Byte)
  served : List SourceRec
  sunk : List SinkRec

/-- A step of `iso_thread`. -/
def EngineLabel.isIso : EngineLabel → Bool
  | .inDone _ _ | .outDone _ _ | .ev _ => true
  | .callRead _ _ | .read | .callWrite _ _ | .write => false

/-- What happens next. -/
inductive GraphLabel
  /-- a step of `iso_thread` -/
  | iso (l : EngineLabel)
  /-- PipeWire calls `on_source_process`, which dequeues `b`, and a step of that call -/
  | source (b : PwBuffer ℚ)
  | sourceStep
  /-- the same for `on_sink_process` -/
  | sink (b : PwBuffer Byte)
  | sinkStep

variable (toFloat : Byte → Byte → Byte → Byte → ℚ)

/-- The memory of a buffer is as large as PipeWire says. -/
def GraphLabel.Mapped : GraphLabel → Prop
  | .source b => ∀ dst ∈ b.datas0.data, dst.size = b.datas0.maxsize.toNat / 4
  | .sink b => ∀ data ∈ b.datas0.data, data.size = b.datas0.maxsize.toNat ∧
      b.datas0.chunk.offset.toNat + b.datas0.chunk.size.toNat ≤ b.datas0.maxsize.toNat
  | .iso _ | .sourceStep | .sinkStep => True

def graphEnabled (g : Graph) (l : GraphLabel) : Prop :=
  l.Mapped ∧ match l with
    | .iso l => l.isIso ∧ engineEnabled g.engine l
    | .source _ => g.source.isNone
    | .sourceStep => g.source.isSome
    | .sink _ => g.sink.isNone
    | .sinkStep => g.sink.isSome

/-- `on_source_process` up to its call of `djmt1_iso_read` (audio/djmt1-pipewire.c:31-41,
    midi/djm_full.c:186-196). -/
def sourceEnter (g : Graph) (b : PwBuffer ℚ) : Option Graph :=
  match b.datas0.data with
  | none => some g
  | some dst => do
    let engine ← engineExec g.engine (.callRead dst (sourceWant b.requested b.datas0.maxsize))
    return { g with engine, source := some b }

/-- A step of `djmt1_iso_read`, and the rest of `on_source_process` when it returns. -/
def sourceStep (g : Graph) : Option Graph := do
  let b ← g.source
  let pc ← g.engine.rd
  let engine ← engineExec g.engine .read
  match ← readStep g.engine.capRing pc with
  | (_, .inl _) => return { g with engine }
  | (_, .inr (dst, got, held)) => do
    let want := sourceWant b.requested b.datas0.maxsize
    let dst ← padFrames dst got want
    let chunk := { offset := 0, size := BitVec.ofInt 32 (want * frame), stride := frame }
    let buffer := { b with datas0 := { b.datas0 with data := some dst, chunk } }
    return { g with engine, source := none, served := g.served ++ [⟨buffer, dst, want, got, held⟩] }

/-- `on_sink_process` up to its call of `djmt1_iso_write` (audio/djmt1-pipewire.c:50-57,
    midi/djm_full.c:202-206). -/
def sinkEnter (g : Graph) (b : PwBuffer Byte) : Option Graph :=
  match b.datas0.data with
  | none => some g
  | some data =>
    if b.datas0.chunk.size ≠ 0 then do
      let nframes := b.datas0.chunk.size.toNat / frame
      let engine ← engineExec g.engine (.callWrite (floats toFloat data) nframes)
      return { g with engine, sink := some b }
    else some g

/-- A step of `djmt1_iso_write`, and the rest of `on_sink_process` when it returns. -/
def sinkStep (g : Graph) : Option Graph := do
  let b ← g.sink
  let data ← b.datas0.data
  let (_, pc) ← g.engine.wr
  let engine ← engineExec g.engine .write
  match ← writeStep g.engine.playRing pc with
  | (_, .inl _) => return { g with engine }
  | (_, .inr (took, room)) =>
    return { g with engine, sink := none, sunk := g.sunk ++ [⟨b, data, took, room⟩] }

def graphExec (g : Graph) : GraphLabel → Option Graph
  | .iso l => do
    let engine ← engineExec g.engine l
    return { g with engine }
  | .source b => sourceEnter g b
  | .sourceStep => sourceStep g
  | .sink b => sinkEnter toFloat g b
  | .sinkStep => sinkStep g

/-- The process once `djmt1_iso_start(ringFrames)` has returned. -/
def graphMachine (ringFrames : ℤ) : Machine Graph GraphLabel where
  init g := ∃ e, (engineMachine ringFrames).init e ∧ g = ⟨e, none, none, [], []⟩
  enabled := graphEnabled
  exec := graphExec toFloat

/-- A request that is not negative as an `int`, and audio that starts at the beginning of
    its buffer. -/
def Plain : GraphLabel → Prop
  | .source b => b.requested.toNat % 2 ^ 32 < 2 ^ 31
  | .sink b => b.datas0.chunk.offset = 0
  | .iso _ | .sourceStep | .sinkStep => True

instance : (l : GraphLabel) → Decidable l.Mapped
  | .source b => inferInstanceAs (Decidable (∀ dst ∈ b.datas0.data,
      dst.size = b.datas0.maxsize.toNat / 4))
  | .sink b => inferInstanceAs (Decidable (∀ data ∈ b.datas0.data,
      data.size = b.datas0.maxsize.toNat ∧
      b.datas0.chunk.offset.toNat + b.datas0.chunk.size.toNat ≤ b.datas0.maxsize.toNat))
  | .iso _ | .sourceStep | .sinkStep => inferInstanceAs (Decidable True)

instance : (l : GraphLabel) → Decidable (Plain l)
  | .source b => inferInstanceAs (Decidable (b.requested.toNat % 2 ^ 32 < 2 ^ 31))
  | .sink b => inferInstanceAs (Decidable (b.datas0.chunk.offset = 0))
  | .iso _ | .sourceStep | .sinkStep => inferInstanceAs (Decidable True)

instance (n : ℤ) (g : Graph) : (l : GraphLabel) → Decidable ((graphMachine toFloat n).enabled g l)
  | .iso l =>
    have : Decidable (engineEnabled g.engine l) :=
      inferInstanceAs (Decidable ((engineMachine n).enabled g.engine l))
    inferInstanceAs (Decidable (True ∧ l.isIso = true ∧ engineEnabled g.engine l))
  | .source b => inferInstanceAs (Decidable ((GraphLabel.source b).Mapped ∧ g.source.isNone = true))
  | .sourceStep => inferInstanceAs (Decidable (True ∧ g.source.isSome = true))
  | .sink b => inferInstanceAs (Decidable ((GraphLabel.sink b).Mapped ∧ g.sink.isNone = true))
  | .sinkStep => inferInstanceAs (Decidable (True ∧ g.sink.isSome = true))

/-! ## What has been passed on -/

/-- The frames of a queued buffer that come from the ring, and all that it is published
    as. -/
def SourceRec.audio (r : SourceRec) : List (List ℚ) := frames r.dst r.got.toNat

def SourceRec.published (r : SourceRec) : List (List ℚ) := frames r.dst r.want.toNat

/-- The frames of the valid audio of a buffer that the ring has taken. -/
def SinkRec.audio (r : SinkRec) : List (List ℚ) :=
  frames (floats toFloat (validAudio r.buffer r.data)) r.took.toNat

/-- A buffer is published as the frames asked for, inside its memory: what the ring held,
    and then silence. -/
structure SourceRec.Ok (r : SourceRec) : Prop where
  mapped : Mapped r.buffer r.dst
  want_eq : r.want = sourceWant r.buffer.requested r.buffer.datas0.maxsize
  want_le : r.want ≤ (r.buffer.datas0.maxsize.toNat / 24 : ℕ)
  got_nonneg : 0 ≤ r.got
  got_eq : r.got = min r.want r.held
  published : r.published =
    r.audio ++ List.replicate (r.want - r.got).toNat (List.replicate djmt1Ch 0)
  chunk : r.buffer.datas0.chunk.offset = 0 ∧
    (r.buffer.datas0.chunk.size.toNat : ℤ) = 24 * r.want

/-- Of a buffer the ring takes whole frames, as many as there is room for. -/
structure SinkRec.Ok (r : SinkRec) : Prop where
  valid : ValidBuffer r.buffer r.data
  took_nonneg : 0 ≤ r.took
  took_eq : r.took = min ((r.buffer.datas0.chunk.size.toNat / 24 : ℕ) : ℤ) r.room

/-- The call of `djmt1_iso_read` in progress is for `want` frames. -/
def ReadPc.Asks (want : ℤ) : ReadPc ℚ → Prop
  | .availW _ n | .availR _ n _ => n = want
  | .loadR _ n av | .copy _ n av _ _ => n = min want av

theorem readStep_asks {R R' : Ring ℚ} {pc pc' : ReadPc ℚ} {want : ℤ} (hpc : pc.Asks want)
    (h : readStep R pc = some (R', .inl pc')) : pc'.Asks want := by
  cases pc with
  | availW dst n =>
    obtain ⟨_, hpc'⟩ := Prod.mk.inj (Option.some.inj h)
    obtain rfl := Sum.inl.inj hpc'
    exact hpc
  | availR dst n w =>
    obtain ⟨av, _, h⟩ := Option.bind_eq_some_iff.mp h
    obtain ⟨_, hpc'⟩ := Prod.mk.inj (Option.some.inj h)
    obtain rfl := Sum.inl.inj hpc'
    obtain rfl : n = want := hpc
    simp only [ReadPc.Asks]
    split_ifs <;> omega
  | loadR dst n av =>
    obtain ⟨_, hpc'⟩ := Prod.mk.inj (Option.some.inj h)
    obtain rfl := Sum.inl.inj hpc'
    exact hpc
  | copy dst n av r i =>
    simp only [readStep] at h
    split_ifs at h
    · obtain ⟨dst', _, h⟩ := Option.bind_eq_some_iff.mp h
      obtain ⟨_, hpc'⟩ := Prod.mk.inj (Option.some.inj h)
      obtain rfl := Sum.inl.inj hpc'
      exact hpc
    · obtain ⟨r', _, h⟩ := Option.bind_eq_some_iff.mp h
      obtain ⟨_, hpc'⟩ := Prod.mk.inj (Option.some.inj h)
      exact absurd hpc' Sum.inr_ne_inl

theorem readStep_returns {R R' : Ring ℚ} {pc : ReadPc ℚ} {want got held : ℤ} {dst : Region ℚ}
    (hpc : pc.Asks want) (h : readStep R pc = some (R', .inr (dst, got, held))) :
    got = min want held := by
  cases pc with
  | availW dst n | loadR dst n av =>
    obtain ⟨_, hret⟩ := Prod.mk.inj (Option.some.inj h)
    exact absurd hret Sum.inl_ne_inr
  | availR dst n w =>
    obtain ⟨av, _, h⟩ := Option.bind_eq_some_iff.mp h
    obtain ⟨_, hret⟩ := Prod.mk.inj (Option.some.inj h)
    exact absurd hret Sum.inl_ne_inr
  | copy dst' n av r i =>
    simp only [readStep] at h
    split_ifs at h
    · obtain ⟨dst', _, h⟩ := Option.bind_eq_some_iff.mp h
      obtain ⟨_, hret⟩ := Prod.mk.inj (Option.some.inj h)
      exact absurd hret Sum.inl_ne_inr
    · obtain ⟨r', _, h⟩ := Option.bind_eq_some_iff.mp h
      obtain ⟨_, hret⟩ := Prod.mk.inj (Option.some.inj h)
      obtain ⟨_, hret⟩ := Prod.mk.inj (Sum.inr.inj hret)
      obtain ⟨rfl, rfl⟩ := Prod.mk.inj hret
      exact hpc

theorem writeStep_src {R R' : Ring ℚ} {pc pc' : WritePc ℚ}
    (h : writeStep R pc = some (R', .inl pc')) : pc'.src = pc.src := by
  cases pc with
  | availW src n | loadW src n sp =>
    obtain ⟨_, hpc'⟩ := Prod.mk.inj (Option.some.inj h)
    obtain rfl := Sum.inl.inj hpc'
    rfl
  | availR src n w =>
    obtain ⟨av, _, h⟩ := Option.bind_eq_some_iff.mp h
    obtain ⟨sp, _, h⟩ := Option.bind_eq_some_iff.mp h
    obtain ⟨_, hpc'⟩ := Prod.mk.inj (Option.some.inj h)
    obtain rfl := Sum.inl.inj hpc'
    rfl
  | copy src n sp w i =>
    simp only [writeStep] at h
    split_ifs at h
    · obtain ⟨R'', _, h⟩ := Option.bind_eq_some_iff.mp h
      obtain ⟨_, hpc'⟩ := Prod.mk.inj (Option.some.inj h)
      obtain rfl := Sum.inl.inj hpc'
      rfl
    · obtain ⟨w', _, h⟩ := Option.bind_eq_some_iff.mp h
      obtain ⟨_, hpc'⟩ := Prod.mk.inj (Option.some.inj h)
      exact absurd hpc' Sum.inr_ne_inl

/-- `iso_thread` does not touch the callers' ends. -/
theorem iso_frame {e t : EngineState} {l : EngineLabel} (hl : l.isIso)
    (h : engineExec e l = some t) :
    t.rd = e.rd ∧ t.wr = e.wr ∧ t.log.returned = e.log.returned ∧
      t.log.accepted = e.log.accepted := by
  cases l with
  | callRead dst n | read | callWrite src n | write => exact absurd hl Bool.false_ne_true
  | inDone x tmp =>
    obtain ⟨n, hn⟩ := countXfer_cases e x.status
    obtain rfl := Option.some.inj h
    rw [hn]
    exact ⟨rfl, rfl, rfl, rfl⟩
  | outDone x tmp =>
    obtain ⟨n, total, rfl⟩ := engineOutDone_eq h
    exact ⟨rfl, rfl, rfl, rfl⟩
  | ev resub =>
    obtain ⟨_, hcase⟩ := evStep_cases h
    obtain ⟨hrd, hwr⟩ := evStep_callers h
    refine ⟨hrd, hwr, ?_⟩
    rcases hcase with ⟨hlog, _⟩ | ⟨p, room, wrote, _, hlog⟩ | ⟨f, submitted, _, _, hlog⟩
    · rw [hlog]
      exact ⟨rfl, rfl⟩
    · rw [hlog]
      exact ⟨rfl, rfl⟩
    · rw [hlog]
      exact ⟨rfl, rfl⟩

/-! ## One step of a callback -/

/-- A step of `djmt1_iso_read` goes on, or returns at most what the ring holds. -/
theorem EngineInv.read {e : EngineState} {pc : ReadPc ℚ} (h : EngineInv e) (hrd : e.rd = some pc) :
    (∃ R pc', readStep e.capRing pc = some (R, .inl pc') ∧ pc'.dst.size = pc.dst.size ∧
      engineExec e .read = some { e with capRing := R, rd := some pc' }) ∨
    (∃ R dst got held, readStep e.capRing pc = some (R, .inr (dst, got, held)) ∧
      dst.size = pc.dst.size ∧ 0 ≤ got ∧
      engineExec e .read = some { e with capRing := R, rd := none, log := { e.log with
        returned := e.log.returned ++ frames dst got.toNat } }) := by
  obtain ⟨q, hq, _⟩ := h.cap.queue
  obtain ⟨n₀, hok⟩ := h.cap.rd pc hrd
  rcases readStep_spec hq hok with ⟨R, pc', hstep, -, -, hsize, -⟩ |
    ⟨R, dst, got, held, hstep, -, h0, -, -, hsize, -⟩
  · refine .inl ⟨R, pc', hstep, hsize, ?_⟩
    simp only [engineExec, hrd, hstep, Option.bind_eq_bind, Option.bind_some, Option.pure_def]
  · refine .inr ⟨R, dst, got, held, hstep, hsize, h0, ?_⟩
    simp only [engineExec, hrd, hstep, Option.bind_eq_bind, Option.bind_some, Option.pure_def]

/-- A step of `djmt1_iso_write` goes on, or has taken what there was room for. -/
theorem EngineInv.write {e : EngineState} {n₀ : ℤ} {pc : WritePc ℚ} (h : EngineInv e)
    (hwr : e.wr = some (n₀, pc)) :
    (∃ R pc', writeStep e.playRing pc = some (R, .inl pc') ∧
      engineExec e .write = some { e with playRing := R, wr := some (n₀, pc') }) ∨
    (∃ R took room, writeStep e.playRing pc = some (R, .inr (took, room)) ∧
      took = min n₀ room ∧ 0 ≤ took ∧
      engineExec e .write = some { e with playRing := R, wr := none, log := { e.log with
        accepted := e.log.accepted ++ frames pc.src took.toNat
        writes := e.log.writes ++ [(n₀, took)] } }) := by
  obtain ⟨q, hq, _⟩ := h.play.queue
  rcases writeStep_spec hq (h.play.wr (n₀, pc) hwr) with ⟨R, pc', hstep, -, -, -, -⟩ |
    ⟨R, took, room, hstep, htook, h0, -, -⟩
  · refine .inl ⟨R, pc', hstep, ?_⟩
    simp only [engineExec, hwr, hstep, Option.bind_eq_bind, Option.bind_some, Option.pure_def]
  · refine .inr ⟨R, took, room, hstep, htook, h0, ?_⟩
    simp only [engineExec, hwr, hstep, Option.bind_eq_bind, Option.bind_some, Option.pure_def]

/-- Audio from the beginning of a buffer on. -/
theorem floats_valid {b : PwBuffer Byte} {data : Region Byte} (h0 : b.datas0.chunk.offset = 0)
    (n : ℕ) : frames (floats toFloat data) n = frames (floats toFloat (validAudio b data)) n := by
  have hget : (floats toFloat data).get = (floats toFloat (validAudio b data)).get := by
    funext i
    simp [floats, validAudio, h0]
  exact List.map_congr_left fun k _ => Region.slice_congr fun j _ _ => congrFun hget j

/-- The buffer that `on_source_process` queues when `djmt1_iso_read` returns. -/
theorem sourceRec_ok {b : PwBuffer ℚ} {dst : Region ℚ} {got held : ℤ}
    (hsize : dst.size = b.datas0.maxsize.toNat / 4)
    (hwant : 0 ≤ sourceWant b.requested b.datas0.maxsize) (h0 : 0 ≤ got)
    (hgot : got = min (sourceWant b.requested b.datas0.maxsize) held) :
    ∃ dst', padFrames dst got (sourceWant b.requested b.datas0.maxsize) = some dst' ∧
      frames dst' got.toNat = frames dst got.toNat ∧
      SourceRec.Ok ⟨{ b with datas0 := { b.datas0 with
        data := some dst', chunk := ⟨0, BitVec.ofInt 32
          (sourceWant b.requested b.datas0.maxsize * frame), frame⟩ } }, dst',
        sourceWant b.requested b.datas0.maxsize, got, held⟩ := by
  have hle := sourceWant_le b.requested b.datas0.maxsize
  have hmax := b.datas0.maxsize.isLt
  obtain ⟨n, hn⟩ := Int.eq_ofNat_of_zero_le hwant
  obtain ⟨k, rfl⟩ := Int.eq_ofNat_of_zero_le h0
  have hkn : k ≤ n := by omega
  obtain ⟨dst', hpad, hsize', hframes⟩ := padFrames_spec hkn (show n * 6 ≤ dst.size by omega)
  have hfront : frames dst' k = frames dst k := by
    have htake := take_frames dst' n k
    rw [Nat.min_eq_left hkn, hframes, List.take_append_of_le_length (by rw [length_frames]),
      List.take_of_length_le (by rw [length_frames])] at htake
    exact htake.symm
  refine ⟨dst', by rw [hn, hpad], hfront, ⟨rfl, by rw [hsize', hsize]⟩, rfl, hle, h0, hgot, ?_, rfl,
    ?_⟩
  · unfold SourceRec.published SourceRec.audio
    simp only [hn, Int.toNat_natCast]
    rw [hframes, hfront, show ((n : ℤ) - k).toNat = n - k by omega]
  · simp only [hn]
    exact published_size (by omega)

/-! ## Whole runs -/

/-- What the callbacks have passed on is what the engine has returned and accepted. -/
structure GraphInv (g : Graph) : Prop where
  engine : EngineInv g.engine
  idle : g.source = none → g.engine.rd = none
  reading : ∀ b ∈ g.source, ∃ pc, g.engine.rd = some pc ∧
    pc.Asks (sourceWant b.requested b.datas0.maxsize) ∧
    pc.dst.size = b.datas0.maxsize.toNat / 4 ∧ 0 ≤ sourceWant b.requested b.datas0.maxsize
  returned : g.engine.log.returned = g.served.flatMap SourceRec.audio
  served : ∀ r ∈ g.served, r.Ok
  quiet : g.sink = none → g.engine.wr = none
  writing : ∀ b ∈ g.sink, ∃ data pc, ValidBuffer b data ∧ b.datas0.chunk.offset = 0 ∧
    g.engine.wr = some (((b.datas0.chunk.size.toNat / 24 : ℕ) : ℤ), pc) ∧
    pc.src = floats toFloat data
  accepted : g.engine.log.accepted = g.sunk.flatMap (SinkRec.audio toFloat)
  sunk : ∀ r ∈ g.sunk, r.Ok

/-- The engine takes a step of its own, or none. -/
def EngineFollows (g t : Graph) : Prop :=
  t.engine = g.engine ∨ ∃ l, engineEnabled g.engine l ∧ engineExec g.engine l = some t.engine

variable {toFloat} {g : Graph}

theorem GraphInv.iso {l : EngineLabel} (hi : GraphInv toFloat g) (hl : l.isIso)
    (hen : engineEnabled g.engine l) :
    ∃ t, graphExec toFloat g (.iso l) = some t ∧ EngineFollows g t ∧ GraphInv toFloat t := by
  obtain ⟨e, he, hinv⟩ := engineExec_inv hi.engine hen
  obtain ⟨hrd, hwr, hret, hacc⟩ := iso_frame hl he
  refine ⟨{ g with engine := e }, by rw [graphExec, he]; rfl, .inr ⟨l, hen, he⟩, hinv, ?_, ?_, ?_,
    hi.served, ?_, ?_, ?_, hi.sunk⟩
  · rw [hrd]
    exact hi.idle
  · rw [hrd]
    exact hi.reading
  · rw [hret]
    exact hi.returned
  · rw [hwr]
    exact hi.quiet
  · rw [hwr]
    exact hi.writing
  · rw [hacc]
    exact hi.accepted

theorem GraphInv.source {b : PwBuffer ℚ} (hi : GraphInv toFloat g) (hnone : g.source = none)
    (hmap : ∀ dst ∈ b.datas0.data, dst.size = b.datas0.maxsize.toNat / 4)
    (hplain : b.requested.toNat % 2 ^ 32 < 2 ^ 31) :
    ∃ t, sourceEnter g b = some t ∧ EngineFollows g t ∧ GraphInv toFloat t := by
  unfold sourceEnter
  cases hdata : b.datas0.data with
  | none => exact ⟨g, rfl, .inl rfl, hi⟩
  | some dst =>
    have hsize := hmap dst hdata
    have hwant := (sourceWant_nonneg_iff b.requested b.datas0.maxsize).mpr hplain
    have hle := sourceWant_le b.requested b.datas0.maxsize
    have hmax := b.datas0.maxsize.isLt
    have hcall : CallOk dst (sourceWant b.requested b.datas0.maxsize) := by
      unfold CallOk
      omega
    have hen : engineEnabled g.engine (.callRead dst (sourceWant b.requested b.datas0.maxsize)) :=
      ⟨by rw [hi.idle hnone]; rfl, hcall⟩
    obtain ⟨e, he, hinv⟩ := engineExec_inv hi.engine hen
    obtain rfl := Option.some.inj he
    refine ⟨_, rfl, .inr ⟨_, hen, he⟩, hinv, by simp, ?_, hi.returned, hi.served, hi.quiet,
      hi.writing, hi.accepted, hi.sunk⟩
    rintro _ ⟨⟩
    exact ⟨_, rfl, rfl, hsize, hwant⟩

theorem GraphInv.sourceStep (hi : GraphInv toFloat g) (hsome : g.source.isSome) :
    ∃ t, sourceStep g = some t ∧ EngineFollows g t ∧ GraphInv toFloat t := by
  obtain ⟨b, hb⟩ := Option.isSome_iff_exists.mp hsome
  obtain ⟨pc, hrd, hasks, hsize, hwant⟩ := hi.reading b hb
  have hen : engineEnabled g.engine .read := by
    change g.engine.rd.isSome
    rw [hrd]
    rfl
  obtain ⟨e, he, hinv⟩ := engineExec_inv hi.engine hen
  unfold Audio.sourceStep
  simp only [hb, hrd, he, Option.bind_eq_bind, Option.bind_some]
  rcases hi.engine.read hrd with ⟨R, pc', hstep, hsize', hexec⟩ |
    ⟨R, dst, got, held, hstep, hsize', h0, hexec⟩
  · -- the read goes on
    obtain rfl := Option.some.inj (he.symm.trans hexec)
    simp only [hstep, Option.bind_some]
    refine ⟨_, rfl, .inr ⟨_, hen, he⟩, hinv, by simp, ?_, hi.returned, hi.served, hi.quiet,
      hi.writing, hi.accepted, hi.sunk⟩
    rintro _ ⟨⟩
    exact ⟨pc', rfl, readStep_asks hasks hstep, hsize'.trans hsize, hwant⟩
  · -- the read returns, and the buffer is queued
    obtain rfl := Option.some.inj (he.symm.trans hexec)
    obtain ⟨dst', hpad, hfront, hok⟩ := sourceRec_ok (hsize'.trans hsize) hwant h0
      (readStep_returns hasks hstep)
    simp only [hstep, hpad, Option.bind_some]
    refine ⟨_, rfl, .inr ⟨_, hen, he⟩, hinv, fun _ => rfl, by simp, ?_, ?_, hi.quiet, hi.writing,
      hi.accepted, hi.sunk⟩
    · rw [List.flatMap_append, List.flatMap_singleton, ← hi.returned, SourceRec.audio, hfront]
    · rw [List.forall_mem_append, List.forall_mem_singleton]
      exact ⟨hi.served, hok⟩

theorem GraphInv.sink {b : PwBuffer Byte} (hi : GraphInv toFloat g) (hnone : g.sink = none)
    (hmap : ∀ data ∈ b.datas0.data, data.size = b.datas0.maxsize.toNat ∧
      b.datas0.chunk.offset.toNat + b.datas0.chunk.size.toNat ≤ b.datas0.maxsize.toNat)
    (hplain : b.datas0.chunk.offset = 0) :
    ∃ t, sinkEnter toFloat g b = some t ∧ EngineFollows g t ∧ GraphInv toFloat t := by
  unfold sinkEnter
  cases hdata : b.datas0.data with
  | none => exact ⟨g, rfl, .inl rfl, hi⟩
  | some data =>
    by_cases h0 : b.datas0.chunk.size = 0
    · exact ⟨g, by simp only [h0, ne_eq, not_true, if_false], .inl rfl, hi⟩
    · obtain ⟨hsize, hinside⟩ := hmap data hdata
      have hlt := b.datas0.chunk.size.isLt
      have hcall : CallOk (floats toFloat data) (b.datas0.chunk.size.toNat / frame : ℕ) := by
        simp only [CallOk, floats, frame, djmt1Ch, hsize]
        omega
      have hen : engineEnabled g.engine (.callWrite _ _) :=
        ⟨by rw [hi.quiet hnone]; rfl, hcall⟩
      obtain ⟨e, he, hinv⟩ := engineExec_inv hi.engine hen
      obtain rfl := Option.some.inj he
      refine ⟨_, (if_pos h0).trans rfl, .inr ⟨_, hen, he⟩, hinv, hi.idle, hi.reading, hi.returned,
        hi.served, by simp, ?_, hi.accepted, hi.sunk⟩
      rintro _ ⟨⟩
      exact ⟨data, _, ⟨hdata, hsize, hinside⟩, hplain, rfl, rfl⟩

theorem GraphInv.sinkStep (hi : GraphInv toFloat g) (hsome : g.sink.isSome) :
    ∃ t, sinkStep g = some t ∧ EngineFollows g t ∧ GraphInv toFloat t := by
  obtain ⟨b, hb⟩ := Option.isSome_iff_exists.mp hsome
  obtain ⟨data, pc, hvalid, hplain, hwr, hsrc⟩ := hi.writing b hb
  have hen : engineEnabled g.engine .write := by
    change g.engine.wr.isSome
    rw [hwr]
    rfl
  obtain ⟨e, he, hinv⟩ := engineExec_inv hi.engine hen
  unfold Audio.sinkStep
  simp only [hb, hvalid.mapped, hwr, he, Option.bind_eq_bind, Option.bind_some]
  rcases hi.engine.write hwr with ⟨R, pc', hstep, hexec⟩ | ⟨R, took, room, hstep, htook, h0, hexec⟩
  · obtain rfl := Option.some.inj (he.symm.trans hexec)
    simp only [hstep, Option.bind_some]
    refine ⟨_, rfl, .inr ⟨_, hen, he⟩, hinv, hi.idle, hi.reading, hi.returned, hi.served, by simp,
      ?_, hi.accepted, hi.sunk⟩
    rintro _ ⟨⟩
    exact ⟨data, pc', hvalid, hplain, rfl, (writeStep_src hstep).trans hsrc⟩
  · obtain rfl := Option.some.inj (he.symm.trans hexec)
    simp only [hstep, Option.bind_some]
    refine ⟨_, rfl, .inr ⟨_, hen, he⟩, hinv, hi.idle, hi.reading, hi.returned, hi.served,
      fun _ => rfl, by simp, ?_, ?_⟩
    · rw [List.flatMap_append, List.flatMap_singleton, ← hi.accepted, SinkRec.audio, hsrc,
        floats_valid toFloat hplain]
    · rw [List.forall_mem_append, List.forall_mem_singleton]
      exact ⟨hi.sunk, hvalid, h0, htook⟩

/-- Every step of the process is defined and keeps what the callbacks have passed on. -/
theorem graphInv_step {l : GraphLabel} (hi : GraphInv toFloat g) (hen : graphEnabled g l)
    (hplain : Plain l) :
    ∃ t, graphExec toFloat g l = some t ∧ EngineFollows g t ∧ GraphInv toFloat t := by
  obtain ⟨hmap, hen⟩ := hen
  cases l with
  | iso l => exact hi.iso hen.1 hen.2
  | source b => exact hi.source (Option.isNone_iff_eq_none.mp hen) hmap hplain
  | sourceStep => exact hi.sourceStep hen
  | sink b => exact hi.sink (Option.isNone_iff_eq_none.mp hen) hmap hplain
  | sinkStep => exact hi.sinkStep hen

variable {ringFrames : ℤ}

theorem graph_inv (h0 : 0 ≤ ringFrames) (hs : (ringFrames + 1) * 6 < 2 ^ 31)
    (h : (graphMachine toFloat ringFrames).ReachIf (fun _ l _ => Plain l) g) :
    GraphInv toFloat g := by
  refine h.invariant ?_ ?_
  · rintro _ ⟨e, he, rfl⟩
    obtain ⟨R, _, rfl⟩ := id he
    exact ⟨engineStart_inv h0 hs he, fun _ => rfl, by simp, rfl, by simp, fun _ => rfl, by simp,
      rfl, by simp⟩
  · intro g l t _ hi ⟨hen, hst⟩ hplain
    obtain ⟨t', ht', _, hinv⟩ := graphInv_step hi hen hplain
    obtain rfl := Option.some.inj (hst.symm.trans ht')
    exact hinv

/-- Every run of the process is a run of the engine. -/
theorem graph_engine (h0 : 0 ≤ ringFrames) (hs : (ringFrames + 1) * 6 < 2 ^ 31)
    (h : (graphMachine toFloat ringFrames).ReachIf (fun _ l _ => Plain l) g) :
    (engineMachine ringFrames).Reach g.engine := by
  refine h.invariant (I := fun g => (engineMachine ringFrames).Reach g.engine) ?_ ?_
  · rintro _ ⟨e, he, rfl⟩
    exact .init he
  · intro g l t hg ih ⟨hen, hst⟩ hplain
    obtain ⟨t', ht', hfollows, _⟩ := graphInv_step (graph_inv h0 hs hg) hen hplain
    obtain rfl := Option.some.inj (hst.symm.trans ht')
    rcases hfollows with hsame | ⟨l', hen', hst'⟩
    · rw [hsame]
      exact ih
    · exact .step ih ⟨hen', hst'⟩ trivial

/-! ## What an observer of the process sees -/

/-- What has been seen: the rings, and the buffers with memory that the callbacks have taken
    up, for `on_sink_process` those with audio. -/
structure Seen where
  gauge : Gauge
  dequeued : List (PwBuffer ℚ)
  handed : List (PwBuffer Byte)

/-- What has been seen after a step from `g` to `t`. -/
def Seen.next (o : Seen) (g : Graph) (l : GraphLabel) (t : Graph) : Seen :=
  match l with
  | .iso l => { o with gauge := o.gauge.next g.engine l t.engine }
  | .source b => { o with dequeued := noteIf b.datas0.data.isSome o.dequeued b }
  | .sourceStep => { o with gauge := o.gauge.next g.engine .read t.engine }
  | .sink b =>
    { o with handed := noteIf (b.datas0.data.isSome ∧ b.datas0.chunk.size ≠ 0) o.handed b }
  | .sinkStep => { o with gauge := o.gauge.next g.engine .write t.engine }

/-- Nothing has been seen. -/
def seenNothing : Seen := ⟨⟨0, 0, 0, 0, [], [], [], [], []⟩, [], []⟩

/-- The process and an observer. -/
def seenMachine (toFloat : Byte → Byte → Byte → Byte → ℚ) (ringFrames : ℤ) :
    Machine (Graph × Seen) GraphLabel :=
  (graphMachine toFloat ringFrames).observe (fun _ => seenNothing) Seen.next

instance (toFloat : Byte → Byte → Byte → Byte → ℚ) (n : ℤ) (x : Graph × Seen) (l : GraphLabel) :
    Decidable ((seenMachine toFloat n).enabled x l) :=
  inferInstanceAs (Decidable ((graphMachine toFloat n).enabled x.1 l))

/-- How much is asked for, and how much the memory holds. -/
def PwBuffer.request (b : PwBuffer ℚ) : BitVec 64 × BitVec 32 := (b.requested, b.datas0.maxsize)

/-- The records say what the rings held, one for each buffer taken up. -/
structure SeenInv (g : Graph) (o : Seen) : Prop where
  gauge : GaugeInv g.engine o.gauge
  reads : g.served.map SourceRec.held = o.gauge.reads
  writes : g.sunk.map SinkRec.room = o.gauge.writes
  dequeued : g.served.map (fun r => r.buffer.request) ++ g.source.toList.map PwBuffer.request =
    o.dequeued.map PwBuffer.request
  handed : g.sunk.map SinkRec.buffer ++ g.sink.toList = o.handed

variable {t : Graph} {o : Seen}

theorem SeenInv.iso {l : EngineLabel} (h : SeenInv g o) (hi : GraphInv toFloat g)
    (hiso : l.isIso) (hen : engineEnabled g.engine l)
    (hst : graphExec toFloat g (.iso l) = some t) : SeenInv t (o.next g (.iso l) t) := by
  obtain ⟨e, he, ht⟩ := Option.bind_eq_some_iff.mp hst
  obtain rfl := Option.some.inj ht
  refine ⟨h.gauge.step hi.engine hen he, ?_, ?_, h.dequeued, h.handed⟩
  · rw [h.reads]
    cases l with
    | read => exact absurd hiso Bool.false_ne_true
    | _ => rfl
  · rw [h.writes]
    cases l with
    | write => exact absurd hiso Bool.false_ne_true
    | _ => rfl

theorem SeenInv.source {b : PwBuffer ℚ} (h : SeenInv g o) (hnone : g.source = none)
    (hst : sourceEnter g b = some t) : SeenInv t (o.next g (.source b) t) := by
  unfold sourceEnter at hst
  cases hdata : b.datas0.data with
  | none =>
    simp only [hdata] at hst
    obtain rfl := Option.some.inj hst
    simp only [Seen.next, hdata, noteIf, Option.isSome_none, Bool.false_eq_true, if_false]
    exact ⟨h.gauge, h.reads, h.writes, h.dequeued, h.handed⟩
  | some dst =>
    simp only [hdata] at hst
    obtain rfl := Option.some.inj hst
    have hdequeued := h.dequeued
    rw [hnone, Option.toList_none, List.map_nil, List.append_nil] at hdequeued
    simp only [Seen.next, hdata, noteIf, Option.isSome_some, if_true]
    refine ⟨⟨h.gauge.room, h.gauge.held, ?_, h.gauge.writing, h.gauge.rooms, h.gauge.helds,
      h.gauge.completed⟩, h.reads, h.writes, ?_, h.handed⟩
    · rintro _ ⟨⟩
      trivial
    · rw [hdequeued, List.map_append]
      rfl

theorem SeenInv.sourceStep (h : SeenInv g o) (hi : GraphInv toFloat g)
    (hst : sourceStep g = some t) : SeenInv t (o.next g .sourceStep t) := by
  obtain ⟨b, hb, hst⟩ := Option.bind_eq_some_iff.mp hst
  obtain ⟨pc, hrd, hst⟩ := Option.bind_eq_some_iff.mp hst
  obtain ⟨e, he, hst⟩ := Option.bind_eq_some_iff.mp hst
  have hgauge := h.gauge.read hi.engine he
  obtain ⟨q, hq, _⟩ := hi.engine.cap.queue
  obtain ⟨n₀, hok⟩ := hi.engine.cap.rd pc hrd
  obtain ⟨_, hheld⟩ := readStep_gauged hq hok (h.gauge.reading pc hrd)
  rcases hi.engine.read hrd with ⟨R, pc', hstep, _, hexec⟩ | ⟨R, dst, got, held, hstep, _, _, hexec⟩
  · obtain rfl := Option.some.inj (he.symm.trans hexec)
    simp only [hstep, Option.bind_eq_bind, Option.bind_some, Option.pure_def] at hst
    obtain rfl := Option.some.inj hst
    exact ⟨hgauge, h.reads, h.writes, h.dequeued, h.handed⟩
  · obtain rfl := Option.some.inj (he.symm.trans hexec)
    simp only [hstep, Option.bind_eq_bind, Option.bind_some, Option.pure_def] at hst
    obtain ⟨dst', _, hst⟩ := Option.bind_eq_some_iff.mp hst
    obtain rfl := Option.some.inj hst
    refine ⟨hgauge, ?_, h.writes, ?_, h.handed⟩
    · rw [List.map_append, h.reads, List.map_singleton, hheld R dst got held hstep]
      simp only [Seen.next, Gauge.next, noteIf, hrd, Option.map_some, Option.getD_some, if_true]
    · have hdequeued := h.dequeued
      rw [hb] at hdequeued
      rw [List.map_append, Option.toList_none, List.map_nil, List.append_nil]
      exact hdequeued

theorem SeenInv.sink {b : PwBuffer Byte} (h : SeenInv g o) (hnone : g.sink = none)
    (hst : sinkEnter toFloat g b = some t) : SeenInv t (o.next g (.sink b) t) := by
  unfold sinkEnter at hst
  cases hdata : b.datas0.data with
  | none =>
    simp only [hdata] at hst
    obtain rfl := Option.some.inj hst
    simp only [Seen.next, hdata, noteIf, Option.isSome_none, Bool.false_eq_true, false_and,
      if_false]
    exact ⟨h.gauge, h.reads, h.writes, h.dequeued, h.handed⟩
  | some data =>
    simp only [hdata] at hst
    split_ifs at hst with h0
    · obtain rfl := Option.some.inj hst
      have hhanded := h.handed
      rw [hnone, Option.toList_none, List.append_nil] at hhanded
      simp only [Seen.next, hdata, noteIf, Option.isSome_some, true_and, if_pos h0]
      refine ⟨⟨h.gauge.room, h.gauge.held, h.gauge.reading, ?_, h.gauge.rooms, h.gauge.helds,
        h.gauge.completed⟩, h.reads, h.writes, h.dequeued, ?_⟩
      · rintro _ ⟨⟩
        trivial
      · rw [← hhanded]
        rfl
    · obtain rfl := Option.some.inj hst
      simp only [Seen.next, hdata, noteIf, Option.isSome_some, true_and, if_neg h0]
      exact ⟨h.gauge, h.reads, h.writes, h.dequeued, h.handed⟩

theorem SeenInv.sinkStep (h : SeenInv g o) (hi : GraphInv toFloat g)
    (hst : sinkStep g = some t) : SeenInv t (o.next g .sinkStep t) := by
  obtain ⟨b, hb, hst⟩ := Option.bind_eq_some_iff.mp hst
  obtain ⟨data, _, hst⟩ := Option.bind_eq_some_iff.mp hst
  obtain ⟨⟨n₀, pc⟩, hwr, hst⟩ := Option.bind_eq_some_iff.mp hst
  obtain ⟨e, he, hst⟩ := Option.bind_eq_some_iff.mp hst
  have hgauge := h.gauge.write hi.engine he
  obtain ⟨q, hq, _⟩ := hi.engine.play.queue
  obtain ⟨_, hroom⟩ := writeStep_gauged hq (hi.engine.play.wr _ hwr) (h.gauge.writing _ hwr)
  rcases hi.engine.write hwr with ⟨R, pc', hstep, hexec⟩ | ⟨R, took, room, hstep, _, _, hexec⟩
  · obtain rfl := Option.some.inj (he.symm.trans hexec)
    simp only [hstep, Option.bind_eq_bind, Option.bind_some, Option.pure_def] at hst
    obtain rfl := Option.some.inj hst
    exact ⟨hgauge, h.reads, h.writes, h.dequeued, h.handed⟩
  · obtain rfl := Option.some.inj (he.symm.trans hexec)
    simp only [hstep, Option.bind_eq_bind, Option.bind_some, Option.pure_def] at hst
    obtain rfl := Option.some.inj hst
    refine ⟨hgauge, h.reads, ?_, h.dequeued, ?_⟩
    · rw [List.map_append, h.writes, List.map_singleton, hroom R took room hstep]
      simp only [Seen.next, Gauge.next, noteIf, hwr, Option.map_some, Option.getD_some, if_true]
    · have hhanded := h.handed
      rw [hb] at hhanded
      rw [List.map_append, Option.toList_none, List.append_nil]
      exact hhanded

/-- Every step keeps the records and the observer together. -/
theorem SeenInv.step {l : GraphLabel} (h : SeenInv g o) (hi : GraphInv toFloat g)
    (hen : graphEnabled g l) (hst : graphExec toFloat g l = some t) : SeenInv t (o.next g l t) := by
  obtain ⟨_, hen⟩ := hen
  cases l with
  | iso l => exact h.iso hi hen.1 hen.2 hst
  | source b => exact h.source (Option.isNone_iff_eq_none.mp hen) hst
  | sourceStep => exact h.sourceStep hi hst
  | sink b => exact h.sink (Option.isNone_iff_eq_none.mp hen) hst
  | sinkStep => exact h.sinkStep hi hst

theorem seen_inv (h0 : 0 ≤ ringFrames) (hs : (ringFrames + 1) * 6 < 2 ^ 31)
    (h : (seenMachine toFloat ringFrames).ReachIf (fun _ l _ => Plain l) (g, o)) :
    SeenInv g o := by
  refine Machine.ReachIf.observe (C := fun _ l _ => Plain l) (I := SeenInv) h ?_ ?_
  · rintro _ ⟨e, he, rfl⟩
    exact ⟨gaugeInv_start he, rfl, rfl, rfl, rfl⟩
  · intro s l t o hr hi hst _
    exact hi.step (graph_inv h0 hs hr) hst.1 hst.2

/-- **From the mixer to the graph and back.** In every run in which no request is negative
    as an `int` and all audio starts at the beginning of its buffer: the frames that the
    queued buffers carry from the ring, followed by those in the ring, are, packet by
    packet in arrival order, the decoded frames of the good packets, each cut where the
    ring was full; each buffer taken up is queued, published as the frames asked for, those
    of the ring and then silence, which is there only if the ring held fewer. The audio of
    the buffers handed over, each cut where the ring had no more room, is in order in the
    transfers and then in the ring, and each transfer that completes is the encoding of its
    frames, padded with silence where the ring ran dry. No step that may be taken is
    undefined. -/
theorem graph_paths (h0 : 0 ≤ ringFrames) (hs : (ringFrames + 1) * 6 < 2 ^ 31)
    (h : (seenMachine toFloat ringFrames).ReachIf (fun _ l _ => Plain l) (g, o)) :
    (∃ q, RingInv g.engine.capRing q ∧ g.served.flatMap SourceRec.audio ++ q =
      g.engine.log.packets.flatMap PacketRec.expected) ∧
    g.engine.log.packets.map PacketRec.room = o.gauge.rooms ∧
    g.engine.log.packets.map PacketRec.packet ++ g.engine.ev.pending = g.engine.log.arrived ∧
    (∀ r ∈ g.served, r.Ok) ∧ g.served.map SourceRec.held = o.gauge.reads ∧
    g.served.map (fun r => r.buffer.request) ++ g.source.toList.map PwBuffer.request =
      o.dequeued.map PwBuffer.request ∧
    (∃ q, RingInv g.engine.playRing q ∧ g.sunk.flatMap (SinkRec.audio toFloat) =
      g.engine.log.fills.flatMap FillRec.frames ++ q) ∧
    g.engine.log.submitted = List.replicate nxfr silentPayload ++
      (g.engine.log.fills.filter FillRec.resubmitted).map FillRec.payload ∧
    (∀ f ∈ g.engine.log.fills, f.Ok) ∧ g.engine.log.fills.map FillRec.held = o.gauge.helds ∧
    g.engine.log.fills.map FillRec.numIsoPackets ++ g.engine.ev.filling = o.gauge.completed ∧
    (∀ r ∈ g.sunk, r.Ok) ∧ g.sunk.map SinkRec.room = o.gauge.writes ∧
    g.sunk.map SinkRec.buffer ++ g.sink.toList = o.handed ∧
    ∀ l, graphEnabled g l → Plain l → (graphExec toFloat g l).isSome := by
  have hrun : (graphMachine toFloat ringFrames).ReachIf (fun _ l _ => Plain l) g :=
    Machine.ReachIf.unobserved (C := fun _ l _ => Plain l) h
  have hi := graph_inv h0 hs hrun
  have ho := seen_inv h0 hs h
  obtain ⟨q, hq, hret⟩ := hi.engine.cap.queue
  obtain ⟨q', hq', hacc⟩ := hi.engine.play.queue
  refine ⟨⟨q, hq, ?_⟩, ho.gauge.rooms, engine_arrived (graph_engine h0 hs hrun), hi.served,
    ho.reads, ho.dequeued, ⟨q', hq', ?_⟩, ?_, hi.engine.play.recs, ho.gauge.helds,
    ho.gauge.completed, hi.sunk, ho.writes, ho.handed, fun l hen hplain => ?_⟩
  · rw [← hi.returned, hret]
    exact List.flatMap_congr fun r hr => (hi.engine.cap.recs r hr).put_eq
  · rw [← hi.accepted, hacc]
  · rw [hi.engine.play.submitted]
    congr 1
    refine List.map_congr_left fun f hf => ?_
    exact (hi.engine.play.recs f (List.mem_of_mem_filter hf)).payload_eq.symm
  · obtain ⟨t, ht, _⟩ := graphInv_step hi hen hplain
    rw [ht]
    rfl

theorem three_frames_fit : 3 * 18 ≤ pktInMax := by decide

/-- PipeWire hands over one frame of zeroes; three frames arrive, and PipeWire asks for
    three, of which the ring had room for two. -/
def graphRun : List GraphLabel :=
  [.sink (oneValid 0)] ++ List.replicate 5 .sinkStep ++
    [.iso (.inDone ⟨.completed, [goodPacket 3 three_frames_fit]⟩ (Region.fill 336 0))] ++
    List.replicate 8 (.iso (.ev true)) ++ [.source (hundredFrames 3)] ++
    List.replicate 6 .sourceStep

theorem graph_paths_graphRun : ∃ g o, (seenMachine (fun _ _ _ _ => 0) 2).playIf
    (fun _ l _ => Plain l) (⟨engineStart (startRing 2), none, none, [], []⟩, seenNothing)
      graphRun = some (g, o) ∧
    o.gauge.rooms = [2] ∧ o.gauge.reads = [2] ∧ o.gauge.writes = [2] ∧ (∀ r ∈ g.served, r.Ok) ∧
    g.engine.log.packets.map PacketRec.room = o.gauge.rooms ∧
    g.served.map SourceRec.held = o.gauge.reads ∧ g.sunk.map SinkRec.room = o.gauge.writes := by
  have hrun : ∃ g o, (seenMachine (fun _ _ _ _ => 0) 2).playIf (fun _ l _ => Plain l)
      (⟨engineStart (startRing 2), none, none, [], []⟩, seenNothing) graphRun = some (g, o) ∧
      o.gauge.rooms = [2] ∧ o.gauge.reads = [2] ∧ o.gauge.writes = [2] :=
    ⟨_, _, rfl, rfl, rfl, rfl⟩
  obtain ⟨g, o, hplay, hrooms, hreads, hwrites⟩ := hrun
  have hreach := Machine.playIf_reachIf (M := seenMachine (fun _ _ _ _ => 0) 2)
    (.init ⟨⟨_, ⟨startRing 2, rfl, rfl⟩, rfl⟩, rfl⟩) hplay
  obtain ⟨_, hr, _, hok, hread, _, _, _, _, _, _, _, hwrite, _⟩ :=
    graph_paths (by decide) (by decide) hreach
  exact ⟨g, o, hplay, hrooms, hreads, hwrites, hok, hr, hread, hwrite⟩

end DjmT1.Audio
