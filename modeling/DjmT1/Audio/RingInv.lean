import DjmT1.Audio.Ring
import DjmT1.Lib.Circular

/-!
# The ring invariant and what each party may do

`RingInv R q` says that the ring `R` holds the frames `q`: published by the
producer and not yet given back by the consumer. The two parties are treated by
rely and guarantee: `WriterMoves R R'` is all the producer ever does to the ring
and `ReaderMoves R R'` all the consumer ever does.

* `WriteOk` and `ReadOk` are what holds at each point of a call. Neither is
  disturbed by the other party (`WriteOk.stable`, `ReadOk.stable`), although the
  party works from a snapshot of the other's index taken many steps before.
* `writeStep_spec` and `readStep_spec`: a step of a call is always defined,
  keeps the invariant, and either leaves `q` alone or, at the final store,
  appends the frames of the source (drops the frames delivered).
* `ringInit_empty`: `ring_init` sets up the ring that holds no frames.
-/

namespace DjmT1.Audio

open DjmT1.Lib DjmT1.Lib.Circular

variable {α : Type}

/-- The first `n` frames of an interleaved array. -/
def frames (b : Region α) (n : ℕ) : List (List α) := (List.range n).map (b.block djmt1Ch)

@[simp] theorem length_frames (b : Region α) (n : ℕ) : (frames b n).length = n := by simp [frames]

theorem getElem_frames (b : Region α) (n k : ℕ) (hk : k < (frames b n).length) :
    (frames b n)[k] = b.block djmt1Ch k := by
  simp [frames]

theorem length_of_mem_frames {b : Region α} {n : ℕ} {c : List α} (h : c ∈ frames b n) :
    c.length = djmt1Ch := by
  obtain ⟨k, _, rfl⟩ := List.mem_map.mp h
  exact Region.length_block b djmt1Ch k

/-- The frame in a slot of the ring. -/
def Ring.slot (R : Ring α) (k : ℤ) : List α :=
  match R.buf with
  | none => []
  | some b => b.block djmt1Ch k.toNat

/-- The number of frames published and not yet given back. -/
def Ring.used (R : Ring α) : ℤ := occ R.cap R.w R.r

/-- The ring is set up: an allocated buffer of `cap` frames, whose sample indices
    fit in an `int`, and two indices into it. -/
structure RingOk (R : Ring α) : Prop where
  buf : ∃ b, R.buf = some b ∧ (b.size : ℤ) = R.cap * djmt1Ch
  small : R.cap * djmt1Ch < 2 ^ 31
  windex : Index R.cap R.w
  rindex : Index R.cap R.r

/-- The ring holds the frames `q`, oldest first. -/
structure RingInv (R : Ring α) (q : List (List α)) : Prop extends RingOk R where
  length : (q.length : ℤ) = R.used
  holds : Holds R.slot R.cap R.r q

theorem RingOk.cap_pos {R : Ring α} (h : RingOk R) : 0 < R.cap := by
  have := h.windex; unfold Index at this; omega

theorem RingOk.cap_lt {R : Ring α} (h : RingOk R) : 6 * R.cap < 2 ^ 31 := by
  have := h.small; simp only [djmt1Ch] at this; push_cast at this; omega

theorem RingOk.used_nonneg {R : Ring α} (h : RingOk R) : 0 ≤ R.used := occ_nonneg h.cap_pos

theorem RingOk.used_lt {R : Ring α} (h : RingOk R) : R.used < R.cap := occ_lt h.cap_pos

/-! ## The empty ring -/

/-- An allocated, empty ring of `cap` slots. -/
structure EmptyRing (cap : ℤ) (R : Ring α) : Prop where
  cap_eq : R.cap = cap
  buf : ∃ b, R.buf = some b ∧ (b.size : ℤ) = cap * djmt1Ch
  empty : R.w = R.r
  rindex : Index cap R.r

theorem EmptyRing.inv {cap : ℤ} {R : Ring α} (h : EmptyRing cap R) (hs : cap * 6 < 2 ^ 31) :
    RingInv R [] := by
  obtain ⟨rfl, hbuf, hw, hr⟩ := h
  refine ⟨⟨hbuf, by simpa using hs, by rw [hw]; exact hr, hr⟩, ?_, .nil _ _ _⟩
  rw [Ring.used, occ_eq (by rw [hw]; exact hr) hr, hw]
  simp

/-- `ring_init` with memory available sets up an empty ring. -/
theorem ringInit_empty (zero : α) {n : ℤ} (h0 : 0 ≤ n) (hs : (n + 1) * 6 < 2 ^ 31) :
    ∃ R, ringInit zero true n = some (R, 0) ∧ EmptyRing (n + 1) R := by
  refine ⟨⟨some (Region.fill ((n + 1) % 2 ^ 64 * djmt1Ch % 2 ^ 64).toNat zero), n + 1, 0, 0⟩, ?_,
    rfl, ⟨_, rfl, ?_⟩, rfl, ?_⟩
  · simp only [ringInit, Option.bind_eq_bind, int32_eq (show -2 ^ 31 ≤ n + 1 by omega)
      (show n + 1 < 2 ^ 31 by omega), Option.bind_some]
    rfl
  · rw [Region.size_fill, Int.emod_eq_of_lt (a := n + 1) (by omega) (by omega),
      Int.emod_eq_of_lt (by simp only [djmt1Ch]; omega) (by simp only [djmt1Ch]; omega),
      Int.toNat_of_nonneg (by simp only [djmt1Ch]; omega)]
  · exact ⟨le_rfl, show (0 : ℤ) < n + 1 by omega⟩

/-! ## The expressions are defined -/

section Expressions

variable {cap w r k i n : ℤ}

theorem availAt_eq (hs : 6 * cap < 2 ^ 31) (hw : Index cap w) (hr : Index cap r) :
    availAt cap w r = some (occ cap w r) := by
  unfold Index at hw hr
  simp only [availAt, occ, Option.bind_eq_bind]
  rw [int32_eq (by omega) (by omega), Option.bind_some, int32_eq (by omega) (by omega),
    Option.bind_some, cmod_eq (by omega) (by omega) (by omega)]

theorem spaceAt_eq (hs : 6 * cap < 2 ^ 31) (h0 : 0 ≤ n) (h1 : n < cap) :
    spaceAt cap n = some (cap - 1 - n) := by
  simp only [spaceAt, Option.bind_eq_bind]
  rw [int32_eq (by omega) (by omega), Option.bind_some, int32_eq (by omega) (by omega)]

theorem slotAt_eq (hs : 6 * cap < 2 ^ 31) (hk : Index cap k) (hi : Index cap i) :
    slotAt cap k i = some ((k + i) % cap * 6) := by
  have hm := index_emod (c := cap) (by unfold Index at hk; omega) (k + i)
  unfold Index at *
  simp only [slotAt, Option.bind_eq_bind, djmt1Ch]
  push_cast
  rw [int32_eq (by omega) (by omega), Option.bind_some, cmod_eq (by omega) (by omega) (by omega),
    Option.bind_some, int32_eq (by omega) (by omega)]

theorem advanceAt_eq (hs : 6 * cap < 2 ^ 31) (hk : Index cap k) (hn : Index cap n) :
    advanceAt cap k n = some ((k + n) % cap) := by
  unfold Index at *
  simp only [advanceAt, Option.bind_eq_bind]
  rw [int32_eq (by omega) (by omega), Option.bind_some, cmod_eq (by omega) (by omega) (by omega)]

end Expressions

/-! ## Copying one frame -/

theorem storeFrame_spec {R : Ring α} {src : Region α} {w : ℤ} {i : ℕ} (h : RingOk R)
    (hw : Index R.cap w) (hi : (i : ℤ) < R.cap) (hs : (i + 1) * 6 ≤ src.size) :
    ∃ R', storeFrame R w i src = some R' ∧ RingOk R' ∧ R'.cap = R.cap ∧ R'.w = R.w ∧ R'.r = R.r ∧
      R'.slot ((w + i) % R.cap) = src.block djmt1Ch i ∧
      ∀ k, 0 ≤ k → k ≠ (w + i) % R.cap → R'.slot k = R.slot k := by
  obtain ⟨b, hb, hsize⟩ := h.buf
  have hm := index_emod h.cap_pos (w + i)
  obtain ⟨m, hm'⟩ : ∃ m : ℕ, (w + i) % R.cap = m := ⟨_, (Int.toNat_of_nonneg hm.1).symm⟩
  rw [hm'] at hm ⊢
  unfold Index at hm
  simp only [djmt1Ch] at hsize
  push_cast at hsize
  have hmem : b.memcpy (m * djmt1Ch : ℕ) src (i * djmt1Ch : ℕ) djmt1Ch = some _ :=
    Region.memcpy_eq (by simp only [djmt1Ch]; omega) (by simp only [djmt1Ch]; omega)
  have hst : storeFrame R w i src = (b.memcpy (m * djmt1Ch : ℕ) src (i * djmt1Ch : ℕ) djmt1Ch).map
      fun b => { R with buf := some b } := by
    unfold storeFrame
    rw [slotAt_eq h.cap_lt hw ⟨by omega, hi⟩, hm', hb, Option.bind_eq_bind, Option.bind_some,
      Option.bind_eq_bind, Option.bind_some]
    simp only [djmt1Ch]
    push_cast
    cases b.memcpy (m * 6) src (i * 6) 6 <;> rfl
  obtain ⟨b', hb'⟩ : ∃ b', b.memcpy (m * djmt1Ch : ℕ) src (i * djmt1Ch : ℕ) djmt1Ch = some b' :=
    ⟨_, hmem⟩
  refine ⟨{ R with buf := some b' }, by rw [hst, hb']; rfl, ⟨⟨b', rfl, ?_⟩, h.small, h.windex,
    h.rindex⟩, rfl, rfl, rfl, ?_, ?_⟩
  · rw [Region.size_of_memcpy hb']; simpa using hsize
  · simpa [Ring.slot] using Region.block_memcpy_self hb'
  · intro k h0 hk
    simpa [Ring.slot, hb] using Region.block_memcpy_ne hb' (m := k.toNat) (by omega)

theorem loadFrame_spec {R : Ring α} {dst : Region α} {r : ℤ} {i : ℕ} (h : RingOk R)
    (hr : Index R.cap r) (hi : (i : ℤ) < R.cap) (hs : (i + 1) * 6 ≤ dst.size) :
    ∃ dst', loadFrame R r i dst = some dst' ∧ dst'.size = dst.size ∧
      dst'.block djmt1Ch i = R.slot ((r + i) % R.cap) ∧
      ∀ k, k ≠ i → dst'.block djmt1Ch k = dst.block djmt1Ch k := by
  obtain ⟨b, hb, hsize⟩ := h.buf
  have hm := index_emod h.cap_pos (r + i)
  obtain ⟨m, hm'⟩ : ∃ m : ℕ, (r + i) % R.cap = m := ⟨_, (Int.toNat_of_nonneg hm.1).symm⟩
  rw [hm'] at hm ⊢
  unfold Index at hm
  simp only [djmt1Ch] at hsize
  push_cast at hsize
  obtain ⟨dst', hd'⟩ : ∃ d, dst.memcpy (i * djmt1Ch : ℕ) b (m * djmt1Ch : ℕ) djmt1Ch = some d :=
    ⟨_, Region.memcpy_eq (by simp only [djmt1Ch]; omega) (by simp only [djmt1Ch]; omega)⟩
  refine ⟨dst', ?_, Region.size_of_memcpy hd', ?_, fun k hk => Region.block_memcpy_ne hd' hk⟩
  · unfold loadFrame
    rw [slotAt_eq h.cap_lt hr ⟨by omega, hi⟩, hm', hb, Option.bind_eq_bind, Option.bind_some,
      Option.bind_eq_bind, Option.bind_some, ← hd']
    simp only [djmt1Ch]
    push_cast
    rfl
  · simpa [Ring.slot, hb] using Region.block_memcpy_self hd'

/-! ## Rely and guarantee -/

/-- All that the producer ever does to the ring. -/
structure WriterMoves (R R' : Ring α) : Prop where
  cap : R'.cap = R.cap
  r : R'.r = R.r
  used : R.used ≤ R'.used
  keeps : ∀ k : ℕ, (k : ℤ) < R.used → R'.slot ((R.r + k) % R.cap) = R.slot ((R.r + k) % R.cap)

/-- All that the consumer ever does to the ring. -/
structure ReaderMoves (R R' : Ring α) : Prop where
  cap : R'.cap = R.cap
  w : R'.w = R.w
  buf : R'.buf = R.buf
  used : R'.used ≤ R.used

theorem WriterMoves.refl (R : Ring α) : WriterMoves R R := ⟨rfl, rfl, le_rfl, fun _ _ => rfl⟩

theorem ReaderMoves.refl (R : Ring α) : ReaderMoves R R := ⟨rfl, rfl, rfl, le_rfl⟩

theorem ReaderMoves.slot {R R' : Ring α} (h : ReaderMoves R R') : R'.slot = R.slot := by
  funext k; simp [Ring.slot, h.buf]

/-- The destination buffer of the call. -/
def ReadPc.dst : ReadPc α → Region α
  | .availW dst _ | .availR dst _ _ | .loadR dst _ _ | .copy dst _ _ _ _ => dst

/-- The caller's side of a call for `n₀` frames: a non-negative `int`, and a
    buffer of that many frames. -/
def CallOk (b : Region α) (n₀ : ℤ) : Prop := 0 ≤ n₀ ∧ n₀ < 2 ^ 31 ∧ n₀ * 6 ≤ b.size

instance (b : Region α) (n₀ : ℤ) : Decidable (CallOk b n₀) :=
  inferInstanceAs (Decidable (_ ∧ _ ∧ _))

/-- What holds at each point of a `ring_write` of `n₀` frames. -/
def WriteAt (R : Ring α) (n₀ : ℤ) : WritePc α → Prop
  | .availW _ n => n = n₀
  | .availR _ n w => n = n₀ ∧ w = R.w
  | .loadW _ n sp => n = min n₀ sp ∧ 0 ≤ sp ∧ sp ≤ R.cap - 1 - R.used
  | .copy src n sp w i => n = min n₀ sp ∧ 0 ≤ sp ∧ sp ≤ R.cap - 1 - R.used ∧ w = R.w ∧ 0 ≤ i ∧
      i ≤ n ∧ ∀ j : ℕ, (j : ℤ) < i → R.slot ((w + j) % R.cap) = src.block djmt1Ch j

/-- What holds at each point of a `ring_read` of `n₀` frames. The occupancy the
    call works with is at most the one now: the producer only adds frames. -/
def ReadAt (R : Ring α) (n₀ : ℤ) : ReadPc α → Prop
  | .availW _ n => n = n₀
  | .availR _ n w => n = n₀ ∧ Index R.cap w ∧ occ R.cap w R.r ≤ R.used
  | .loadR _ n av => n = min n₀ av ∧ 0 ≤ av ∧ av ≤ R.used
  | .copy dst n av r i => n = min n₀ av ∧ 0 ≤ av ∧ av ≤ R.used ∧ r = R.r ∧ 0 ≤ i ∧ i ≤ n ∧
      ∀ j : ℕ, (j : ℤ) < i → dst.block djmt1Ch j = R.slot ((r + j) % R.cap)

/-- A `ring_write` of `n₀` frames is in progress. -/
def WriteOk (R : Ring α) (n₀ : ℤ) (pc : WritePc α) : Prop := CallOk pc.src n₀ ∧ WriteAt R n₀ pc

/-- A `ring_read` of `n₀` frames is in progress. -/
def ReadOk (R : Ring α) (n₀ : ℤ) (pc : ReadPc α) : Prop := CallOk pc.dst n₀ ∧ ReadAt R n₀ pc

/-- The consumer does not disturb a write in progress. -/
theorem WriteOk.stable {R R' : Ring α} {n₀ : ℤ} {pc : WritePc α} (h : WriteOk R n₀ pc)
    (hm : ReaderMoves R R') : WriteOk R' n₀ pc := by
  have hslot := hm.slot
  obtain ⟨hcap, hw, -, hused⟩ := hm
  refine ⟨h.1, ?_⟩
  have hat := h.2
  cases pc with
  | availW src n => exact hat
  | availR src n w => exact ⟨hat.1, hat.2.trans hw.symm⟩
  | loadW src n sp =>
    obtain ⟨hn, h0, hsp⟩ := hat
    exact ⟨hn, h0, by rw [hcap]; omega⟩
  | copy src n sp w i =>
    obtain ⟨hn, h0, hsp, hwr, hi, hin, hst⟩ := hat
    refine ⟨hn, h0, by rw [hcap]; omega, hwr.trans hw.symm, hi, hin, fun j hj => ?_⟩
    rw [hslot, hcap]
    exact hst j hj

/-- The producer does not disturb a read in progress. -/
theorem ReadOk.stable {R R' : Ring α} {n₀ : ℤ} {pc : ReadPc α} (h : ReadOk R n₀ pc)
    (hm : WriterMoves R R') : ReadOk R' n₀ pc := by
  obtain ⟨hcap, hr, hused, hkeeps⟩ := hm
  refine ⟨h.1, ?_⟩
  have hat := h.2
  cases pc with
  | availW dst n => exact hat
  | availR dst n w =>
    exact ⟨hat.1, by rw [hcap]; exact hat.2.1, by rw [hcap, hr]; exact hat.2.2.trans hused⟩
  | loadR dst n av =>
    obtain ⟨hn, h0, hav⟩ := hat
    exact ⟨hn, h0, hav.trans hused⟩
  | copy dst n av r i =>
    obtain ⟨hn, h0, hav, hrr, hi, hin, hld⟩ := hat
    refine ⟨hn, h0, hav.trans hused, hrr.trans hr.symm, hi, hin, fun j hj => ?_⟩
    rw [hcap, hld j hj, hrr, hkeeps j (by omega)]

/-- A write in progress, if any, across a step of the consumer. -/
theorem writer_stable {R R' : Ring α} {wr : Option (WritePc α)}
    (h : ∀ pc ∈ wr, ∃ n₀, WriteOk R n₀ pc) (hm : ReaderMoves R R') :
    ∀ pc ∈ wr, ∃ n₀, WriteOk R' n₀ pc := by
  intro pc hpc
  obtain ⟨n₀, hok⟩ := h pc hpc
  exact ⟨n₀, hok.stable hm⟩

/-- A read in progress, if any, across a step of the producer. -/
theorem reader_stable {R R' : Ring α} {rd : Option (ReadPc α)}
    (h : ∀ pc ∈ rd, ∃ n₀, ReadOk R n₀ pc) (hm : WriterMoves R R') :
    ∀ pc ∈ rd, ∃ n₀, ReadOk R' n₀ pc := by
  intro pc hpc
  obtain ⟨n₀, hok⟩ := h pc hpc
  exact ⟨n₀, hok.stable hm⟩

/-! ## One step of `ring_write` -/

section Write

variable {R : Ring α} {q : List (List α)} {n₀ : ℤ}

/-- Frame `i` is copied into a free slot. -/
theorem storeFrame_keeps {src : Region α} {n sp w : ℤ} {i : ℕ} (h : RingInv R q)
    (hp : WriteOk R n₀ (.copy src n sp w i)) (hlt : (i : ℤ) < n) :
    ∃ R', storeFrame R w i src = some R' ∧ RingInv R' q ∧
      WriteOk R' n₀ (.copy src n sp w (i + 1 : ℕ)) ∧ WriterMoves R R' := by
  have hok := h.toRingOk
  obtain ⟨hcall, hn, h0, hsp, rfl, hi, hin, hst⟩ := hp
  have hu0 := hok.used_nonneg
  have hcall' : CallOk src n₀ := hcall
  unfold CallOk at hcall'
  obtain ⟨R', hR', hok', hcap, hw, hr, hself, hne⟩ :=
    storeFrame_spec hok hok.windex (show (i : ℤ) < R.cap by omega)
      (show (i + 1) * 6 ≤ src.size by omega)
  have hused : R'.used = R.used := by unfold Ring.used; rw [hcap, hw, hr]
  have hkeeps : ∀ k : ℕ, (k : ℤ) < R.used →
      R'.slot ((R.r + k) % R.cap) = R.slot ((R.r + k) % R.cap) := fun k hk =>
    hne _ (index_emod hok.cap_pos _).1
      (free_ne_used hok.windex hok.rindex (by omega) (by unfold Ring.used at *; omega)
        (by omega) hk).symm
  refine ⟨R', hR', ⟨hok', ?_, ?_⟩, ⟨hcall, hn, h0, ?_, hw.symm, by omega, by omega, ?_⟩,
    ⟨hcap, hr, hused.ge, hkeeps⟩⟩
  · rw [hused]; exact h.length
  · rw [hcap, hr]
    refine h.holds.congr fun k hk => hkeeps k ?_
    rw [← h.length]; exact_mod_cast hk
  · rw [hcap, hused]; exact hsp
  · intro j hj
    rw [hcap]
    rcases Nat.lt_succ_iff_lt_or_eq.mp (show j < i + 1 by omega) with hji | rfl
    · rw [hne _ (index_emod hok.cap_pos _).1, hst j (by omega)]
      intro he
      have := emod_add_inj hok.windex (i := j) (j := i) ⟨by omega, by omega⟩
        ⟨by omega, by omega⟩ he
      omega
    · exact hself

/-- The write index moves on: the free slots just filled become used. -/
theorem advanceAt_publishes {src : Region α} {n sp w : ℤ} (h : RingInv R q)
    (hp : WriteOk R n₀ (.copy src n sp w n)) :
    ∃ w', advanceAt R.cap w n = some w' ∧
      RingInv { R with w := w' } (q ++ frames src n.toNat) ∧
      WriterMoves R { R with w := w' } := by
  have hok := h.toRingOk
  obtain ⟨hcall, hn, h0, hsp, rfl, hi, -, hst⟩ := hp
  have hu0 := hok.used_nonneg
  have hput := occ_put hok.windex hok.rindex hi (show n ≤ R.cap - 1 - occ R.cap R.w R.r by
    unfold Ring.used at hsp; omega)
  refine ⟨(R.w + n) % R.cap, advanceAt_eq hok.cap_lt hok.windex ⟨hi, by omega⟩,
    ⟨⟨hok.buf, hok.small, index_emod hok.cap_pos _, hok.rindex⟩, ?_, ?_⟩, rfl, rfl, ?_,
    fun _ _ => rfl⟩
  · have hl := h.length
    unfold Ring.used at *
    rw [List.length_append, length_frames]
    push_cast
    rw [Int.toNat_of_nonneg hi]
    exact (congrArg (· + n) hl).trans hput.symm
  · refine h.holds.append fun k hk => ?_
    rw [length_frames] at hk
    rw [getElem_frames, h.length, show (R.r + R.used) % R.cap = R.w from
      add_occ_emod hok.windex hok.rindex]
    exact hst k (by omega)
  · unfold Ring.used at *
    exact (by omega : occ R.cap R.w R.r ≤ occ R.cap R.w R.r + n).trans hput.symm.le

/-- `ring_write` works out the room that there is. -/
theorem writeStep_availR (h : RingOk R) (src : Region α) (n : ℤ) :
    writeStep R (.availR src n R.w) = some (R, .inl (.loadW src
      (if n > R.cap - 1 - R.used then R.cap - 1 - R.used else n) (R.cap - 1 - R.used))) := by
  simp only [writeStep, Option.bind_eq_bind, Option.pure_def]
  rw [availAt_eq h.cap_lt h.windex h.rindex, Option.bind_some,
    show occ R.cap R.w R.r = R.used from rfl, spaceAt_eq h.cap_lt h.used_nonneg h.used_lt,
    Option.bind_some]

/-- A step that stores a frame or publishes leaves the used slots alone. -/
theorem writeStep_spec {pc : WritePc α} (h : RingInv R q) (hp : WriteOk R n₀ pc) :
    (∃ R' pc', writeStep R pc = some (R', .inl pc') ∧ RingInv R' q ∧ WriteOk R' n₀ pc' ∧
      pc'.src = pc.src ∧ WriterMoves R R') ∨
    (∃ R' n sp, writeStep R pc = some (R', .inr (n, sp)) ∧ n = min n₀ sp ∧ 0 ≤ n ∧
      RingInv R' (q ++ frames pc.src n.toNat) ∧ WriterMoves R R') := by
  have hok := h.toRingOk
  have hcall := hp.1
  have hat := hp.2
  cases pc with
  | availW src n => exact .inl ⟨R, _, rfl, h, ⟨hcall, hat, rfl⟩, rfl, .refl R⟩
  | availR src n w =>
    obtain ⟨rfl, rfl⟩ := hat
    have hu0 := hok.used_nonneg
    have hu1 := hok.used_lt
    refine .inl ⟨R, _, writeStep_availR hok src n, h, ⟨hcall, ?_, by omega, le_rfl⟩, rfl, .refl R⟩
    split_ifs <;> omega
  | loadW src n sp =>
    obtain ⟨hn, h0, hsp⟩ := hat
    unfold CallOk at hcall
    exact .inl ⟨R, _, rfl, h, ⟨hcall, hn, h0, hsp, rfl, le_rfl, by omega, fun j hj => by omega⟩,
      rfl, .refl R⟩
  | copy src n sp w i =>
    by_cases hlt : i < n
    · obtain ⟨i, rfl⟩ := Int.eq_ofNat_of_zero_le hat.2.2.2.2.1
      obtain ⟨R', hR', hinv, hok', hmoves⟩ := storeFrame_keeps h hp hlt
      refine .inl ⟨R', .copy src n sp w (i + 1 : ℕ), ?_, hinv, hok', rfl, hmoves⟩
      simp only [writeStep, if_pos hlt, hR', Option.bind_eq_bind, Option.bind_some, Option.pure_def,
        Nat.cast_add, Nat.cast_one]
    · obtain ⟨hn, h0, hsp, -, hi, hin, -⟩ := hat
      obtain rfl : i = n := by omega
      obtain ⟨w', hw', hinv, hmoves⟩ := advanceAt_publishes h hp
      refine .inr ⟨{ R with w := w' }, i, sp, ?_, hn, hi, hinv, hmoves⟩
      simp only [writeStep, if_neg hlt, hw', Option.bind_eq_bind, Option.bind_some, Option.pure_def]

end Write

/-! ## One step of `ring_read` -/

section Read

variable {R : Ring α} {q : List (List α)} {n₀ : ℤ}

/-- The `i`-th used slot is copied out. -/
theorem loadFrame_keeps {dst : Region α} {n av r : ℤ} {i : ℕ} (h : RingInv R q)
    (hp : ReadOk R n₀ (.copy dst n av r i)) (hlt : (i : ℤ) < n) :
    ∃ dst', loadFrame R r i dst = some dst' ∧
      ReadOk R n₀ (.copy dst' n av r (i + 1 : ℕ)) ∧ dst'.size = dst.size := by
  have hok := h.toRingOk
  obtain ⟨hcall, hn, h0, hav, rfl, hi, hin, hld⟩ := hp
  have hu1 := hok.used_lt
  have hcall' : CallOk dst n₀ := hcall
  unfold CallOk at hcall'
  obtain ⟨dst', hd', hsize, hself, hne⟩ :=
    loadFrame_spec hok hok.rindex (show (i : ℤ) < R.cap by omega)
      (show (i + 1) * 6 ≤ dst.size by omega)
  refine ⟨dst', hd', ⟨?_, hn, h0, hav, rfl, by omega, by omega, ?_⟩, hsize⟩
  · change CallOk dst' n₀
    unfold CallOk
    rw [hsize]; exact hcall'
  · intro j hj
    rcases Nat.lt_succ_iff_lt_or_eq.mp (show j < i + 1 by omega) with hji | rfl
    · rw [hne j (by omega), hld j (by omega)]
    · exact hself

/-- The read index moves on and gives the slots back: the frames copied are the oldest
    `n`. -/
theorem advanceAt_givesBack {dst : Region α} {n av r : ℤ} (h : RingInv R q)
    (hp : ReadOk R n₀ (.copy dst n av r n)) :
    ∃ r', advanceAt R.cap r n = some r' ∧ n ≤ q.length ∧ frames dst n.toNat = q.take n.toNat ∧
      RingInv { R with r := r' } (q.drop n.toNat) ∧ ReaderMoves R { R with r := r' } := by
  have hok := h.toRingOk
  obtain ⟨hcall, hn, h0, hav, rfl, hi, -, hld⟩ := hp
  have hu1 := hok.used_lt
  have hlen := h.length
  have htake := occ_take hok.windex hok.rindex hi (show n ≤ occ R.cap R.w R.r by
    unfold Ring.used at hav; omega)
  refine ⟨(R.r + n) % R.cap, advanceAt_eq hok.cap_lt hok.rindex ⟨hi, by omega⟩, by omega, ?_,
    ⟨⟨hok.buf, hok.small, hok.windex, index_emod hok.cap_pos _⟩, ?_, ?_⟩, rfl, rfl, rfl, ?_⟩
  · apply List.ext_getElem
    · rw [length_frames, List.length_take]; omega
    · intro j h1 h2
      rw [length_frames] at h1
      rw [getElem_frames, List.getElem_take, hld j (by omega)]
      exact h.holds j (by omega)
  · unfold Ring.used at *
    rw [List.length_drop]
    push_cast [Nat.cast_sub (show n.toNat ≤ q.length by omega)]
    rw [Int.toNat_of_nonneg hi]
    exact (congrArg (· - n) hlen).trans htake.symm
  · have := h.holds.drop n.toNat
    rwa [Int.toNat_of_nonneg hi] at this
  · unfold Ring.used at *
    exact htake.le.trans (by omega)

theorem readStep_spec {pc : ReadPc α} (h : RingInv R q) (hp : ReadOk R n₀ pc) :
    (∃ R' pc', readStep R pc = some (R', .inl pc') ∧ RingInv R' q ∧ ReadOk R' n₀ pc' ∧
      pc'.dst.size = pc.dst.size ∧ ReaderMoves R R') ∨
    (∃ R' dst n av, readStep R pc = some (R', .inr (dst, n, av)) ∧ n = min n₀ av ∧ 0 ≤ n ∧
      n ≤ q.length ∧ frames dst n.toNat = q.take n.toNat ∧ dst.size = pc.dst.size ∧
      RingInv R' (q.drop n.toNat) ∧ ReaderMoves R R') := by
  have hok := h.toRingOk
  have hcall := hp.1
  have hat := hp.2
  cases pc with
  | availW dst n =>
    exact .inl ⟨R, _, rfl, h, ⟨hcall, hat, hok.windex, le_rfl⟩, rfl, .refl R⟩
  | availR dst n w =>
    obtain ⟨rfl, hw, hsnap⟩ := hat
    have ho := occ_nonneg (w := w) (r := R.r) hok.cap_pos
    refine .inl ⟨R, .loadR dst (if n > occ R.cap w R.r then occ R.cap w R.r else n)
      (occ R.cap w R.r), ?_, h, ⟨hcall, ?_, ho, hsnap⟩, rfl, .refl R⟩
    · simp only [readStep, Option.bind_eq_bind, Option.pure_def]
      rw [availAt_eq hok.cap_lt hw hok.rindex, Option.bind_some]
    · split_ifs <;> omega
  | loadR dst n av =>
    obtain ⟨hn, h0, hav⟩ := hat
    unfold CallOk at hcall
    exact .inl ⟨R, _, rfl, h, ⟨hcall, hn, h0, hav, rfl, le_rfl, by omega, fun j hj => by omega⟩,
      rfl, .refl R⟩
  | copy dst n av r i =>
    by_cases hlt : i < n
    · obtain ⟨i, rfl⟩ := Int.eq_ofNat_of_zero_le hat.2.2.2.2.1
      obtain ⟨dst', hdst, hok', hsize⟩ := loadFrame_keeps h hp hlt
      refine .inl ⟨R, .copy dst' n av r (i + 1 : ℕ), ?_, h, hok', hsize, .refl R⟩
      simp only [readStep, if_pos hlt, hdst, Option.bind_eq_bind, Option.bind_some, Option.pure_def,
        Nat.cast_add, Nat.cast_one]
    · obtain ⟨hn, h0, hav, -, hi, hin, -⟩ := hat
      obtain rfl : i = n := by omega
      obtain ⟨r', hr', hle, hframes, hinv, hmoves⟩ := advanceAt_givesBack h hp
      refine .inr ⟨{ R with r := r' }, dst, i, av, ?_, hn, hi, hle, hframes, rfl, hinv, hmoves⟩
      simp only [readStep, if_neg hlt, hr', Option.bind_eq_bind, Option.bind_some, Option.pure_def]

end Read

end DjmT1.Audio
