import DjmT1.Audio.RingInv
import DjmT1.Lib.Machine

/-!
# The ring shared by two threads

One producer thread makes `ring_write` calls and one consumer thread makes
`ring_read` calls on the same ring; `ringMachine` interleaves their steps in
every order. The state keeps two histories: the frames accepted by the completed
writes and the frames returned by the completed reads.

Main results:

* `ringState_inv`: at every moment the frames accepted are the frames returned
  followed by the frames the ring holds, and both parties' calls are as
  `WriteOk` and `ReadOk` say.
* `ring_spsc`: nothing is lost, duplicated, reordered or torn; the slots the
  producer still has to fill and those the consumer still has to read are
  disjoint; the indices and the occupancy stay in range; no step is undefined.
-/

namespace DjmT1.Audio

open DjmT1.Lib DjmT1.Lib.Circular

variable {α : Type}

/-! ## The machine -/

/-- The ring, the two threads (`none` between calls) and the histories. -/
structure RingState (α : Type) where
  ring : Ring α
  writer : Option (WritePc α)
  reader : Option (ReadPc α)
  accepted : List (List α)
  returned : List (List α)

/-- Who moves: the start of a call, or one step of the call in progress. -/
inductive RingLabel (α : Type)
  | callWrite (src : Region α) (n : ℤ)
  | write
  | callRead (dst : Region α) (n : ℤ)
  | read

def ringEnabled (s : RingState α) : RingLabel α → Prop
  | .callWrite src n => s.writer.isNone ∧ CallOk src n
  | .write => s.writer.isSome
  | .callRead dst n => s.reader.isNone ∧ CallOk dst n
  | .read => s.reader.isSome

def ringExec (s : RingState α) : RingLabel α → Option (RingState α)
  | .callWrite src n => some { s with writer := some (.availW src n) }
  | .write => do
    let pc ← s.writer
    match ← writeStep s.ring pc with
    | (R, .inl pc') => return { s with ring := R, writer := some pc' }
    | (R, .inr (n, _)) =>
      return { s with ring := R, writer := none, accepted := s.accepted ++ frames pc.src n.toNat }
  | .callRead dst n => some { s with reader := some (.availW dst n) }
  | .read => do
    let pc ← s.reader
    match ← readStep s.ring pc with
    | (R, .inl pc') => return { s with ring := R, reader := some pc' }
    | (R, .inr (dst, n, _)) =>
      return { s with ring := R, reader := none, returned := s.returned ++ frames dst n.toNat }

/-- One producer and one consumer on a ring of `cap` slots that starts empty. -/
def ringMachine (cap : ℤ) : Machine (RingState α) (RingLabel α) where
  init s := EmptyRing cap s.ring ∧ s.writer = none ∧ s.reader = none ∧ s.accepted = [] ∧
    s.returned = []
  enabled := ringEnabled
  exec := ringExec

instance (cap : ℤ) (s : RingState α) : (l : RingLabel α) →
    Decidable ((ringMachine cap).enabled s l)
  | .callWrite src n => inferInstanceAs (Decidable (s.writer.isNone ∧ CallOk src n))
  | .write => inferInstanceAs (Decidable (s.writer.isSome = true))
  | .callRead dst n => inferInstanceAs (Decidable (s.reader.isNone ∧ CallOk dst n))
  | .read => inferInstanceAs (Decidable (s.reader.isSome = true))

/-! ## The invariant of all interleavings -/

/-- The invariant of a state: the ring holds what was accepted and not yet
    returned, and each call in progress is where the other party left it. -/
structure RingStateInv (cap : ℤ) (s : RingState α) : Prop where
  cap_eq : s.ring.cap = cap
  queue : ∃ q, RingInv s.ring q ∧ s.accepted = s.returned ++ q
  writer : ∀ pc ∈ s.writer, ∃ n₀, WriteOk s.ring n₀ pc
  reader : ∀ pc ∈ s.reader, ∃ n₀, ReadOk s.ring n₀ pc

/-- Every step that may be taken is defined and keeps the invariant. -/
theorem ringExec_inv {cap : ℤ} {s : RingState α} {l : RingLabel α} (h : RingStateInv cap s)
    (hl : ringEnabled s l) : ∃ t, ringExec s l = some t ∧ RingStateInv cap t := by
  obtain ⟨hcap, ⟨q, hq, hacc⟩, hw, hr⟩ := h
  cases l with
  | callWrite src n =>
    refine ⟨_, rfl, hcap, ⟨q, hq, hacc⟩, ?_, hr⟩
    rintro _ ⟨⟩
    exact ⟨n, hl.2, rfl⟩
  | write =>
    obtain ⟨pc, hpc⟩ := Option.isSome_iff_exists.mp hl
    obtain ⟨n₀, hok⟩ := hw pc hpc
    simp only [ringExec, hpc, Option.bind_eq_bind, Option.bind_some]
    rcases writeStep_spec hq hok with ⟨R', pc', hst, hq', hok', -, hm⟩ |
      ⟨R', n, sp, hst, -, -, hq', hm⟩
    · rw [hst]
      refine ⟨_, rfl, hm.cap.trans hcap, ⟨q, hq', hacc⟩, ?_, reader_stable hr hm⟩
      rintro _ ⟨⟩
      exact ⟨n₀, hok'⟩
    · rw [hst]
      refine ⟨_, rfl, hm.cap.trans hcap, ⟨_, hq', ?_⟩, by simp, reader_stable hr hm⟩
      rw [hacc, List.append_assoc]
  | callRead dst n =>
    refine ⟨_, rfl, hcap, ⟨q, hq, hacc⟩, hw, ?_⟩
    rintro _ ⟨⟩
    exact ⟨n, hl.2, rfl⟩
  | read =>
    obtain ⟨pc, hpc⟩ := Option.isSome_iff_exists.mp hl
    obtain ⟨n₀, hok⟩ := hr pc hpc
    simp only [ringExec, hpc, Option.bind_eq_bind, Option.bind_some]
    rcases readStep_spec hq hok with ⟨R', pc', hst, hq', hok', -, hm⟩ |
      ⟨R', dst, n, av, hst, -, -, -, htake, -, hq', hm⟩
    · rw [hst]
      refine ⟨_, rfl, hm.cap.trans hcap, ⟨q, hq', hacc⟩, writer_stable hw hm, ?_⟩
      rintro _ ⟨⟩
      exact ⟨n₀, hok'⟩
    · rw [hst]
      refine ⟨_, rfl, hm.cap.trans hcap, ⟨_, hq', ?_⟩, writer_stable hw hm, by simp⟩
      rw [htake, List.append_assoc, List.take_append_drop]
      exact hacc

/-- The invariant holds in every state of every interleaving. -/
theorem ringState_inv {cap : ℤ} (hs : cap * 6 < 2 ^ 31) {s : RingState α}
    (h : (ringMachine cap).Reach s) : RingStateInv cap s := by
  refine h.invariant ?_ ?_
  · rintro s ⟨he, hw, hr, ha, hret⟩
    exact ⟨he.cap_eq, ⟨[], he.inv hs, by rw [ha, hret]; rfl⟩, by simp [hw], by simp [hr]⟩
  · rintro s l t - hi ⟨hl, hst⟩ -
    obtain ⟨t', ht', hinv⟩ := ringExec_inv hi hl
    rw [show ringExec s l = some t from hst] at ht'
    cases ht'
    exact hinv

/-! ## Slots still to be copied -/

/-- The slots a `ring_write` in progress has yet to copy into. Before `n` is
    clamped it has not claimed any. -/
def WritePc.todo (R : Ring α) : WritePc α → Set ℤ
  | .availW _ _ | .availR _ _ _ => ∅
  | .loadW _ n _ => {k | ∃ j : ℕ, (j : ℤ) < n ∧ k = (R.w + j) % R.cap}
  | .copy _ n _ w i => {k | ∃ j : ℕ, i ≤ j ∧ (j : ℤ) < n ∧ k = (w + j) % R.cap}

/-- The slots a `ring_read` in progress has yet to copy out of. -/
def ReadPc.todo (R : Ring α) : ReadPc α → Set ℤ
  | .availW _ _ | .availR _ _ _ => ∅
  | .loadR _ n _ => {k | ∃ j : ℕ, (j : ℤ) < n ∧ k = (R.r + j) % R.cap}
  | .copy _ n _ r i => {k | ∃ j : ℕ, i ≤ j ∧ (j : ℤ) < n ∧ k = (r + j) % R.cap}

/-- The producer only has free slots to fill. -/
theorem WriteOk.todo_free {R : Ring α} {n₀ : ℤ} {pc : WritePc α} (h : WriteOk R n₀ pc) {k : ℤ}
    (hk : k ∈ pc.todo R) : ∃ j : ℕ, (j : ℤ) < R.cap - R.used ∧ k = (R.w + j) % R.cap := by
  have hat := h.2
  cases pc with
  | availW src n => exact hk.elim
  | availR src n w => exact hk.elim
  | loadW src n sp =>
    obtain ⟨j, hj, rfl⟩ := hk
    obtain ⟨hn, -, hsp⟩ := hat
    exact ⟨j, by omega, rfl⟩
  | copy src n sp w i =>
    obtain ⟨j, -, hj, rfl⟩ := hk
    obtain ⟨hn, -, hsp, rfl, -, -, -⟩ := hat
    exact ⟨j, by omega, rfl⟩

/-- The consumer only has used slots to read. -/
theorem ReadOk.todo_used {R : Ring α} {n₀ : ℤ} {pc : ReadPc α} (h : ReadOk R n₀ pc) {k : ℤ}
    (hk : k ∈ pc.todo R) : ∃ j : ℕ, (j : ℤ) < R.used ∧ k = (R.r + j) % R.cap := by
  have hat := h.2
  cases pc with
  | availW dst n => exact hk.elim
  | availR dst n w => exact hk.elim
  | loadR dst n av =>
    obtain ⟨j, hj, rfl⟩ := hk
    obtain ⟨hn, -, hav⟩ := hat
    exact ⟨j, by omega, rfl⟩
  | copy dst n av r i =>
    obtain ⟨j, -, hj, rfl⟩ := hk
    obtain ⟨hn, -, hav, rfl, -, -, -⟩ := hat
    exact ⟨j, by omega, rfl⟩

/-- The slots the producer still has to copy into, in a state. -/
def RingState.writerTodo (s : RingState α) : Set ℤ := {k | ∃ pc ∈ s.writer, k ∈ pc.todo s.ring}

/-- The slots the consumer still has to copy out of, in a state. -/
def RingState.readerTodo (s : RingState α) : Set ℤ := {k | ∃ pc ∈ s.reader, k ∈ pc.todo s.ring}

theorem RingStateInv.disjoint {cap : ℤ} {s : RingState α} (h : RingStateInv cap s) :
    Disjoint s.writerTodo s.readerTodo := by
  rw [Set.disjoint_left]
  rintro k ⟨wpc, hwpc, hkw⟩ ⟨rpc, hrpc, hkr⟩
  obtain ⟨q, hq, -⟩ := h.queue
  obtain ⟨_, hw⟩ := h.writer wpc hwpc
  obtain ⟨_, hr⟩ := h.reader rpc hrpc
  obtain ⟨i, hi, rfl⟩ := hw.todo_free hkw
  obtain ⟨j, hj, he⟩ := hr.todo_used hkr
  exact free_ne_used hq.windex hq.rindex (by omega) hi (by omega) hj he

/-- **The ring under concurrent use.** In every state of every interleaving of one
    producer and one consumer, starting from an empty ring of `cap ≥ 1` slots: the
    frames returned so far are a prefix of the frames accepted so far; the slots
    still to be written and still to be read are disjoint; the occupancy is at
    most `cap - 1` and the indices are in `[0, cap)`; and no step that may be
    taken next is undefined. -/
theorem ring_spsc (cap : ℤ) (hcap : 1 ≤ cap) (hs : cap * 6 < 2 ^ 31) {s : RingState α}
    (h : (ringMachine cap).Reach s) :
    s.returned <+: s.accepted ∧
    Disjoint s.writerTodo s.readerTodo ∧
    (s.ring.w - s.ring.r + cap) % cap ≤ cap - 1 ∧
    (0 ≤ s.ring.w ∧ s.ring.w < cap) ∧ (0 ≤ s.ring.r ∧ s.ring.r < cap) ∧
    (ringMachine cap).Defined s := by
  have hi := ringState_inv hs h
  obtain ⟨q, hq, hacc⟩ := hi.queue
  have hw := hq.windex
  have hr := hq.rindex
  rw [hi.cap_eq] at hw hr
  refine ⟨⟨q, hacc.symm⟩, hi.disjoint, ?_, hw, hr, fun l hl => ?_⟩
  · have := occ_lt (c := cap) (w := s.ring.w) (r := s.ring.r) (by omega)
    unfold occ at this
    omega
  · obtain ⟨t, ht, -⟩ := ringExec_inv hi hl
    exact Option.isSome_iff_exists.mpr ⟨t, ht⟩

/-- A run on a ring of two slots: a frame is written and read back; while the second one
    is being written, after which `w` wraps to slot 0, the consumer has already looked at
    the indices and finds nothing; it is then read back as well, and a third one is on its
    way into slot 0. -/
def wrapRun : List (RingLabel ℕ) :=
  let src := Region.ofList [1, 2, 3, 4, 5, 6] 0
  let dst := Region.fill 6 0
  .callWrite src 1 :: List.replicate 5 .write ++ .callRead dst 1 :: List.replicate 5 .read ++
    [.callWrite src 1, .write, .write, .write, .callRead dst 1, .read, .write, .write, .read,
      .read, .read] ++ .callRead dst 1 :: List.replicate 5 .read ++
    [.callWrite src 1, .write, .write, .write]

/-- An empty ring of two slots and two idle threads. -/
def wrapStart : RingState ℕ := ⟨⟨some (Region.fill 12 0), 2, 0, 0⟩, none, none, [], []⟩

theorem ring_spsc_wrapRun : ∃ s, (ringMachine 2).play wrapStart wrapRun = some s ∧
    s.returned = [[1, 2, 3, 4, 5, 6], [1, 2, 3, 4, 5, 6]] ∧ s.ring.w = 0 ∧
    s.returned <+: s.accepted ∧ Disjoint s.writerTodo s.readerTodo ∧
    (s.ring.w - s.ring.r + 2) % 2 ≤ 2 - 1 ∧ (0 ≤ s.ring.w ∧ s.ring.w < 2) ∧
    (0 ≤ s.ring.r ∧ s.ring.r < 2) ∧ (ringMachine 2).Defined s :=
  ⟨_, rfl, by decide, rfl, ring_spsc 2 (by decide) (by decide) (Machine.play_reach
    ⟨⟨rfl, ⟨_, rfl, by decide⟩, rfl, by decide, by decide⟩, rfl, rfl, rfl, rfl⟩
    (show (ringMachine 2).play wrapStart wrapRun = some _ from rfl))⟩

end DjmT1.Audio
