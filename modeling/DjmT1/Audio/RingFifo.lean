import DjmT1.Audio.RingInv
import DjmT1.Lib.Fifo
import DjmT1.Lib.Loop
import DjmT1.Lib.Refine

/-!
# The ring is a bounded queue

With the calls of its two parties taking turns, the ring of `frames + 1` slots behaves
as a `Fifo` of at most `frames` frames, which knows nothing of indices, of the spare
slot and of where the buffer wraps.

* `ringWrite_spec`, `ringRead_spec`: what whole calls do to the frames held.
* `ring_simulates`: every call does what the queue does, and answers the same.
* `ring_refines_fifo`: so does every sequence of calls from `ring_init` on.
-/

namespace DjmT1.Audio

open DjmT1.Lib DjmT1.Lib.Circular

variable {α : Type} {R : Ring α} {q : List (List α)}

/-! ## Whole calls -/

/-- `ring_write` accepts what fits. -/
theorem ringWrite_spec {src : Region α} {n : ℤ} (h : RingInv R q) (hcall : CallOk src n) :
    ∃ R', ringWrite R src n = some (R', min n (R.cap - 1 - q.length)) ∧
      RingInv R' (q ++ frames src (min n (R.cap - 1 - q.length)).toNat) ∧ R'.cap = R.cap := by
  have hok := h.toRingOk
  have hu0 := hok.used_nonneg
  have hu1 := hok.used_lt
  have hn0 := hcall.1
  rw [h.length]
  obtain ⟨k, hk⟩ : ∃ k, k = min n (R.cap - 1 - R.used) := ⟨_, rfl⟩
  have hk0 : 0 ≤ k := by omega
  rw [← hk]
  obtain ⟨R', hloop, hinv, hwrite, hcap⟩ := loop_spec
    (fun (R' : Ring α) i => storeFrame R' R.w i src)
    (fun i R' => RingInv R' q ∧ WriteOk R' n (.copy src k (R.cap - 1 - R.used) R.w i) ∧
      R'.cap = R.cap) k.toNat
    ⟨h, ⟨hcall, hk, by omega, le_rfl, rfl, le_rfl, hk0, fun j hj => by omega⟩, rfl⟩ (by
      rintro i R' hi ⟨hinv, hwrite, hcap⟩
      obtain ⟨R'', hst, hinv', hwrite', hmoves⟩ := storeFrame_keeps hinv hwrite (by omega)
      exact ⟨R'', hst, hinv', hwrite', hmoves.cap.trans hcap⟩)
  rw [Int.toNat_of_nonneg hk0] at hwrite
  obtain ⟨w', hw', hinv', _⟩ := advanceAt_publishes hinv hwrite
  refine ⟨{ R' with w := w' }, ?_, hinv', hcap⟩
  simp only [ringWrite, ringSpace, ringAvail, Option.bind_eq_bind, Option.pure_def]
  rw [availAt_eq hok.cap_lt hok.windex hok.rindex, Option.bind_some,
    show occ R.cap R.w R.r = R.used from rfl, spaceAt_eq hok.cap_lt hu0 hu1, Option.bind_some,
    show (if n > R.cap - 1 - R.used then R.cap - 1 - R.used else n) = k by split_ifs <;> omega,
    hloop, Option.bind_some, hw', Option.bind_some]

/-- The first `n` frames of a buffer, of which the first `k` are known and the others are
    those of another buffer. -/
theorem frames_eq_append {b b' : Region α} {n k : ℕ} (hk : k ≤ n)
    (hrest : ∀ j, k ≤ j → b'.block djmt1Ch j = b.block djmt1Ch j) :
    frames b' n = frames b' k ++ (frames b n).drop k := by
  apply List.ext_getElem
  · simp only [List.length_append, length_frames, List.length_drop]
    omega
  · intro j hj hj'
    rw [getElem_frames]
    by_cases hjk : j < k
    · rw [List.getElem_append_left (by rwa [length_frames]), getElem_frames]
    · rw [List.getElem_append_right (by rw [length_frames]; omega), List.getElem_drop,
        getElem_frames, length_frames, show k + (j - k) = j by omega]
      exact hrest j (by omega)

/-- The copy loop of `ring_read`: the first `k` frames of the caller's buffer are those from
    the read index on, the others stay. -/
theorem loadFrames_spec {dst : Region α} {k : ℕ} (hok : RingOk R) (hk : (k : ℤ) ≤ R.used)
    (hfit : k * 6 ≤ dst.size) :
    ∃ dst', (List.range k).foldlM (fun dst (i : ℕ) => loadFrame R R.r i dst) dst = some dst' ∧
      dst'.size = dst.size ∧
      (∀ j < k, dst'.block djmt1Ch j = R.slot ((R.r + j) % R.cap)) ∧
      ∀ j, k ≤ j → dst'.block djmt1Ch j = dst.block djmt1Ch j := by
  have hu1 := hok.used_lt
  apply loop_spec (fun (dst' : Region α) i => loadFrame R R.r i dst')
    (fun i dst' => dst'.size = dst.size ∧
      (∀ j < i, dst'.block djmt1Ch j = R.slot ((R.r + j) % R.cap)) ∧
      ∀ j, i ≤ j → dst'.block djmt1Ch j = dst.block djmt1Ch j) k
  · exact ⟨rfl, fun j hj => absurd hj (Nat.not_lt_zero j), fun _ _ => rfl⟩
  · rintro i dst' hi ⟨hsize, hld, hrest⟩
    obtain ⟨dst'', hst, hsize', hself, hne⟩ := loadFrame_spec hok hok.rindex
      (show (i : ℤ) < R.cap by omega) (show (i + 1) * 6 ≤ dst'.size by omega)
    refine ⟨dst'', hst, hsize'.trans hsize, ?_, ?_⟩
    · intro j hj
      rcases Nat.lt_succ_iff_lt_or_eq.mp hj with hji | rfl
      · rw [hne j (by omega)]
        exact hld j hji
      · exact hself
    · intro j hj
      rw [hne j (by omega)]
      exact hrest j (by omega)

/-- `ring_read` delivers the oldest frames, and leaves the rest of the caller's buffer. -/
theorem ringRead_spec {dst : Region α} {n : ℤ} (h : RingInv R q) (hcall : CallOk dst n) :
    ∃ R' dst', ringRead R dst n = some (R', dst', min n q.length) ∧
      RingInv R' (q.drop n.toNat) ∧
      frames dst' n.toNat = q.take n.toNat ++ (frames dst n.toNat).drop q.length ∧
      R'.cap = R.cap := by
  have hok := h.toRingOk
  have hlen := h.length
  have hu1 := hok.used_lt
  have hn0 := hcall.1
  obtain ⟨k, hk⟩ : ∃ k, k = min n (q.length : ℤ) := ⟨_, rfl⟩
  have hk0 : 0 ≤ k := by omega
  rw [← hk]
  have hfit := hcall.2.2
  obtain ⟨dst', hloop, hsize, hld, hrest⟩ := loadFrames_spec hok
    (show (k.toNat : ℤ) ≤ R.used by omega) (show k.toNat * 6 ≤ dst.size by omega)
  have hread : ReadOk R n (.copy dst' k R.used R.r k) := by
    refine ⟨⟨hn0, hcall.2.1, ?_⟩, by omega, hok.used_nonneg, le_rfl, rfl, hk0, le_rfl, ?_⟩
    · show n * 6 ≤ dst'.size
      rw [hsize]
      exact hcall.2.2
    · intro j hj
      exact hld j (by omega)
  obtain ⟨r', hr', _, htake, hinv, _⟩ := advanceAt_givesBack h hread
  have hmin : k.toNat = min n.toNat q.length := by omega
  refine ⟨{ R with r := r' }, dst', ?_, ?_, ?_, rfl⟩
  · simp only [ringRead, ringAvail, Option.bind_eq_bind, Option.pure_def]
    rw [availAt_eq hok.cap_lt hok.windex hok.rindex, Option.bind_some,
      show occ R.cap R.w R.r = R.used from rfl,
      show (if n > R.used then R.used else n) = k by split_ifs <;> omega, hloop, Option.bind_some,
      hr', Option.bind_some]
  · convert hinv using 1
    rcases Nat.le_total n.toNat q.length with hle | hle
    · rw [hmin, min_eq_left hle]
    · rw [hmin, min_eq_right hle, List.drop_length, List.drop_eq_nil_of_le hle]
  · rw [frames_eq_append (show k.toNat ≤ n.toNat by omega) hrest, htake, hmin]
    rcases Nat.le_total n.toNat q.length with hle | hle
    · rw [min_eq_left hle, List.drop_eq_nil_of_le (by rw [length_frames]),
        List.drop_eq_nil_of_le (by rwa [length_frames])]
    · rw [min_eq_right hle, List.take_of_length_le hle, List.take_length]

/-- `ring_read` leaves what lies behind the `n` frames of the caller's buffer. -/
theorem ringRead_rest {R' : Ring α} {dst dst' : Region α} {n k : ℤ}
    (h : ringRead R dst n = some (R', dst', k)) :
    dst'.size = dst.size ∧ ∀ j : ℕ, n * 6 ≤ j → dst'.get j = dst.get j := by
  simp only [ringRead, Option.bind_eq_bind, Option.pure_def] at h
  obtain ⟨av, _, h⟩ := Option.bind_eq_some_iff.mp h
  obtain ⟨dst₁, hloop, h⟩ := Option.bind_eq_some_iff.mp h
  obtain ⟨r', _, h⟩ := Option.bind_eq_some_iff.mp h
  obtain ⟨_, hpair⟩ := Prod.mk.inj (Option.some.inj h)
  obtain ⟨rfl, _⟩ := Prod.mk.inj hpair
  refine loop_keeps (fun b : Region α => b.size = dst.size ∧
    ∀ j : ℕ, n * 6 ≤ j → b.get j = dst.get j) hloop ⟨rfl, fun _ _ => rfl⟩ ?_
  rintro i b c hi hstep ⟨hsize, hget⟩
  obtain ⟨slot, _, hstep⟩ := Option.bind_eq_some_iff.mp hstep
  obtain ⟨buf, _, hmem⟩ := Option.bind_eq_some_iff.mp hstep
  refine ⟨(Region.size_of_memcpy hmem).trans hsize, fun j hj => ?_⟩
  have hle : (if n > av then av else n) ≤ n := by split_ifs <;> omega
  rw [Region.get_of_memcpy hmem (by simp only [djmt1Ch]; push_cast; omega)]
  exact hget j hj

/-- A ring holds only one list of frames. -/
theorem RingInv.unique {p : List (List α)} (h : RingInv R q) (h' : RingInv R p) : q = p := by
  have hlen := h.length.trans h'.length.symm
  apply List.ext_getElem
  · exact_mod_cast hlen
  · intro k hk hk'
    rw [← h.holds k hk, ← h'.holds k hk']

/-! ## The queue -/

/-- A call on the ring. -/
inductive RingCall (α : Type)
  | write (src : Region α) (n : ℤ)
  | read (dst : Region α) (n : ℤ)
  | avail
  | space

/-- What a call gives back: its result, and for `ring_read` the first `n` frames of the
    caller's buffer. -/
structure Reply (α : Type) where
  count : ℤ
  dst : List (List α)

/-- The caller passes a non-negative `int` and a buffer of as many frames. -/
def RingCall.Ok : RingCall α → Prop
  | .write b n | .read b n => CallOk b n
  | .avail | .space => True

instance : (call : RingCall α) → Decidable call.Ok
  | .write b n | .read b n => inferInstanceAs (Decidable (CallOk b n))
  | .avail | .space => inferInstanceAs (Decidable True)

/-- A call on the ring, run to completion. -/
def ringCall (R : Ring α) : RingCall α → Option (Ring α × Reply α)
  | .write src n => do
    let (R, k) ← ringWrite R src n
    return (R, ⟨k, []⟩)
  | .read dst n => do
    let (R, dst, k) ← ringRead R dst n
    return (R, ⟨k, frames dst n.toNat⟩)
  | .avail => do
    let k ← ringAvail R
    return (R, ⟨k, []⟩)
  | .space => do
    let k ← ringSpace R
    return (R, ⟨k, []⟩)

variable {c : ℕ}

/-- The same call on a queue: a write appends the frames of `src` that fit; a read puts
    the oldest frames at the beginning of `dst`. -/
def fifoCall (f : Fifo (List α) c) : RingCall α → Fifo (List α) c × Reply α
  | .write src n => ((f.put (frames src n.toNat)).1, ⟨(f.put (frames src n.toNat)).2, []⟩)
  | .read dst n =>
    ((f.get n.toNat).1, ⟨(f.get n.toNat).2.length,
      (f.get n.toNat).2 ++ (frames dst n.toNat).drop f.length⟩)
  | .avail => (f, ⟨f.length, []⟩)
  | .space => (f, ⟨f.space, []⟩)

/-- The ring has `c + 1` slots and holds the frames of the queue. -/
structure RingHolds (R : Ring α) (f : Fifo (List α) c) : Prop where
  cap : R.cap = c + 1
  inv : RingInv R f.items

/-- `ring_avail` is the length of the queue. -/
theorem RingHolds.avail {f : Fifo (List α) c} (h : RingHolds R f) :
    ringAvail R = some (f.length : ℤ) := by
  have hok := h.inv.toRingOk
  rw [ringAvail, availAt_eq hok.cap_lt hok.windex hok.rindex, Fifo.length, h.inv.length]
  rfl

/-- `ring_space` is the space of the queue. -/
theorem RingHolds.space {f : Fifo (List α) c} (h : RingHolds R f) :
    ringSpace R = some (f.space : ℤ) := by
  have hok := h.inv.toRingOk
  have hlen := h.inv.length
  have hle := f.bounded
  simp only [ringSpace, h.avail, Option.bind_eq_bind, Option.bind_some, Fifo.length]
  rw [spaceAt_eq hok.cap_lt (by omega) (by rw [hlen]; exact hok.used_lt), h.cap, Fifo.space,
    Fifo.length]
  congr 1
  omega

/-- The first frames of a buffer, from another number of frames on. -/
theorem take_frames (b : Region α) (n k : ℕ) : (frames b n).take k = frames b (min k n) := by
  apply List.ext_getElem
  · simp
  · intro j _ _
    simp [frames]

/-- **Simulation.** Every call on the ring is defined, does to the frames it holds what
    the queue does, and gives back what the queue gives back. -/
theorem ring_simulates : Simulates RingCall.Ok ringCall (fifoCall (c := c) (α := α)) RingHolds := by
  rintro R f call ⟨hcap, hinv⟩ hok
  have hlen := f.bounded
  cases call with
  | write src n =>
    obtain ⟨R', hR', hinv', hcap'⟩ := ringWrite_spec hinv hok
    have hn0 : 0 ≤ n := hok.1
    have hk : (min n (R.cap - 1 - f.items.length)) = ((min n.toNat f.space : ℕ) : ℤ) := by
      rw [hcap, Fifo.space, Fifo.length]
      omega
    rw [hk] at hR' hinv'
    refine ⟨R', ?_, hcap'.trans hcap, ?_⟩
    · simp only [ringCall, hR', Option.bind_eq_bind, Option.bind_some, Option.pure_def, fifoCall,
        Fifo.put, length_frames]
    · simp only [fifoCall, Fifo.put, take_frames]
      rw [Int.toNat_natCast] at hinv'
      rwa [min_comm]
  | read dst n =>
    obtain ⟨R', dst', hR', hinv', hdst, hcap'⟩ := ringRead_spec hinv hok
    have hn0 : 0 ≤ n := hok.1
    refine ⟨R', ?_, hcap'.trans hcap, hinv'⟩
    simp only [ringCall, hR', Option.bind_eq_bind, Option.bind_some, Option.pure_def, fifoCall,
      Fifo.get, hdst, List.length_take, Fifo.length]
    rw [show min n (f.items.length : ℤ) = ((min n.toNat f.items.length : ℕ) : ℤ) by omega]
  | avail =>
    refine ⟨R, ?_, hcap, hinv⟩
    rw [ringCall, RingHolds.avail ⟨hcap, hinv⟩]
    rfl
  | space =>
    refine ⟨R, ?_, hcap, hinv⟩
    rw [ringCall, RingHolds.space ⟨hcap, hinv⟩]
    rfl

/-- **The ring refines a bounded queue.** From `ring_init(frames)` on, every sequence of
    calls is answered as by a queue of at most `frames` frames that starts empty, and
    leaves the ring with the frames of that queue: `ring_avail` is their number and
    `ring_space` what is left of `frames`. -/
theorem ring_refines_fifo (zero : α) (c : ℕ) (hc : ((c : ℤ) + 1) * 6 < 2 ^ 31)
    (calls : List (RingCall α)) (hcalls : ∀ call ∈ calls, call.Ok) :
    ∃ R₀ R f, ringInit zero true c = some (R₀, 0) ∧
      f = (specCalls fifoCall (Fifo.empty (List α) c) calls).1 ∧
      runCalls ringCall R₀ calls =
        some (R, (specCalls fifoCall (Fifo.empty (List α) c) calls).2) ∧
      RingHolds R f ∧ ringAvail R = some (f.length : ℤ) ∧
      ringSpace R = some ((c : ℤ) - f.length) := by
  obtain ⟨R₀, hinit, hempty⟩ := ringInit_empty zero (Int.natCast_nonneg c) hc
  have hstart : RingHolds R₀ (Fifo.empty (List α) c) := ⟨hempty.cap_eq, hempty.inv hc⟩
  obtain ⟨R, hrun, hR⟩ := ring_simulates.run hstart hcalls
  refine ⟨R₀, R, _, hinit, rfl, hrun, hR, hR.avail, ?_⟩
  have hle := (specCalls fifoCall (Fifo.empty (List α) c) calls).1.bounded
  rw [hR.space, Fifo.space, Fifo.length, Nat.cast_sub hle]

/-- A queue of two frames is filled, emptied by one, filled again across the end of the
    buffer, and read until it is empty. -/
def wrapCalls : List (RingCall ℕ) :=
  let src : Region ℕ := Region.ofList (List.range 18) 0
  [.write src 3, .space, .read src 1, .write src 3, .avail, .read src 3, .read src 1]

theorem ring_refines_fifo_wrapCalls :
    (specCalls fifoCall (Fifo.empty (List ℕ) 2) wrapCalls).2.map Reply.count =
      [2, 0, 1, 1, 2, 2, 0] ∧
    ∃ R₀ R f, ringInit 0 true 2 = some (R₀, 0) ∧
      f = (specCalls fifoCall (Fifo.empty (List ℕ) 2) wrapCalls).1 ∧
      runCalls ringCall R₀ wrapCalls =
        some (R, (specCalls fifoCall (Fifo.empty (List ℕ) 2) wrapCalls).2) ∧
      RingHolds R f ∧ ringAvail R = some (f.length : ℤ) ∧ ringSpace R = some (2 - f.length : ℤ) :=
  ⟨by decide, ring_refines_fifo 0 2 (by norm_num) wrapCalls (by decide)⟩

end DjmT1.Audio
