import DjmT1.Lib.CInt
import DjmT1.Lib.Region

/-!
# The sample ring of `djmt1_iso.c`

`ring` (audio/djmt1_iso.c:24-50) is a lock-free single-producer single-consumer
ring of interleaved 6-channel frames with one spare slot. Two threads share it,
so every call is modelled twice:

* `ringWrite`, `ringRead`: a call that runs to completion undisturbed;
* `writeStep`, `readStep`: the same call cut at each access to shared memory
  (an atomic load of `w` or `r`, the copy of one frame, the final atomic store),
  with the local variables of the call in the program counter.

`finishWrite_eq` and `finishRead_eq` say that the two agree: taking the steps of
one call with nothing in between computes the function.
-/

namespace DjmT1.Audio

open DjmT1.Lib

/-- `DJMT1_CH` (audio/djmt1_iso.h:9). -/
abbrev djmt1Ch : ℕ := 6

/-- `ring` (audio/djmt1_iso.c:25). `buf = none` is the null pointer. -/
structure Ring (α : Type) where
  buf : Option (Region α)
  cap : ℤ
  w : ℤ
  r : ℤ

variable {α : Type}

/-- `ring_init` (audio/djmt1_iso.c:26-31): the ring it sets up and its result.
    `calloc` says whether the allocation succeeds. The element count is computed
    in `size_t`. -/
def ringInit (zero : α) (calloc : Bool) (frames : ℤ) : Option (Ring α × ℤ) := do
  let cap ← int32 (frames + 1)
  let count := (cap % 2 ^ 64 * djmt1Ch % 2 ^ 64).toNat
  let buf := if calloc then some (Region.fill count zero) else none
  return ({ buf, cap, w := 0, r := 0 }, if buf.isSome then 0 else -1)

/-! ## The expressions of the ring functions -/

/-- `(w - r + R->cap) % R->cap` (line 33). -/
def availAt (cap w r : ℤ) : Option ℤ := do
  let d ← int32 (w - r)
  let d ← int32 (d + cap)
  cmod d cap

/-- `R->cap - 1 - ring_avail(R)` (line 34). -/
def spaceAt (cap avail : ℤ) : Option ℤ := do
  let m ← int32 (cap - 1)
  int32 (m - avail)

/-- `((k + i) % R->cap) * DJMT1_CH` (lines 39 and 47). -/
def slotAt (cap k i : ℤ) : Option ℤ := do
  let s ← int32 (k + i)
  let s ← cmod s cap
  int32 (s * djmt1Ch)

/-- `(k + n) % R->cap` (lines 40 and 48). -/
def advanceAt (cap k n : ℤ) : Option ℤ := do
  let s ← int32 (k + n)
  cmod s cap

/-- The body of the copy loop of `ring_write` (line 39). -/
def storeFrame (R : Ring α) (w i : ℤ) (src : Region α) : Option (Ring α) := do
  let slot ← slotAt R.cap w i
  let buf ← R.buf
  let buf ← buf.memcpy slot src (i * djmt1Ch) djmt1Ch
  return { R with buf := some buf }

/-- The body of the copy loop of `ring_read` (line 47). -/
def loadFrame (R : Ring α) (r i : ℤ) (dst : Region α) : Option (Region α) := do
  let slot ← slotAt R.cap r i
  let buf ← R.buf
  dst.memcpy (i * djmt1Ch) buf slot djmt1Ch

/-! ## Whole calls -/

/-- `ring_avail` (line 33). -/
def ringAvail (R : Ring α) : Option ℤ := availAt R.cap R.w R.r

/-- `ring_space` (line 34). -/
def ringSpace (R : Ring α) : Option ℤ := do
  let av ← ringAvail R
  spaceAt R.cap av

/-- `ring_write` (lines 35-42): the ring afterwards and the frames accepted. -/
def ringWrite (R : Ring α) (src : Region α) (n : ℤ) : Option (Ring α × ℤ) := do
  let sp ← ringSpace R
  let n := if n > sp then sp else n
  let w := R.w
  let R ← (List.range n.toNat).foldlM (fun R (i : ℕ) => storeFrame R w i src) R
  let w' ← advanceAt R.cap w n
  return ({ R with w := w' }, n)

/-- `ring_read` (lines 43-50): the ring and `dst` afterwards and the frames
    copied. -/
def ringRead (R : Ring α) (dst : Region α) (n : ℤ) : Option (Ring α × Region α × ℤ) := do
  let av ← ringAvail R
  let n := if n > av then av else n
  let r := R.r
  let dst ← (List.range n.toNat).foldlM (fun dst (i : ℕ) => loadFrame R r i dst) dst
  let r' ← advanceAt R.cap r n
  return ({ R with r := r' }, dst, n)

/-! ## Calls in steps -/

/-- Where a thread is inside `ring_write`, with the local variables live there. -/
inductive WritePc (α : Type)
  /-- before `atomic_load(&R->w)` in `ring_avail` -/
  | availW (src : Region α) (n : ℤ)
  /-- before `atomic_load(&R->r)` in `ring_avail` -/
  | availR (src : Region α) (n w : ℤ)
  /-- before `atomic_load(&R->w)` in `ring_write`; `n` is clamped to `sp` -/
  | loadW (src : Region α) (n sp : ℤ)
  /-- at the test `i < n` of the copy loop -/
  | copy (src : Region α) (n sp w i : ℤ)

/-- Where a thread is inside `ring_read`. -/
inductive ReadPc (α : Type)
  /-- before `atomic_load(&R->w)` in `ring_avail` -/
  | availW (dst : Region α) (n : ℤ)
  /-- before `atomic_load(&R->r)` in `ring_avail` -/
  | availR (dst : Region α) (n w : ℤ)
  /-- before `atomic_load(&R->r)` in `ring_read`; `n` is clamped to `av` -/
  | loadR (dst : Region α) (n av : ℤ)
  /-- at the test `i < n` of the copy loop -/
  | copy (dst : Region α) (n av r i : ℤ)

/-- The source buffer of the call. -/
def WritePc.src : WritePc α → Region α
  | .availW src _ | .availR src _ _ | .loadW src _ _ | .copy src _ _ _ _ => src

/-- One step of `ring_write`: the next program counter, or the value returned
    together with the space it was clamped to. -/
def writeStep (R : Ring α) : WritePc α → Option (Ring α × (WritePc α ⊕ ℤ × ℤ))
  | .availW src n => some (R, .inl (.availR src n R.w))
  | .availR src n w => do
    let av ← availAt R.cap w R.r
    let sp ← spaceAt R.cap av
    return (R, .inl (.loadW src (if n > sp then sp else n) sp))
  | .loadW src n sp => some (R, .inl (.copy src n sp R.w 0))
  | .copy src n sp w i =>
    if i < n then do
      let R ← storeFrame R w i src
      return (R, .inl (.copy src n sp w (i + 1)))
    else do
      let w' ← advanceAt R.cap w n
      return ({ R with w := w' }, .inr (n, sp))

/-- One step of `ring_read`: the next program counter, or `dst` and the value
    returned together with the occupancy it was clamped to. -/
def readStep (R : Ring α) : ReadPc α → Option (Ring α × (ReadPc α ⊕ Region α × ℤ × ℤ))
  | .availW dst n => some (R, .inl (.availR dst n R.w))
  | .availR dst n w => do
    let av ← availAt R.cap w R.r
    return (R, .inl (.loadR dst (if n > av then av else n) av))
  | .loadR dst n av => some (R, .inl (.copy dst n av R.r 0))
  | .copy dst n av r i =>
    if i < n then do
      let dst ← loadFrame R r i dst
      return (R, .inl (.copy dst n av r (i + 1)))
    else do
      let r' ← advanceAt R.cap r n
      return ({ R with r := r' }, .inr (dst, n, av))

/-! ## The steps of one call make up the call -/

/-- At most `fuel` steps of one `ring_write` with nothing in between. -/
def finishWrite : ℕ → Ring α → WritePc α → Option (Ring α × ℤ)
  | 0, _, _ => none
  | fuel + 1, R, pc => do
    match ← writeStep R pc with
    | (R, .inl pc) => finishWrite fuel R pc
    | (R, .inr (n, _)) => return (R, n)

/-- At most `fuel` steps of one `ring_read` with nothing in between. -/
def finishRead : ℕ → Ring α → ReadPc α → Option (Ring α × Region α × ℤ)
  | 0, _, _ => none
  | fuel + 1, R, pc => do
    match ← readStep R pc with
    | (R, .inl pc) => finishRead fuel R pc
    | (R, .inr (dst, n, _)) => return (R, dst, n)

theorem finishWrite_copy (src : Region α) (n sp w : ℤ) (m k fuel : ℕ) (R : Ring α)
    (hm : n.toNat = k + m) (hf : m + 1 ≤ fuel) :
    finishWrite fuel R (.copy src n sp w k) = (do
      let R ← (List.range' k m).foldlM (fun R (i : ℕ) => storeFrame R w i src) R
      let w' ← advanceAt R.cap w n
      return ({ R with w := w' }, n)) := by
  induction m generalizing k fuel R with
  | zero =>
    obtain ⟨fuel, rfl⟩ : ∃ f, fuel = f + 1 := ⟨fuel - 1, by omega⟩
    have hn : ¬ (k : ℤ) < n := by omega
    cases h : advanceAt R.cap w n <;> simp [finishWrite, writeStep, hn, h]
  | succ m ih =>
    obtain ⟨fuel, rfl⟩ : ∃ f, fuel = f + 1 := ⟨fuel - 1, by omega⟩
    have hn : (k : ℤ) < n := by omega
    cases h : storeFrame R w k src with
    | none => simp [finishWrite, writeStep, hn, h, List.range'_succ]
    | some R' =>
      have := ih (k + 1) fuel R' (by omega) (by omega)
      push_cast at this
      simpa [finishWrite, writeStep, hn, h, List.range'_succ] using this

theorem finishRead_copy (R : Ring α) (n av r : ℤ) (m k fuel : ℕ) (dst : Region α)
    (hm : n.toNat = k + m) (hf : m + 1 ≤ fuel) :
    finishRead fuel R (.copy dst n av r k) = (do
      let dst ← (List.range' k m).foldlM (fun dst (i : ℕ) => loadFrame R r i dst) dst
      let r' ← advanceAt R.cap r n
      return ({ R with r := r' }, dst, n)) := by
  induction m generalizing k fuel dst with
  | zero =>
    obtain ⟨fuel, rfl⟩ : ∃ f, fuel = f + 1 := ⟨fuel - 1, by omega⟩
    have hn : ¬ (k : ℤ) < n := by omega
    cases h : advanceAt R.cap r n <;> simp [finishRead, readStep, hn, h]
  | succ m ih =>
    obtain ⟨fuel, rfl⟩ : ∃ f, fuel = f + 1 := ⟨fuel - 1, by omega⟩
    have hn : (k : ℤ) < n := by omega
    cases h : loadFrame R r k dst with
    | none => simp [finishRead, readStep, hn, h, List.range'_succ]
    | some dst' =>
      have := ih (k + 1) fuel dst' (by omega) (by omega)
      push_cast at this
      simpa [finishRead, readStep, hn, h, List.range'_succ] using this

/-- The steps of one undisturbed `ring_write` compute `ringWrite`, for every
    ring and every `n`. -/
theorem finishWrite_eq (R : Ring α) (src : Region α) (n : ℤ) (fuel : ℕ) (hf : n.toNat + 4 ≤ fuel) :
    finishWrite fuel R (.availW src n) = ringWrite R src n := by
  obtain ⟨fuel, rfl⟩ : ∃ f, fuel = f + 3 := ⟨fuel - 3, by omega⟩
  simp only [finishWrite, writeStep, ringWrite, ringSpace, ringAvail, Option.pure_def,
    Option.bind_eq_bind, Option.bind_some]
  cases availAt R.cap R.w R.r with
  | none => rfl
  | some av =>
    simp only [Option.bind_some]
    cases spaceAt R.cap av with
    | none => rfl
    | some sp =>
      simp only [Option.bind_some]
      have := finishWrite_copy src (if n > sp then sp else n) sp R.w
        (if n > sp then sp else n).toNat 0 fuel R (by omega) (by split_ifs <;> omega)
      simpa [List.range_eq_range'] using this

/-- The steps of one undisturbed `ring_read` compute `ringRead`. -/
theorem finishRead_eq (R : Ring α) (dst : Region α) (n : ℤ) (fuel : ℕ) (hf : n.toNat + 4 ≤ fuel) :
    finishRead fuel R (.availW dst n) = ringRead R dst n := by
  obtain ⟨fuel, rfl⟩ : ∃ f, fuel = f + 3 := ⟨fuel - 3, by omega⟩
  simp only [finishRead, readStep, ringRead, ringAvail, Option.pure_def, Option.bind_eq_bind,
    Option.bind_some]
  cases availAt R.cap R.w R.r with
  | none => rfl
  | some av =>
    simp only [Option.bind_some]
    have := finishRead_copy R (if n > av then av else n) av R.r
      (if n > av then av else n).toNat 0 fuel dst (by omega) (by split_ifs <;> omega)
    simpa [List.range_eq_range'] using this

end DjmT1.Audio
