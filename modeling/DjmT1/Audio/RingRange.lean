import DjmT1.Audio.RingFifo
import DjmT1.Lib.Traced

/-!
# The arithmetic of the ring stays in range

What the ring functions (audio/djmt1_iso.c:33-50) compute on the way depends on `cap`, `w`,
`r` and `n` alone. `callTrace` computes a call in exact integers and records every signed
expression, remainder and array access, under the names of `RingExpr` and `RingArray`.

* `ringCall_rel`: a call on the ring is its trace with the checks of C put back in; it is
  undefined exactly when an event of the trace is, and otherwise leaves the same indices.
* `writeTrace_meets`, `readTrace_meets`: between indices below the capacity, every event is
  in range, whatever number of frames is asked for. The bounds come from the number after
  the clamp, which the indices limit.
* `ring_arithmetic`: so it is throughout every sequence of calls from `ring_init` on.
-/

namespace DjmT1.Audio

open DjmT1.Lib DjmT1.Lib.Circular

variable {α : Type}

/-! ## The trace of a call -/

/-- The signed expressions of the ring functions. -/
inductive RingExpr
  /-- `w - r`, the first part of `w - r + R->cap` (line 33) -/
  | diff
  /-- `w - r + R->cap` (line 33) -/
  | lap
  /-- `R->cap - 1`, the first part of the next (line 34) -/
  | spare
  /-- `R->cap - 1 - ring_avail(R)` (line 34) -/
  | space
  /-- `w + i` (line 39) or `r + i` (line 47) -/
  | index
  /-- `((w + i) % R->cap) * DJMT1_CH` (line 39), and with `r` (line 47) -/
  | offset
  /-- `w + n` (line 40) or `r + n` (line 48) -/
  | next
  deriving DecidableEq

/-- The arrays of a call: `R->buf`, and the caller's `src` or `dst` of `size` elements. -/
inductive RingArray
  | buf
  | caller (size : ℕ)
  deriving DecidableEq

/-- A computation of the ring functions. -/
abbrev RingTrace := Traced RingExpr RingArray

/-- The fields of `ring` that index calculations use. -/
structure Indices where
  cap : ℤ
  w : ℤ
  r : ℤ
  deriving DecidableEq

def Ring.indices (R : Ring α) : Indices := ⟨R.cap, R.w, R.r⟩

/-- `(w - r + R->cap) % R->cap` -/
def availTrace (cap w r : ℤ) : RingTrace ℤ := do
  let d ← Traced.value .diff (w - r)
  let d ← Traced.value .lap (d + cap)
  Traced.rem d cap

/-- `R->cap - 1 - ring_avail(R)` -/
def spaceTrace (cap avail : ℤ) : RingTrace ℤ := do
  let m ← Traced.value .spare (cap - 1)
  Traced.value .space (m - avail)

/-- `((k + i) % R->cap) * DJMT1_CH` -/
def slotTrace (cap k i : ℤ) : RingTrace ℤ := do
  let s ← Traced.value .index (k + i)
  let s ← Traced.rem s cap
  Traced.value .offset (s * djmt1Ch)

/-- `(k + n) % R->cap` -/
def advanceTrace (cap k n : ℤ) : RingTrace ℤ := do
  let s ← Traced.value .next (k + n)
  Traced.rem s cap

/-- The copy of frame `i` between the ring and an array of `size` elements. -/
def copyTrace (cap k : ℤ) (size : ℕ) (i : ℤ) : RingTrace Unit := do
  let slot ← slotTrace cap k i
  Traced.access .buf slot djmt1Ch
  Traced.access (.caller size) (i * djmt1Ch) djmt1Ch

/-- `ring_write` with an `src` of `size` elements. -/
def writeTrace (s : Indices) (size : ℕ) (n : ℤ) : RingTrace (Indices × ℤ) := do
  let av ← availTrace s.cap s.w s.r
  let sp ← spaceTrace s.cap av
  let n := if n > sp then sp else n
  forM (List.range n.toNat) fun (i : ℕ) => copyTrace s.cap s.w size i
  let w' ← advanceTrace s.cap s.w n
  return ({ s with w := w' }, n)

/-- `ring_read` with a `dst` of `size` elements. -/
def readTrace (s : Indices) (size : ℕ) (n : ℤ) : RingTrace (Indices × ℤ) := do
  let av ← availTrace s.cap s.w s.r
  let n := if n > av then av else n
  forM (List.range n.toNat) fun (i : ℕ) => copyTrace s.cap s.r size i
  let r' ← advanceTrace s.cap s.r n
  return ({ s with r := r' }, n)

/-- A call: the indices afterwards and the result. -/
def callTrace (s : Indices) : RingCall α → RingTrace (Indices × ℤ)
  | .write src n => writeTrace s src.size n
  | .read dst n => readTrace s dst.size n
  | .avail => do
    let av ← availTrace s.cap s.w s.r
    return (s, av)
  | .space => do
    let av ← availTrace s.cap s.w s.r
    let sp ← spaceTrace s.cap av
    return (s, sp)

/-- A sequence of calls: the indices afterwards. -/
def runTrace (s : Indices) : List (RingCall α) → RingTrace Indices
  | [] => pure s
  | call :: calls => do
    let (s, _) ← callTrace s call
    runTrace s calls

/-! ## The calls on the ring follow their traces -/

/-- The arrays a call on the ring accesses; there are no elements behind a null pointer. -/
def Ring.arraySize (R : Ring α) : RingArray → ℕ
  | .buf => (R.buf.map Region.size).getD 0
  | .caller size => size

theorem availAt_checked (size : RingArray → ℕ) (cap w r : ℤ) :
    (availTrace cap w r).checked size = availAt cap w r := by
  simp [availTrace, availAt]

theorem spaceAt_checked (size : RingArray → ℕ) (cap avail : ℤ) :
    (spaceTrace cap avail).checked size = spaceAt cap avail := by
  simp [spaceTrace, spaceAt]

theorem slotAt_checked (size : RingArray → ℕ) (cap k i : ℤ) :
    (slotTrace cap k i).checked size = slotAt cap k i := by
  simp [slotTrace, slotAt]

theorem advanceAt_checked (size : RingArray → ℕ) (cap k n : ℤ) :
    (advanceTrace cap k n).checked size = advanceAt cap k n := by
  simp [advanceTrace, advanceAt]

/-- The copy of a frame is defined when the slot is and both arrays hold the frame. -/
theorem copyTrace_checked (f : RingArray → ℕ) (cap k i : ℤ) (size : ℕ) :
    (copyTrace cap k size i).checked f = (slotAt cap k i).bind fun slot =>
      if (0 ≤ slot ∧ slot + djmt1Ch ≤ f .buf) ∧
        0 ≤ i * djmt1Ch ∧ i * djmt1Ch + djmt1Ch ≤ f (.caller size) then some () else none := by
  simp only [copyTrace, Traced.checked_bind, slotAt_checked, Traced.checked_access]
  apply congrArg
  funext slot
  by_cases hslot : 0 ≤ slot ∧ slot + djmt1Ch ≤ f .buf
  · rw [if_pos hslot, Option.bind_some]
    simp only [and_iff_right hslot]
  · rw [if_neg hslot, Option.bind_none, if_neg fun h => hslot h.1]

/-- `memcpy` is defined when both arrays hold what is copied. -/
theorem memcpy_rel (dst src : Region α) (d s : ℤ) (n : ℕ) {p : Prop} [Decidable p]
    (hp : p ↔ 0 ≤ d ∧ d + n ≤ dst.size ∧ 0 ≤ s ∧ s + n ≤ src.size) :
    Option.Rel (fun c _ => c.size = dst.size) (dst.memcpy d src s n)
      (if p then some () else none) := by
  unfold Region.memcpy
  by_cases h : p
  · rw [if_pos h, if_pos (hp.mp h)]
    exact .some rfl
  · rw [if_neg h, if_neg (hp.not.mp h)]
    exact .none

/-- What copying leaves alone: the indices and the size of the buffer. -/
def SameShape (R R' : Ring α) : Prop := R'.indices = R.indices ∧ R'.arraySize = R.arraySize

theorem arraySize_none {R : Ring α} (h : R.buf = none) : R.arraySize .buf = 0 := by
  simp [Ring.arraySize, h]

theorem arraySize_some {R : Ring α} {b : Region α} (h : R.buf = some b) :
    R.arraySize .buf = b.size := by
  simp [Ring.arraySize, h]

/-- Behind a null pointer there is no frame to copy. -/
theorem copyTrace_null {R : Ring α} (h : R.buf = none) (cap k i : ℤ) (size : ℕ) :
    (copyTrace cap k size i).checked R.arraySize = none := by
  rw [copyTrace_checked, Option.bind_eq_none_iff]
  intro slot _
  apply if_neg
  rw [arraySize_none h, djmt1Ch]
  omega

/-- The copy loop of `ring_write`, frame by frame. -/
theorem storeFrame_rel (R : Ring α) (w i : ℤ) (src : Region α) :
    Option.Rel (fun R' _ => SameShape R R') (storeFrame R w i src)
      ((copyTrace R.cap w src.size i).checked R.arraySize) := by
  cases hb : R.buf with
  | none =>
    rw [copyTrace_null hb, show storeFrame R w i src = none by simp [storeFrame, hb]]
    exact .none
  | some b =>
    rw [copyTrace_checked, storeFrame, hb, Option.bind_eq_bind]
    cases slotAt R.cap w i with
    | none => exact .none
    | some slot =>
      rw [Option.bind_some, Option.bind_some]
      refine rel_bind_some (memcpy_rel b src slot (i * djmt1Ch) djmt1Ch ?_) fun c _ hc => ?_
      · rw [arraySize_some hb]
        exact and_assoc
      · refine ⟨rfl, ?_⟩
        funext a
        cases a with
        | buf => rw [arraySize_some hb, ← hc]; rfl
        | caller size => rfl

/-- The copy loop of `ring_read`, frame by frame. -/
theorem loadFrame_rel (R : Ring α) (r i : ℤ) (dst : Region α) :
    Option.Rel (fun dst' _ => dst'.size = dst.size) (loadFrame R r i dst)
      ((copyTrace R.cap r dst.size i).checked R.arraySize) := by
  cases hb : R.buf with
  | none =>
    rw [copyTrace_null hb, show loadFrame R r i dst = none by simp [loadFrame, hb]]
    exact .none
  | some b =>
    rw [copyTrace_checked, loadFrame, hb, Option.bind_eq_bind]
    cases slotAt R.cap r i with
    | none => exact .none
    | some slot =>
      rw [Option.bind_some, Option.bind_some]
      refine memcpy_rel dst b (i * djmt1Ch) slot djmt1Ch ?_
      rw [arraySize_some hb, and_comm, and_assoc]
      rfl

theorem SameShape.cap {R R' : Ring α} (h : SameShape R R') : R'.cap = R.cap :=
  congrArg Indices.cap h.1

theorem SameShape.r {R R' : Ring α} (h : SameShape R R') : R'.r = R.r := congrArg Indices.r h.1

theorem SameShape.trans {R R' R'' : Ring α} (h : SameShape R R') (h' : SameShape R' R'') :
    SameShape R R'' := ⟨h'.1.trans h.1, h'.2.trans h.2⟩

/-- A ring that a call has left in `R'` with the result `k`, and what the trace says. -/
def Follows (R R' : Ring α) (k : ℤ) (q : Indices × ℤ) : Prop :=
  R'.indices = q.1 ∧ k = q.2 ∧ R'.arraySize = R.arraySize

theorem ringWrite_rel (R : Ring α) (src : Region α) (n : ℤ) :
    Option.Rel (fun p q => Follows R p.1 p.2 q) (ringWrite R src n)
      ((writeTrace R.indices src.size n).checked R.arraySize) := by
  simp only [writeTrace, Traced.checked_bind, availAt_checked, spaceAt_checked,
    Traced.checked_forM, advanceAt_checked, Traced.checked_pure, ringWrite, ringSpace, ringAvail,
    Option.bind_eq_bind, Option.bind_assoc, Option.pure_def, Ring.indices]
  cases availAt R.cap R.w R.r with
  | none => exact .none
  | some av =>
    rw [Option.bind_some, Option.bind_some]
    cases spaceAt R.cap av with
    | none => exact .none
    | some sp =>
      rw [Option.bind_some, Option.bind_some]
      generalize (if n > sp then sp else n) = k
      refine rel_bind (rel_foldlM (I := SameShape R) _ ⟨rfl, rfl⟩ fun i R' hR' => ?_)
        fun R' _ hR' => ?_
      · have hstep := storeFrame_rel R' R.w i src
        rw [hR'.cap, hR'.2] at hstep
        exact rel_mono hstep fun R'' _ hR'' => hR'.trans hR''
      · rw [hR'.cap]
        cases advanceAt R.cap R.w k with
        | none => exact .none
        | some w' => exact .some ⟨congrArg (Indices.mk R.cap w') hR'.r, rfl, hR'.2⟩

theorem ringRead_rel (R : Ring α) (dst : Region α) (n : ℤ) :
    Option.Rel (fun p q => Follows R p.1 p.2.2 q) (ringRead R dst n)
      ((readTrace R.indices dst.size n).checked R.arraySize) := by
  simp only [readTrace, Traced.checked_bind, availAt_checked, Traced.checked_forM,
    advanceAt_checked, Traced.checked_pure, ringRead, ringAvail, Option.bind_eq_bind,
    Option.pure_def, Ring.indices]
  cases availAt R.cap R.w R.r with
  | none => exact .none
  | some av =>
    rw [Option.bind_some, Option.bind_some]
    generalize (if n > av then av else n) = k
    refine rel_bind (rel_foldlM (I := fun d => d.size = dst.size) _ rfl fun i d hd => ?_)
      fun d _ _ => ?_
    · have hstep := loadFrame_rel R R.r i d
      rwa [hd] at hstep
    · cases advanceAt R.cap R.r k with
      | none => exact .none
      | some r' => exact .some ⟨rfl, rfl, rfl⟩

/-- **A call is its trace with the checks of C**: undefined together, and otherwise with the
    same indices and result. The arrays keep their sizes. -/
theorem ringCall_rel (R : Ring α) (call : RingCall α) :
    Option.Rel (fun p q => Follows R p.1 p.2.count q) (ringCall R call)
      ((callTrace R.indices call).checked R.arraySize) := by
  cases call with
  | write src n => exact rel_bind_some (ringWrite_rel R src n) fun _ _ h => h
  | read dst n => exact rel_bind_some (ringRead_rel R dst n) fun _ _ h => h
  | avail =>
    simp only [callTrace, Traced.checked_bind, availAt_checked, Traced.checked_pure, ringCall,
      ringAvail, Option.bind_eq_bind, Option.pure_def, Ring.indices]
    cases availAt R.cap R.w R.r with
    | none => exact .none
    | some av => exact .some ⟨rfl, rfl, rfl⟩
  | space =>
    simp only [callTrace, Traced.checked_bind, availAt_checked, spaceAt_checked,
      Traced.checked_pure, ringCall, ringSpace, ringAvail, Option.bind_eq_bind, Option.bind_assoc,
      Option.pure_def, Ring.indices]
    cases availAt R.cap R.w R.r with
    | none => exact .none
    | some av =>
      rw [Option.bind_some, Option.bind_some]
      cases spaceAt R.cap av with
      | none => exact .none
      | some sp => exact .some ⟨rfl, rfl, rfl⟩

/-- So is every sequence of calls. -/
theorem runCalls_rel (R : Ring α) (calls : List (RingCall α)) :
    Option.Rel (fun p s => p.1.indices = s ∧ p.1.arraySize = R.arraySize)
      (runCalls ringCall R calls) ((runTrace R.indices calls).checked R.arraySize) := by
  induction calls generalizing R with
  | nil => exact .some ⟨rfl, rfl⟩
  | cons call calls ih =>
    rw [runTrace, Traced.checked_bind, runCalls, Option.bind_eq_bind]
    refine rel_bind (ringCall_rel R call) ?_
    rintro ⟨R', reply⟩ ⟨s', k⟩ ⟨hindices, _, hsize⟩
    have hrest := ih R'
    rw [hsize, hindices] at hrest
    exact rel_bind_some hrest fun _ _ h => h

/-! ## Every event is in range -/

/-- Indices into a ring of `cap` slots, whose element indices fit in an `int`. -/
structure IndicesOk (s : Indices) : Prop where
  small : s.cap * 6 ≤ 2 ^ 31 - 1
  windex : Index s.cap s.w
  rindex : Index s.cap s.r

/-- An event of a ring of `cap` slots in range: each signed expression lies between 0 and
    `2^31 - 1` (`w - r`, to which `R->cap` is still to be added, between `-cap` and `cap`),
    no remainder is by zero, and the elements accessed have indices below `6 * cap`, in the
    ring as in the caller's array. -/
def InRange (cap : ℤ) : Event RingExpr RingArray → Prop
  | .value .diff x => -cap < x ∧ x < cap
  | .value _ x => 0 ≤ x ∧ x ≤ 2 ^ 31 - 1
  | .rem a b => 0 ≤ a ∧ a ≤ 2 ^ 31 - 1 ∧ 0 < b
  | .access _ off len => 0 ≤ off ∧ off + len ≤ cap * 6

section Range

variable {cap w r k i n : ℤ}

theorem availTrace_meets (hs : cap * 6 ≤ 2 ^ 31 - 1) (hw : Index cap w) (hr : Index cap r) :
    (availTrace cap w r).Meets (InRange cap) fun av => av = occ cap w r := by
  unfold Index at hw hr
  refine (Traced.Meets.value ⟨by omega, by omega⟩).bind ?_
  intro d h
  subst h
  refine (Traced.Meets.value ⟨by omega, by omega⟩).bind ?_
  intro d h
  subst h
  refine (Traced.Meets.rem ⟨by omega, by omega, by omega⟩).mono ?_
  intro av h
  subst h
  exact Int.tmod_eq_emod_of_nonneg (by omega)

theorem spaceTrace_meets (hs : cap * 6 ≤ 2 ^ 31 - 1) (h0 : 0 ≤ n) (h1 : n < cap) :
    (spaceTrace cap n).Meets (InRange cap) fun sp => sp = cap - 1 - n := by
  refine (Traced.Meets.value ⟨by omega, by omega⟩).bind ?_
  intro m h
  subst h
  exact .value ⟨by omega, by omega⟩

theorem slotTrace_meets (hs : cap * 6 ≤ 2 ^ 31 - 1) (hk : Index cap k) (hi : Index cap i) :
    (slotTrace cap k i).Meets (InRange cap) fun slot => slot = (k + i) % cap * 6 := by
  have hm := index_emod (c := cap) (by unfold Index at hk; omega) (k + i)
  unfold Index at hk hi hm
  have hemod : (k + i).tmod cap = (k + i) % cap := Int.tmod_eq_emod_of_nonneg (by omega)
  refine (Traced.Meets.value ⟨by omega, by omega⟩).bind ?_
  intro s h
  subst h
  refine (Traced.Meets.rem ⟨by omega, by omega, by omega⟩).bind ?_
  intro s h
  subst h
  rw [hemod]
  exact .value ⟨by simp only [djmt1Ch]; omega, by simp only [djmt1Ch]; omega⟩

theorem advanceTrace_meets (hs : cap * 6 ≤ 2 ^ 31 - 1) (hk : Index cap k) (hn : Index cap n) :
    (advanceTrace cap k n).Meets (InRange cap) fun k' => Index cap k' := by
  have hm := index_emod (c := cap) (by unfold Index at hk; omega) (k + n)
  have hemod : (k + n).tmod cap = (k + n) % cap :=
    Int.tmod_eq_emod_of_nonneg (by unfold Index at hk hn; omega)
  unfold Index at hk hn
  refine (Traced.Meets.value ⟨by omega, by omega⟩).bind ?_
  intro s h
  subst h
  refine (Traced.Meets.rem ⟨by omega, by omega, by omega⟩).mono ?_
  intro k' h
  subst h
  rwa [hemod]

theorem copyTrace_meets (hs : cap * 6 ≤ 2 ^ 31 - 1) (hk : Index cap k) (hi : Index cap i)
    (size : ℕ) : (copyTrace cap k size i).Meets (InRange cap) fun _ => True := by
  have hm := index_emod (c := cap) (by unfold Index at hk; omega) (k + i)
  unfold Index at hm
  refine (slotTrace_meets hs hk hi).bind ?_
  intro slot h
  subst h
  refine (Traced.Meets.access ⟨by omega, by simp only [djmt1Ch]; omega⟩).bind fun _ _ => ?_
  unfold Index at hi
  exact .access ⟨by simp only [djmt1Ch]; omega, by simp only [djmt1Ch]; omega⟩

/-- The copies of a call that is left with `n < cap` frames. -/
theorem copies_meets (hs : cap * 6 ≤ 2 ^ 31 - 1) (hk : Index cap k) (hn : n < cap) (size : ℕ) :
    (forM (List.range n.toNat) fun (i : ℕ) => copyTrace cap k size i).Meets (InRange cap)
      fun _ => True := by
  apply Traced.Meets.forM
  intro i hi
  rw [List.mem_range] at hi
  exact copyTrace_meets hs hk ⟨by omega, by omega⟩ size

end Range

section Calls

variable {s : Indices}

theorem IndicesOk.cap_pos (h : IndicesOk s) : 0 < s.cap := by
  have := h.windex; unfold Index at this; omega

/-- What a call does to indices that are in range. -/
def StaysOk (s s' : Indices) : Prop := IndicesOk s' ∧ s'.cap = s.cap

/-- `ring_write` of any number of frames: the clamp leaves fewer than `cap`. -/
theorem writeTrace_meets (h : IndicesOk s) (size : ℕ) {n : ℤ} (hn : 0 ≤ n) :
    (writeTrace s size n).Meets (InRange s.cap) fun q => StaysOk s q.1 := by
  have h0 := occ_nonneg (w := s.w) (r := s.r) h.cap_pos
  have h1 := occ_lt (w := s.w) (r := s.r) h.cap_pos
  refine (availTrace_meets h.small h.windex h.rindex).bind fun av hav => ?_
  rw [← hav] at h0 h1
  refine (spaceTrace_meets h.small h0 h1).bind fun sp hsp => ?_
  obtain ⟨k, hk⟩ : ∃ k, k = if n > sp then sp else n := ⟨_, rfl⟩
  have hclamp : Index s.cap k := by
    unfold Index
    split_ifs at hk <;> omega
  simp only [← hk]
  refine (copies_meets h.small h.windex hclamp.2 size).bind fun _ _ => ?_
  refine (advanceTrace_meets h.small h.windex hclamp).bind fun w' hw' => ?_
  exact .pure ⟨⟨h.small, hw', h.rindex⟩, rfl⟩

/-- A ring of two frames that wraps: however many frames are asked for, two are copied. -/
example : (writeTrace ⟨3, 2, 2⟩ 12 (2 ^ 31 - 1)).events =
    [.value .diff 0, .value .lap 3, .rem 3 3, .value .spare 2, .value .space 2,
      .value .index 2, .rem 2 3, .value .offset 12, .access .buf 12 6, .access (.caller 12) 0 6,
      .value .index 3, .rem 3 3, .value .offset 0, .access .buf 0 6, .access (.caller 12) 6 6,
      .value .next 4, .rem 4 3] := by decide

/-- `ring_read` of any number of frames. -/
theorem readTrace_meets (h : IndicesOk s) (size : ℕ) {n : ℤ} (hn : 0 ≤ n) :
    (readTrace s size n).Meets (InRange s.cap) fun q => StaysOk s q.1 := by
  have h0 := occ_nonneg (w := s.w) (r := s.r) h.cap_pos
  have h1 := occ_lt (w := s.w) (r := s.r) h.cap_pos
  refine (availTrace_meets h.small h.windex h.rindex).bind fun av hav => ?_
  obtain ⟨k, hk⟩ : ∃ k, k = if n > av then av else n := ⟨_, rfl⟩
  have hclamp : Index s.cap k := by
    unfold Index
    split_ifs at hk <;> omega
  simp only [← hk]
  refine (copies_meets h.small h.rindex hclamp.2 size).bind fun _ _ => ?_
  refine (advanceTrace_meets h.small h.rindex hclamp).bind fun r' hr' => ?_
  exact .pure ⟨⟨h.small, h.windex, hr'⟩, rfl⟩

/-- The caller asks for a non-negative `int` of frames. -/
def RingCall.CountOk : RingCall α → Prop
  | .write _ n | .read _ n => 0 ≤ n ∧ n ≤ 2 ^ 31 - 1
  | .avail | .space => True

instance : (call : RingCall α) → Decidable call.CountOk
  | .write _ n | .read _ n => inferInstanceAs (Decidable (0 ≤ n ∧ n ≤ 2 ^ 31 - 1))
  | .avail | .space => inferInstanceAs (Decidable True)

theorem callTrace_meets (h : IndicesOk s) {call : RingCall α} (hcall : call.CountOk) :
    (callTrace s call).Meets (InRange s.cap) fun q => StaysOk s q.1 := by
  cases call with
  | write src n => exact writeTrace_meets h src.size hcall.1
  | read dst n => exact readTrace_meets h dst.size hcall.1
  | avail =>
    refine (availTrace_meets h.small h.windex h.rindex).bind fun av _ => ?_
    exact .pure ⟨h, rfl⟩
  | space =>
    have h0 := occ_nonneg (w := s.w) (r := s.r) h.cap_pos
    have h1 := occ_lt (w := s.w) (r := s.r) h.cap_pos
    refine (availTrace_meets h.small h.windex h.rindex).bind fun av hav => ?_
    rw [← hav] at h0 h1
    refine (spaceTrace_meets h.small h0 h1).bind fun sp _ => ?_
    exact .pure ⟨h, rfl⟩

theorem runTrace_meets (h : IndicesOk s) {calls : List (RingCall α)}
    (hcalls : ∀ call ∈ calls, call.CountOk) :
    (runTrace s calls).Meets (InRange s.cap) (StaysOk s) := by
  induction calls generalizing s with
  | nil => exact .pure ⟨h, rfl⟩
  | cons call calls ih =>
    obtain ⟨hcall, hcalls⟩ := List.forall_mem_cons.mp hcalls
    refine (callTrace_meets h hcall).bind fun q hq => ?_
    have hrest := ih hq.1 hcalls
    rw [hq.2] at hrest
    exact hrest.mono fun s' hs' => ⟨hs'.1, hs'.2.trans hq.2⟩

/-- Of an event in range C can object only to an access outside the caller's array. -/
theorem InRange.defined_iff {size : RingArray → ℕ} {cap : ℤ} {e : Event RingExpr RingArray}
    (hs : cap * 6 ≤ 2 ^ 31 - 1) (hbuf : (size .buf : ℤ) = cap * 6)
    (hcaller : ∀ m, size (.caller m) = m) (h : InRange cap e) :
    e.Defined size ↔ ∀ m off len, e = .access (.caller m) off len → off + len ≤ m := by
  cases e with
  | value expr x =>
    refine iff_of_true ?_ (by simp)
    cases expr <;> exact ⟨by have := h.1; omega, by have := h.2; omega⟩
  | rem a b =>
    refine iff_of_true ?_ (by simp)
    obtain ⟨ha, ha', hb⟩ := h
    have h0 : 0 ≤ a.tdiv b := Int.tdiv_nonneg ha hb.le
    have h1 : a.tdiv b ≤ a := Int.tdiv_le_self b ha
    exact ⟨hb.ne', by omega, by omega⟩
  | access array off len =>
    obtain ⟨h0, h1⟩ := h
    cases array with
    | buf => exact iff_of_true ⟨h0, by omega⟩ (by simp)
    | caller m =>
      constructor
      · intro hdef m' off' len' he
        obtain ⟨hm, rfl, rfl⟩ := Event.access.inj he
        obtain rfl := RingArray.caller.inj hm
        rw [← hcaller m]
        exact hdef.2
      · intro hfits
        exact ⟨h0, by rw [hcaller m]; exact hfits m off len rfl⟩

end Calls

/-! ## From `ring_init` on -/

/-- `ring_init` starts with both indices at 0, whether or not it gets the memory. -/
theorem ringInit_indices (zero : α) (calloc : Bool) {frames : ℤ} (h0 : 0 ≤ frames)
    (hs : (frames + 1) * 6 ≤ 2 ^ 31 - 1) :
    ∃ R₀ code, ringInit zero calloc frames = some (R₀, code) ∧
      R₀.indices = ⟨frames + 1, 0, 0⟩ ∧
      (calloc = true → (R₀.arraySize .buf : ℤ) = (frames + 1) * 6) := by
  have hcap : int32 (frames + 1) = some (frames + 1) := int32_eq (by omega) (by omega)
  cases calloc with
  | false =>
    refine ⟨⟨none, frames + 1, 0, 0⟩, -1, ?_, rfl, nofun⟩
    simp [ringInit, hcap]
  | true =>
    obtain ⟨R₀, hinit, hempty⟩ := ringInit_empty zero h0 (by omega)
    obtain ⟨b, hb, hsize⟩ := hempty.buf
    refine ⟨R₀, 0, hinit, ?_, fun _ => ?_⟩
    · simp only [ringInit, hcap, Option.bind_eq_bind, Option.bind_some, Option.pure_def,
        Option.some.injEq, Prod.mk.injEq] at hinit
      rw [← hinit.1]
      rfl
    · rw [arraySize_some hb, hsize]
      rfl

/-- **The arithmetic of the ring stays in range.** For every ring of at least 0 frames whose
    element indices fit in an `int`, and every sequence of calls from `ring_init` on, each for
    any non-negative `int` of frames: every intermediate value, remainder and array access is
    in range, and after every call `w` and `r` are indices of the ring. What is traced is what
    the calls on the ring do, and only a caller's array that does not hold the frames copied
    makes them undefined. -/
theorem ring_arithmetic (zero : α) (calloc : Bool) {frames : ℤ} (h0 : 0 ≤ frames)
    (hs : (frames + 1) * 6 ≤ 2 ^ 31 - 1) (calls : List (RingCall α))
    (hcalls : ∀ call ∈ calls, call.CountOk) :
    ∃ R₀ code, ringInit zero calloc frames = some (R₀, code) ∧
      (∀ e ∈ (runTrace R₀.indices calls).events, InRange (frames + 1) e) ∧
      (∀ done, done <+: calls → Index (frames + 1) (runTrace R₀.indices done).result.w ∧
        Index (frames + 1) (runTrace R₀.indices done).result.r) ∧
      (∀ done R replies, done <+: calls → runCalls ringCall R₀ done = some (R, replies) →
        R.indices = (runTrace R₀.indices done).result) ∧
      (calloc = true → ((runCalls ringCall R₀ calls).isSome ↔ ∀ (m : ℕ) (off : ℤ) (len : ℕ),
        .access (.caller m) off len ∈ (runTrace R₀.indices calls).events → off + len ≤ m)) := by
  obtain ⟨R₀, code, hinit, hindices, hsize⟩ := ringInit_indices zero calloc h0 hs
  have hok : IndicesOk R₀.indices := by
    rw [hindices]
    exact ⟨hs, ⟨le_rfl, show (0 : ℤ) < frames + 1 by omega⟩,
      ⟨le_rfl, show (0 : ℤ) < frames + 1 by omega⟩⟩
  have hcap : R₀.indices.cap = frames + 1 := congrArg Indices.cap hindices
  have hmeets := fun done (h : done <+: calls) =>
    runTrace_meets hok fun call hcall => hcalls call (h.subset hcall)
  rw [hcap] at hmeets
  refine ⟨R₀, code, hinit, (hmeets calls List.prefix_rfl).1, ?_, ?_, ?_⟩
  · intro done hdone
    obtain ⟨hend, hcap'⟩ := (hmeets done hdone).2
    have hw := hend.windex
    have hr := hend.rindex
    rw [hcap', hcap] at hw hr
    exact ⟨hw, hr⟩
  · intro done R replies _ hrun
    have hrel := runCalls_rel R₀ done
    rw [hrun] at hrel
    obtain ⟨s, hs, hR, _⟩ := rel_some hrel
    rw [hR, (Traced.checked_eq_some.mp hs).2]
  · intro hcalloc
    rw [rel_isSome (runCalls_rel R₀ calls), Traced.isSome_checked]
    have hdefined := fun e he =>
      ((hmeets calls List.prefix_rfl).1 e he).defined_iff hs (hsize hcalloc) fun _ => rfl
    constructor
    · intro hall m off len he
      exact (hdefined _ he).mp (hall _ he) m off len rfl
    · intro hfits e he
      refine (hdefined e he).mpr fun m off len heq => ?_
      rw [heq] at he
      exact hfits m off len he

/-- Calls for as many frames as an `int` can say. -/
def intMaxCalls : List (RingCall ℕ) :=
  [.write (Region.fill (6 * (2 ^ 31 - 1)) 7) (2 ^ 31 - 1), .space,
    .read (Region.fill (6 * (2 ^ 31 - 1)) 0) (2 ^ 31 - 1), .avail]

/-- The largest ring whose element indices fit in an `int`. -/
theorem ring_arithmetic_intMaxCalls :
    ∃ R₀ code, ringInit 0 true 357913940 = some (R₀, code) ∧
      (∀ e ∈ (runTrace R₀.indices intMaxCalls).events, InRange 357913941 e) ∧
      (∀ done, done <+: intMaxCalls → Index 357913941 (runTrace R₀.indices done).result.w ∧
        Index 357913941 (runTrace R₀.indices done).result.r) ∧
      (∀ done R replies, done <+: intMaxCalls →
        runCalls ringCall R₀ done = some (R, replies) →
        R.indices = (runTrace R₀.indices done).result) ∧
      ((runCalls ringCall R₀ intMaxCalls).isSome ↔ ∀ (m : ℕ) (off : ℤ) (len : ℕ),
        .access (.caller m) off len ∈ (runTrace R₀.indices intMaxCalls).events →
        off + len ≤ m) := by
  obtain ⟨R₀, code, hinit, hevents, hindices, hrun, hdefined⟩ :=
    ring_arithmetic 0 true (by norm_num : (0 : ℤ) ≤ 357913940) (by norm_num) intMaxCalls
      (by decide)
  exact ⟨R₀, code, hinit, hevents, hindices, hrun, hdefined rfl⟩

end DjmT1.Audio
