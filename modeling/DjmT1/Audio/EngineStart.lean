import DjmT1.Audio.Inflight
import DjmT1.Audio.RingInv

/-!
# Starting the engine

`djmt1_iso_start` (audio/djmt1_iso.c:122-151) acquires one resource after another. Up to
the alternate setting every result is tested, and a failure gives back what was acquired
before; from the rings on no result is looked at.

`djmt1IsoStart` is given the outcome of every call (`StartOutcome`) and keeps what is
acquired and not given back. Closing a device handle ends the claims made through it.

* `start_without_thread`: an engine that is returned without its event thread.
* `start_all_or_nothing`: the engine is usable, or nothing is kept, exactly if a tested
  step fails or none of the others does, for a ring size that is not negative.
-/

namespace DjmT1.Audio

open DjmT1.Lib

/-- What `djmt1_iso_start` acquires. -/
inductive Resource
  | engine | context | handle | interface | capBuf | playBuf
  | transfer (x : Xfer)
  | buffer (x : Xfer)
  | thread
  deriving DecidableEq

/-- Which calls succeed. -/
structure StartOutcome where
  /-- `calloc(1, sizeof(*e))` -/
  calloc : Bool
  /-- `libusb_init` -/
  init : Bool
  /-- `libusb_open_device_with_vid_pid` -/
  opened : Bool
  /-- `libusb_claim_interface` -/
  claim : Bool
  /-- `libusb_set_interface_alt_setting` -/
  alt : Bool
  /-- the `calloc` of `ring_init(&e->cap_ring, ..)` -/
  capCalloc : Bool
  /-- the `calloc` of `ring_init(&e->play_ring, ..)` -/
  playCalloc : Bool
  /-- `libusb_alloc_transfer` -/
  alloc : Xfer → Bool
  /-- the `malloc` or `calloc` of a transfer's buffer -/
  buffer : Xfer → Bool
  /-- `libusb_submit_transfer` -/
  submit : Xfer → Bool
  /-- `pthread_create` -/
  create : Bool

/-- A transfer of the engine: whether its buffer is allocated, and whether it is in
    flight. -/
structure StartTransfer where
  buffer : Bool
  inFlight : Bool

/-- The fields of `djmt1_iso` that `djmt1_iso_start` sets from line 133 on. A transfer
    that is `none` is a null pointer. -/
structure Started where
  capRing : Ring ℚ
  playRing : Ring ℚ
  xfer : Xfer → Option StartTransfer
  inflight : ℤ
  thread : Bool

/-- `libusb_close`. -/
def closeHandle (live : Finset Resource) : Finset Resource := (live.erase .handle).erase .interface

/-- Acquiring `r`, if the call succeeds. -/
def acquire (ok : Bool) (r : Resource) (live : Finset Resource) : Finset Resource :=
  if ok then insert r live else live

/-- The body of the loop of lines 136-148 for one transfer. A transfer that is not
    allocated is written to by `libusb_fill_iso_transfer`, through a null pointer. -/
def startTransfer (o : StartOutcome) (s : Started × Finset Resource) (x : Xfer) :
    Option (Started × Finset Resource) :=
  if o.alloc x then
    some ({ s.1 with
      xfer := Function.update s.1.xfer x (some ⟨o.buffer x, o.submit x⟩),
      inflight := if o.submit x then s.1.inflight + 1 else s.1.inflight },
      acquire (o.buffer x) (.buffer x) (insert (.transfer x) s.2))
  else none

/-- `djmt1_iso_start` from line 133 on. -/
def startStreaming (o : StartOutcome) (ringFrames : ℤ) (live : Finset Resource) :
    Option (Started × Finset Resource) := do
  let (capRing, _) ← ringInit 0 o.capCalloc ringFrames
  let live := acquire o.capCalloc .capBuf live
  let (playRing, _) ← ringInit 0 o.playCalloc ringFrames
  let live := acquire o.playCalloc .playBuf live
  let (e, live) ← xfers.foldlM (startTransfer o)
    (⟨capRing, playRing, fun _ => none, 0, false⟩, live)
  return ({ e with thread := o.create }, acquire o.create .thread live)

/-- `djmt1_iso_start` (lines 122-151): the engine returned, `none` for a null pointer, and
    what is not given back. -/
def djmt1IsoStart (o : StartOutcome) (ringFrames : ℤ) :
    Option (Option Started × Finset Resource) :=
  if !o.calloc then some (none, ∅)
  else
    let live : Finset Resource := {.engine}
    if !o.init then some (none, live.erase .engine)
    else
      let live := insert .context live
      if !o.opened then some (none, (live.erase .context).erase .engine)
      else
        let live := acquire o.claim .interface (insert .handle live)
        if !o.claim || !o.alt then
          some (none, ((closeHandle live).erase .context).erase .engine)
        else (startStreaming o ringFrames live).map fun s => (some s.1, s.2)

/-- An engine that the other functions can work with: no division by zero, no null
    pointer and a thread to join. -/
structure Usable (e : Started) : Prop where
  capBuf : e.capRing.buf.isSome
  capCap : 1 ≤ e.capRing.cap
  playBuf : e.playRing.buf.isSome
  playCap : 1 ≤ e.playRing.cap
  xfer : ∀ x, ∃ t, e.xfer x = some t ∧ (t.inFlight = true → t.buffer = true)
  thread : e.thread = true

/-- The start is defined, and gives a usable engine or keeps nothing. -/
def AllOrNothing (o : StartOutcome) (ringFrames : ℤ) : Prop :=
  match djmt1IsoStart o ringFrames with
  | none => False
  | some (none, live) => live = ∅
  | some (some e, _) => Usable e

/-- The results that are tested. -/
def StartOutcome.tested (o : StartOutcome) : Bool :=
  o.calloc && o.init && o.opened && o.claim && o.alt

/-- The results that are not looked at. -/
structure StartOutcome.Untested (o : StartOutcome) : Prop where
  capCalloc : o.capCalloc = true
  playCalloc : o.playCalloc = true
  alloc : ∀ x, o.alloc x = true
  buffer : ∀ x, o.submit x = true → o.buffer x = true
  create : o.create = true

/-! ## The transfers -/

/-- The loop over the transfers ends if all of them are allocated. -/
theorem startTransfers_some {o : StartOutcome} {l : List Xfer} (h : ∀ x ∈ l, o.alloc x = true)
    (s : Started × Finset Resource) : ∃ s', l.foldlM (startTransfer o) s = some s' ∧
      s'.1.capRing = s.1.capRing ∧ s'.1.playRing = s.1.playRing ∧
      ∀ x, s'.1.xfer x = if x ∈ l then some ⟨o.buffer x, o.submit x⟩ else s.1.xfer x := by
  induction l generalizing s with
  | nil => exact ⟨s, rfl, rfl, rfl, fun x => rfl⟩
  | cons y l ih =>
    obtain ⟨s', hs', hcap, hplay, hxfer⟩ := ih (fun x hx => h x (List.mem_cons_of_mem y hx))
      ({ s.1 with
        xfer := Function.update s.1.xfer y (some ⟨o.buffer y, o.submit y⟩),
        inflight := if o.submit y then s.1.inflight + 1 else s.1.inflight },
        acquire (o.buffer y) (.buffer y) (insert (.transfer y) s.2))
    refine ⟨s', ?_, hcap, hplay, fun x => ?_⟩
    · rw [List.foldlM_cons, startTransfer, if_pos (h y List.mem_cons_self)]
      exact hs'
    · rw [hxfer x]
      by_cases hxy : x = y
      · subst hxy
        simp
      · simp [hxy]

/-- It does not get past a transfer that is not allocated. -/
theorem startTransfers_none {o : StartOutcome} {l : List Xfer} {x : Xfer} (hx : x ∈ l)
    (h : o.alloc x = false) (s : Started × Finset Resource) :
    l.foldlM (startTransfer o) s = none := by
  induction l generalizing s with
  | nil => exact absurd hx List.not_mem_nil
  | cons y l ih =>
    rw [List.foldlM_cons, startTransfer]
    rcases List.mem_cons.mp hx with rfl | hxl
    · rw [if_neg (by rw [h]; exact Bool.false_ne_true)]
      rfl
    · by_cases hy : o.alloc y = true
      · rw [if_pos hy]
        exact ih hxl _
      · rw [if_neg hy]
        rfl

/-! ## The rings -/

/-- `ring_init` leaves a ring of `frames + 1` slots, with a buffer if there is memory. -/
theorem ringInit_eq_some {ok : Bool} {n k : ℤ} {R : Ring ℚ} (h : ringInit 0 ok n = some (R, k)) :
    R.buf.isSome = ok ∧ R.cap = n + 1 ∧ n + 1 < 2 ^ 31 := by
  simp only [ringInit, int32, Option.bind_eq_bind] at h
  obtain ⟨cap, hcap, h⟩ := Option.bind_eq_some_iff.mp h
  split_ifs at hcap with hrange
  obtain rfl := Option.some.inj hcap
  obtain ⟨rfl, _⟩ := Prod.mk.inj (Option.some.inj h)
  cases ok <;> exact ⟨rfl, rfl, hrange.2⟩

/-- What `djmt1_iso_start` returns once the interface is set, in terms of its rings. -/
theorem startStreaming_some {o : StartOutcome} {n : ℤ} {live live' : Finset Resource} {e : Started}
    (h : startStreaming o n live = some (e, live')) :
    (∀ x, o.alloc x = true) ∧ e.capRing.buf.isSome = o.capCalloc ∧ e.capRing.cap = n + 1 ∧
      e.playRing.buf.isSome = o.playCalloc ∧ e.playRing.cap = n + 1 ∧ n + 1 < 2 ^ 31 ∧
      (∀ x, e.xfer x = some ⟨o.buffer x, o.submit x⟩) ∧ e.thread = o.create := by
  simp only [startStreaming, Option.bind_eq_bind, Option.pure_def] at h
  obtain ⟨⟨capRing, _⟩, hcap, h⟩ := Option.bind_eq_some_iff.mp h
  obtain ⟨⟨playRing, _⟩, hplay, h⟩ := Option.bind_eq_some_iff.mp h
  obtain ⟨⟨e', _⟩, hloop, h⟩ := Option.bind_eq_some_iff.mp h
  obtain ⟨rfl, _⟩ := Prod.mk.inj (Option.some.inj h)
  have halloc : ∀ x, o.alloc x = true := by
    intro x
    by_contra hx
    rw [startTransfers_none (mem_xfers x) (Bool.eq_false_iff.mpr hx)] at hloop
    cases hloop
  obtain ⟨s', hs', hcap', hplay', hxfer⟩ := startTransfers_some (fun x _ => halloc x) _
  obtain rfl := Option.some.inj (hs'.symm.trans hloop)
  obtain ⟨hcb, hcc, hlt⟩ := ringInit_eq_some hcap
  obtain ⟨hpb, hpc, _⟩ := ringInit_eq_some hplay
  simp only at hcap' hplay'
  refine ⟨halloc, hcap' ▸ hcb, hcap' ▸ hcc, hplay' ▸ hpb, hplay' ▸ hpc, hlt, fun x => ?_, rfl⟩
  exact (hxfer x).trans (if_pos (mem_xfers x))

/-- With memory for the transfers it returns an engine. -/
theorem startStreaming_defined {o : StartOutcome} {n : ℤ} (h0 : 0 ≤ n) (h1 : n < 2 ^ 31 - 1)
    (halloc : ∀ x, o.alloc x = true) (live : Finset Resource) :
    ∃ e live', startStreaming o n live = some (e, live') := by
  have hring : ∀ ok, ∃ R k, ringInit (0 : ℚ) ok n = some (R, k) := by
    intro ok
    simp only [ringInit, Option.bind_eq_bind]
    rw [int32_eq (by omega) (by omega)]
    exact ⟨_, _, rfl⟩
  obtain ⟨capRing, _, hcap⟩ := hring o.capCalloc
  obtain ⟨playRing, _, hplay⟩ := hring o.playCalloc
  obtain ⟨s', hs', _⟩ := startTransfers_some (fun x (_ : x ∈ xfers) => halloc x)
    (⟨capRing, playRing, fun _ => none, 0, false⟩,
      acquire o.playCalloc .playBuf (acquire o.capCalloc .capBuf live))
  refine ⟨{ s'.1 with thread := o.create }, acquire o.create .thread s'.2, ?_⟩
  simp only [startStreaming, hcap, hplay, hs', Option.bind_eq_bind, Option.bind_some,
    Option.pure_def]

/-! ## The whole function -/

/-- A step that is tested and fails: nothing is kept. -/
theorem djmt1IsoStart_failed {o : StartOutcome} (h : o.tested = false) (n : ℤ) :
    djmt1IsoStart o n = some (none, ∅) := by
  obtain ⟨calloc, init, opened, claim, alt, _, _, _, _, _, _⟩ := o
  cases calloc
  · rfl
  cases init
  · rfl
  cases opened
  · rfl
  cases claim
  · rfl
  cases alt
  · rfl
  cases h

/-- Past the steps that are tested. -/
theorem djmt1IsoStart_tested {o : StartOutcome} (h : o.tested = true) (n : ℤ) :
    ∃ live, djmt1IsoStart o n = (startStreaming o n live).map fun s => (some s.1, s.2) := by
  simp only [StartOutcome.tested, Bool.and_eq_true] at h
  obtain ⟨⟨⟨⟨hcalloc, hinit⟩, hopened⟩, hclaim⟩, halt⟩ := h
  simp only [djmt1IsoStart, hcalloc, hinit, hopened, hclaim, halt, Bool.not_true, Bool.or_self,
    Bool.false_eq_true, if_false]
  exact ⟨_, rfl⟩

/-- Everything succeeds but `pthread_create`. -/
def noThread : StartOutcome :=
  ⟨true, true, true, true, true, true, true, fun _ => true, fun _ => true, fun _ => true, false⟩

/-- An engine without its thread is returned like any other. -/
theorem start_without_thread :
    (∃ e live, djmt1IsoStart noThread 9600 = some (some e, live) ∧ e.thread = false) ∧
    ¬ AllOrNothing noThread 9600 := by
  obtain ⟨live, hstart⟩ := djmt1IsoStart_tested (o := noThread) rfl 9600
  obtain ⟨e, live', hrun⟩ := startStreaming_defined (o := noThread) (show (0 : ℤ) ≤ 9600 by decide)
    (by decide) (fun _ => rfl) live
  obtain ⟨_, _, _, _, _, _, _, hthread⟩ := startStreaming_some hrun
  rw [hrun] at hstart
  refine ⟨⟨e, live', hstart, hthread⟩, fun h => ?_⟩
  rw [AllOrNothing, hstart] at h
  exact absurd (hthread.symm.trans h.thread) (by decide)

/-- **All or nothing.** The start is defined and gives a usable engine or keeps nothing,
    exactly if a tested step fails, or the size of the rings is an `int` from 0 on whose
    successor is one too, and none of the steps fails whose results are not looked at. -/
theorem start_all_or_nothing (o : StartOutcome) (n : ℤ) :
    AllOrNothing o n ↔ o.tested = false ∨ (0 ≤ n ∧ n < 2 ^ 31 - 1 ∧ o.Untested) := by
  by_cases htested : o.tested = true
  · obtain ⟨live, hstart⟩ := djmt1IsoStart_tested htested n
    rw [AllOrNothing, hstart]
    constructor
    · intro h
      cases hrun : startStreaming o n live with
      | none => rw [hrun] at h; exact h.elim
      | some s =>
        rw [hrun] at h
        obtain ⟨halloc, hcb, hcc, hpb, hpc, hlt, hxfer, hthread⟩ := startStreaming_some hrun
        have hcap := h.capCap
        refine .inr ⟨by omega, by omega, hcb ▸ h.capBuf, hpb ▸ h.playBuf, halloc, fun x hx => ?_,
          hthread ▸ h.thread⟩
        obtain ⟨t, ht, hbuffer⟩ := h.xfer x
        obtain rfl := Option.some.inj ((hxfer x).symm.trans ht)
        exact hbuffer hx
    · rintro (hfailed | ⟨h0, h1, hun⟩)
      · exact absurd htested (Bool.eq_false_iff.mp hfailed)
      · obtain ⟨e, live', hrun⟩ := startStreaming_defined h0 h1 hun.alloc live
        obtain ⟨_, hcb, hcc, hpb, hpc, _, hxfer, hthread⟩ := startStreaming_some hrun
        rw [hrun]
        exact ⟨hcb.trans hun.capCalloc, show 1 ≤ e.capRing.cap by omega,
          hpb.trans hun.playCalloc, show 1 ≤ e.playRing.cap by omega,
          fun x => ⟨_, hxfer x, hun.buffer x⟩, hthread.trans hun.create⟩
  · have hfailed : o.tested = false := Bool.eq_false_iff.mpr htested
    rw [AllOrNothing, djmt1IsoStart_failed hfailed n]
    exact iff_of_true rfl (.inl hfailed)

end DjmT1.Audio
