import DjmT1.Kernel.Stream

/-!
# Binding to the device

`djmt1_probe` (kernel/djmt1_audio.c:262-326) allocates an ALSA card, which contains the
`struct djmt1`, and for each stream `NURB` URBs with a buffer each. Whatever fails, the
labels `fail_urbs` and `fail` give back what has been allocated so far, through the
function `djmt1_free_urbs` that `djmt1_disconnect` also uses.

`djmt1Probe` is given the outcome of every call (`ProbeOutcome`) and keeps the objects
that are allocated. Freeing an object that is not, or reading the `struct djmt1` when the
card is not, is undefined.

* `djmt1FreeUrbs_spec`: the URBs of a stream are freed, however few of them there are.
* `probe_all_or_nothing`: a probe is defined; it returns the error of the first call that
  fails and has freed everything, or returns 0 with every URB of both streams set up.
-/

namespace DjmT1.Kernel

open DjmT1.Lib

/-- A URB of the chip: `s->urb[u]` of one of its streams. -/
abbrev Slot := Dir × Fin nurb

/-- What the driver allocates. -/
inductive Obj
  /-- the card, with the `struct djmt1` in it -/
  | card
  | urb (x : Slot)
  /-- the `transfer_buffer` of a URB -/
  | buffer (x : Slot)
  deriving DecidableEq

/-- `usb_rcvisocpipe` and `usb_sndisocpipe` of an endpoint number. -/
inductive Pipe
  | rcv (ep : ℕ)
  | snd (ep : ℕ)
  deriving DecidableEq

/-- The fields of a `struct urb` that `djmt1_alloc_urbs` sets and that differ from URB to
    URB. A buffer that is `none` is a null pointer. -/
structure ChipUrb where
  pipe : Pipe
  /-- the stream whose handler is `urb->complete` and which is `urb->context` -/
  complete : Dir
  transferBuffer : Option (Region Byte)
  isoFrameDesc : ℕ → IsoDesc

/-- The `struct djmt1` and what is allocated. A URB that is `none` is a null pointer. -/
structure Chip where
  live : Finset Obj
  urb : Slot → Option ChipUrb
  /-- `usb_get_intfdata(intf)` is not null -/
  intfdata : Bool

/-- Which calls of a probe succeed, and the errors of those that return one. -/
structure ProbeOutcome where
  /-- `intf->cur_altsetting->desc.bInterfaceNumber` -/
  interfaceNumber : ℕ
  /-- `snd_card_new` -/
  cardNew : ℤ
  /-- `snd_pcm_new` -/
  pcmNew : ℤ
  /-- `usb_set_interface` -/
  setInterface : ℤ
  /-- `usb_alloc_urb` -/
  urb : Slot → Bool
  /-- `kzalloc(URB_BYTES)` -/
  buffer : Slot → Bool
  /-- `snd_card_register` -/
  register : ℤ

/-- `-ENOMEM`. -/
abbrev enomem : ℤ := -12

/-- `-ENODEV`. -/
abbrev enodev : ℤ := -19

/-- `IFACE` (line 33). -/
abbrev iface : ℕ := 0

/-- `EP_OUT` (line 35). -/
abbrev epOut : ℕ := 0x01

/-- `EP_IN` (line 36). -/
abbrev epIn : ℕ := 0x82

/-- `urb->pipe` for the endpoint `ep` (lines 161-163). -/
def isocPipe (ep : ℕ) : Pipe :=
  if ep &&& 0x80 ≠ 0 then .rcv (ep &&& 0x0f) else .snd (ep &&& 0x0f)

/-! ## Allocating and freeing -/

/-- A URB as `usb_alloc_urb` returns it, after lines 159-169. -/
def bareUrb (d : Dir) (ep : ℕ) : ChipUrb := ⟨isocPipe ep, d, none, fun _ => ⟨0, 0, 0, 0⟩⟩

/-- The same URB with its buffer and its packets laid out in it (lines 170-176). -/
def readyUrb (d : Dir) (ep : ℕ) : ChipUrb :=
  { bareUrb d ep with
    transferBuffer := some allocUrb.transferBuffer
    isoFrameDesc := allocUrb.isoFrameDesc }

/-- The loop of `djmt1_alloc_urbs` over the URBs `us`. -/
def allocUrbsFrom (o : ProbeOutcome) (d : Dir) (ep : ℕ) : List (Fin nurb) → Chip → Chip × ℤ
  | [], c => (c, 0)
  | u :: us, c =>
    if o.urb (d, u) then
      let c := { c with
        live := insert (.urb (d, u)) c.live
        urb := Function.update c.urb (d, u) (some (bareUrb d ep)) }
      if o.buffer (d, u) then
        allocUrbsFrom o d ep us { c with
          live := insert (.buffer (d, u)) c.live
          urb := Function.update c.urb (d, u) (some (readyUrb d ep)) }
      else (c, enomem)
    else (c, enomem)

/-- `djmt1_alloc_urbs` (lines 149-179). -/
def djmt1AllocUrbs (o : ProbeOutcome) (d : Dir) (ep : ℕ) (c : Chip) : Chip × ℤ :=
  allocUrbsFrom o d ep (List.finRange nurb) c

/-- Freeing an object. -/
def release (live : Finset Obj) (x : Obj) : Option (Finset Obj) :=
  if x ∈ live then some (live.erase x) else none

/-- `kfree` of a pointer to `x`, or of a null pointer. -/
def kfree (live : Finset Obj) (x : Obj) (isNull : Bool) : Option (Finset Obj) :=
  if isNull then some live else release live x

/-- The body of the loop of `djmt1_free_urbs`. -/
def freeUrb (d : Dir) (c : Chip) (u : Fin nurb) : Option Chip :=
  if .card ∈ c.live then
    match c.urb (d, u) with
    | none => some c
    | some x => do
      let live ← kfree c.live (.buffer (d, u)) x.transferBuffer.isNone
      let live ← release live (.urb (d, u))
      return { c with live, urb := Function.update c.urb (d, u) none }
  else none

/-- `djmt1_free_urbs` (lines 181-193) on URBs of which none is in flight. -/
def djmt1FreeUrbs (d : Dir) (c : Chip) : Option Chip :=
  (List.finRange nurb).foldlM (freeUrb d) c

/-- The label `fail`: `snd_card_free` and the error. -/
def probeFail (c : Chip) (err : ℤ) : Option (Chip × ℤ) := do
  let live ← release c.live .card
  return ({ c with live }, err)

/-- The label `fail_urbs`. -/
def probeFailUrbs (c : Chip) (err : ℤ) : Option (Chip × ℤ) := do
  let c ← djmt1FreeUrbs .capture c
  let c ← djmt1FreeUrbs .playback c
  probeFail c err

/-- The interface before a probe, and after one that fails. -/
def noChip : Chip := ⟨∅, fun _ => none, false⟩

/-- `djmt1_probe` (lines 262-326). -/
def djmt1Probe (o : ProbeOutcome) : Option (Chip × ℤ) :=
  if o.interfaceNumber ≠ iface then some (noChip, enodev)
  else if o.cardNew < 0 then some (noChip, o.cardNew)
  else
    let c : Chip := { noChip with live := {.card} }
    if o.pcmNew < 0 then probeFail c o.pcmNew
    else if o.setInterface < 0 then probeFail c o.setInterface
    else
      let (c, err) := djmt1AllocUrbs o .capture epIn c
      if err < 0 then probeFailUrbs c err
      else
        let (c, err) := djmt1AllocUrbs o .playback epOut c
        if err < 0 then probeFailUrbs c err
        else if o.register < 0 then probeFailUrbs c o.register
        else some ({ c with intfdata := true }, 0)

/-! ## What is allocated is what the chip points to -/

/-- The card is allocated, and beside it the URBs and buffers that are not null. -/
structure ChipOk (c : Chip) : Prop where
  card : .card ∈ c.live
  urb : ∀ x, .urb x ∈ c.live ↔ ∃ y, c.urb x = some y
  buffer : ∀ x, .buffer x ∈ c.live ↔ ∃ y, c.urb x = some y ∧ y.transferBuffer.isSome

theorem newChip_ok : ChipOk { noChip with live := {.card} } :=
  ⟨by simp, fun x => by simp [noChip], fun x => by simp [noChip]⟩

/-- A URB is set up: allocated if it has not been, and with a buffer if `b`. -/
theorem ChipOk.setUrb {c : Chip} (h : ChipOk c) {x : Slot} {y : ChipUrb} {live : Finset Obj}
    (hcard : .card ∈ live) (hurb : ∀ z, .urb z ∈ live ↔ z = x ∨ .urb z ∈ c.live)
    (hbuf : ∀ z, .buffer z ∈ live ↔ if z = x then y.transferBuffer.isSome else .buffer z ∈ c.live) :
    ChipOk { c with live, urb := Function.update c.urb x (some y) } := by
  refine ⟨hcard, ?_, ?_⟩
  · intro z
    by_cases hz : z = x
    · subst hz
      simp [hurb]
    · simp [hurb, hz, h.urb z]
  · intro z
    rw [hbuf]
    by_cases hz : z = x
    · subst hz
      simp
    · simp [hz, h.buffer z]

/-- `freeUrb` frees the URB and its buffer, and clears the pointer. -/
theorem freeUrb_spec {c : Chip} (h : ChipOk c) (d : Dir) (u : Fin nurb) :
    ∃ c', freeUrb d c u = some c' ∧ ChipOk c' ∧ c'.intfdata = c.intfdata ∧
      c'.urb = Function.update c.urb (d, u) none := by
  unfold freeUrb
  rw [if_pos h.card]
  cases hx : c.urb (d, u) with
  | none =>
    refine ⟨c, rfl, h, rfl, ?_⟩
    rw [← hx, Function.update_eq_self]
  | some y =>
    have hmem : Obj.urb (d, u) ∈ c.live := (h.urb _).mpr ⟨y, hx⟩
    have hbuf := h.buffer (d, u)
    simp only [hx, Option.some.injEq, exists_eq_left'] at hbuf
    -- the buffer is there if the pointer is, and gone in the end
    have hfree : kfree c.live (.buffer (d, u)) y.transferBuffer.isNone =
        some (c.live.erase (.buffer (d, u))) := by
      unfold kfree
      cases hb : y.transferBuffer with
      | none => simp [Finset.erase_eq_of_notMem, hbuf, hb]
      | some b => simp [release, hbuf, hb]
    have hurb : release (c.live.erase (.buffer (d, u))) (.urb (d, u)) =
        some ((c.live.erase (.buffer (d, u))).erase (.urb (d, u))) := if_pos (by simp [hmem])
    simp only [hfree, hurb, Option.bind_eq_bind, Option.bind_some, Option.pure_def]
    refine ⟨_, rfl, ⟨?_, ?_, ?_⟩, rfl, rfl⟩
    · simp [h.card]
    · intro z
      by_cases hz : z = (d, u)
      · simp [hz]
      · simp [hz, h.urb z]
    · intro z
      by_cases hz : z = (d, u)
      · simp [hz]
      · simp [hz, h.buffer z]

/-- The loop of `djmt1_free_urbs` over the URBs `us`. -/
theorem freeUrbs_spec {c : Chip} (h : ChipOk c) (d : Dir) (us : List (Fin nurb)) :
    ∃ c', us.foldlM (freeUrb d) c = some c' ∧ ChipOk c' ∧ c'.intfdata = c.intfdata ∧
      ∀ x, c'.urb x = if x.1 = d ∧ x.2 ∈ us then none else c.urb x := by
  induction us generalizing c with
  | nil => exact ⟨c, rfl, h, rfl, fun x => by simp⟩
  | cons u us ih =>
    obtain ⟨c₁, h₁, hok₁, hdata₁, hurb₁⟩ := freeUrb_spec h d u
    obtain ⟨c₂, h₂, hok₂, hdata₂, hurb₂⟩ := ih hok₁
    refine ⟨c₂, ?_, hok₂, hdata₂.trans hdata₁, ?_⟩
    · rw [List.foldlM_cons, h₁]
      exact h₂
    · rintro ⟨e, v⟩
      rw [hurb₂, hurb₁]
      by_cases hv : (e, v) = (d, u)
      · obtain ⟨rfl, rfl⟩ := Prod.mk.inj hv
        simp
      · rw [Function.update_of_ne hv]
        have hne : e = d → v ≠ u := by
          rintro rfl rfl
          exact hv rfl
        by_cases hed : e = d
        · simp [hed, hne hed]
        · simp [hed]

/-- **`djmt1_free_urbs`** frees every URB of the stream that there is. -/
theorem djmt1FreeUrbs_spec {c : Chip} (h : ChipOk c) (d : Dir) :
    ∃ c', djmt1FreeUrbs d c = some c' ∧ ChipOk c' ∧ c'.intfdata = c.intfdata ∧
      ∀ x, c'.urb x = if x.1 = d then none else c.urb x := by
  obtain ⟨c', hc', hok, hdata, hurb⟩ := freeUrbs_spec h d (List.finRange nurb)
  refine ⟨c', hc', hok, hdata, ?_⟩
  intro x
  simp [hurb]

/-- Without URBs there is only the card. -/
theorem ChipOk.only_card {c : Chip} (h : ChipOk c) (hurb : ∀ x, c.urb x = none) :
    c.live = {.card} := by
  ext x
  cases x with
  | card => simp [h.card]
  | urb y => simp [h.urb, hurb]
  | buffer y => simp [h.buffer, hurb]

/-- A chip that nothing points to and nothing is left of. -/
structure Undone (c : Chip) : Prop where
  live : c.live = ∅
  intfdata : c.intfdata = false

theorem probeFail_spec {c : Chip} (hlive : c.live = {.card}) (hdata : c.intfdata = false)
    (err : ℤ) : ∃ c', probeFail c err = some (c', err) ∧ Undone c' := by
  refine ⟨{ c with live := ∅ }, ?_, rfl, hdata⟩
  simp [probeFail, release, hlive]

theorem probeFailUrbs_spec {c : Chip} (h : ChipOk c) (hdata : c.intfdata = false) (err : ℤ) :
    ∃ c', probeFailUrbs c err = some (c', err) ∧ Undone c' := by
  obtain ⟨c₁, h₁, hok₁, hdata₁, hurb₁⟩ := djmt1FreeUrbs_spec h .capture
  obtain ⟨c₂, h₂, hok₂, hdata₂, hurb₂⟩ := djmt1FreeUrbs_spec hok₁ .playback
  have hnone : ∀ x, c₂.urb x = none := by
    rintro ⟨d, u⟩
    cases d with
    | capture => simp [hurb₂, hurb₁]
    | playback => simp [hurb₂]
  obtain ⟨c', hc', hundone⟩ := probeFail_spec (hok₂.only_card hnone)
    (hdata₂.trans (hdata₁.trans hdata)) err
  refine ⟨c', ?_, hundone⟩
  simp only [probeFailUrbs, h₁, h₂, Option.bind_eq_bind, Option.bind_some]
  exact hc'

/-! ## Setting up the URBs -/

/-- The URBs `us` of the stream are all allocated, with their buffers. -/
def ProbeOutcome.Allocates (o : ProbeOutcome) (d : Dir) (us : List (Fin nurb)) : Prop :=
  ∀ u ∈ us, o.urb (d, u) ∧ o.buffer (d, u)

instance (o : ProbeOutcome) (d : Dir) (us : List (Fin nurb)) : Decidable (o.Allocates d us) :=
  inferInstanceAs (Decidable (∀ u ∈ us, _))

/-- A URB without its buffer, and one with it. -/
theorem ChipOk.bare {c : Chip} (h : ChipOk c) {x : Slot} (hnone : c.urb x = none) {y : ChipUrb}
    (hy : y.transferBuffer = none) :
    ChipOk { c with live := insert (.urb x) c.live, urb := Function.update c.urb x (some y) } := by
  apply h.setUrb
  · simp [h.card]
  · intro z
    simp
  · intro z
    by_cases hz : z = x
    · subst hz
      simp [h.buffer, hnone, hy]
    · simp [hz]

theorem ChipOk.ready {c : Chip} (h : ChipOk c) {x : Slot} {y y' : ChipUrb} (hx : c.urb x = some y)
    (hy : y'.transferBuffer.isSome) : ChipOk { c with
      live := insert (.buffer x) c.live, urb := Function.update c.urb x (some y') } := by
  apply h.setUrb
  · simp [h.card]
  · intro z
    by_cases hz : z = x
    · subst hz
      simp [h.urb, hx]
    · simp [hz]
  · intro z
    by_cases hz : z = x
    · simp [hz, hy]
    · simp [hz]

/-- The loop of `djmt1_alloc_urbs` on URBs that are null: all are set up, or it returns
    `-ENOMEM`; the chip keeps the pointers to all that is allocated either way. -/
theorem allocUrbsFrom_spec {o : ProbeOutcome} {d : Dir} (ep : ℕ) {us : List (Fin nurb)}
    (hnd : us.Nodup) {c : Chip} (h : ChipOk c) (hnone : ∀ u ∈ us, c.urb (d, u) = none) :
    let r := allocUrbsFrom o d ep us c
    ChipOk r.1 ∧ r.1.intfdata = c.intfdata ∧ r.2 = (if o.Allocates d us then 0 else enomem) ∧
      (∀ x : Slot, x.1 = d → x.2 ∈ us → o.Allocates d us → r.1.urb x = some (readyUrb d ep)) ∧
      ∀ x : Slot, ¬ (x.1 = d ∧ x.2 ∈ us) → r.1.urb x = c.urb x := by
  induction us generalizing c with
  | nil => exact ⟨h, rfl, by simp [allocUrbsFrom, ProbeOutcome.Allocates], by simp, fun _ _ => rfl⟩
  | cons u us ih =>
    obtain ⟨hu, hnd⟩ := List.nodup_cons.mp hnd
    have hother : ∀ x : Slot, ¬ (x.1 = d ∧ x.2 ∈ u :: us) → x ≠ (d, u) := by
      rintro x hx rfl
      exact hx ⟨rfl, List.mem_cons_self⟩
    have hbare := h.bare (hnone u List.mem_cons_self) (y := bareUrb d ep) rfl
    unfold allocUrbsFrom
    by_cases hurb : o.urb (d, u)
    · rw [if_pos hurb]
      by_cases hbuf : o.buffer (d, u)
      · -- the URB is set up; the rest by induction
        have hall : o.Allocates d (u :: us) ↔ o.Allocates d us := by
          simp [ProbeOutcome.Allocates, hurb, hbuf]
        have hready := hbare.ready (Function.update_self (d, u) _ c.urb)
          (show (readyUrb d ep).transferBuffer.isSome from rfl)
        obtain ⟨hok, hdata, herr, hset, hkeep⟩ := ih hnd hready (by
          intro v hv
          have hne : (d, v) ≠ (d, u) := fun he => hu ((Prod.mk.inj he).2 ▸ hv)
          simp only [Function.update_of_ne hne]
          exact hnone v (List.mem_cons_of_mem u hv))
        simp only [if_pos hbuf]
        refine ⟨hok, hdata, ?_, ?_, ?_⟩
        · rw [herr]
          exact if_congr hall.symm rfl rfl
        · rintro ⟨e, v⟩ rfl hv ha
          rcases List.mem_cons.mp hv with rfl | hv
          · rw [hkeep _ fun hm => hu hm.2]
            exact Function.update_self _ _ _
          · exact hset _ rfl hv (hall.mp ha)
        · intro x hx
          rw [hkeep x fun hm => hx ⟨hm.1, List.mem_cons_of_mem u hm.2⟩]
          simp only [Function.update_of_ne (hother x hx)]
      · have hall : ¬ o.Allocates d (u :: us) := fun ha => hbuf (ha u List.mem_cons_self).2
        rw [if_neg hall]
        simp only [if_neg hbuf]
        refine ⟨hbare, trivial, trivial, fun _ _ _ ha => absurd ha hall, ?_⟩
        intro x hx
        exact Function.update_of_ne (hother x hx) _ _
    · have hall : ¬ o.Allocates d (u :: us) := fun ha => hurb (ha u List.mem_cons_self).1
      rw [if_neg hurb, if_neg hall]
      exact ⟨h, rfl, rfl, fun _ _ _ ha => absurd ha hall, fun _ _ => rfl⟩

/-! ## The probe -/

/-- What `djmt1_alloc_urbs` returns. -/
def ProbeOutcome.allocError (o : ProbeOutcome) (d : Dir) : ℤ :=
  if o.Allocates d (List.finRange nurb) then 0 else enomem

/-- The results that `djmt1_probe` tests, in order. -/
def ProbeOutcome.results (o : ProbeOutcome) : List ℤ :=
  [if o.interfaceNumber ≠ iface then enodev else 0, o.cardNew, o.pcmNew, o.setInterface,
    o.allocError .capture, o.allocError .playback, o.register]

/-- The first result that is an error, and 0 if none is. -/
def firstError (results : List ℤ) : ℤ := (results.find? (· < 0)).getD 0

theorem firstError_cons (r : ℤ) (rs : List ℤ) :
    firstError (r :: rs) = if r < 0 then r else firstError rs := by
  unfold firstError
  by_cases hr : r < 0
  · simp [hr]
  · simp [hr]

/-- What `djmt1_probe` returns. -/
def ProbeOutcome.error (o : ProbeOutcome) : ℤ := firstError o.results

/-- The endpoint of a stream. -/
def Dir.endpoint : Dir → ℕ
  | .capture => epIn
  | .playback => epOut

/-- Every URB of both streams is set up for its endpoint, and all is allocated. -/
structure Bound (c : Chip) : Prop where
  ok : ChipOk c
  urb : ∀ x : Slot, c.urb x = some (readyUrb x.1 x.1.endpoint)
  intfdata : c.intfdata = true

/-- A stream's URBs after `djmt1_alloc_urbs`. -/
theorem djmt1AllocUrbs_spec {o : ProbeOutcome} {d : Dir} (ep : ℕ) {c : Chip} (h : ChipOk c)
    (hnone : ∀ u, c.urb (d, u) = none) : ∃ c', djmt1AllocUrbs o d ep c = (c', o.allocError d) ∧
      ChipOk c' ∧ c'.intfdata = c.intfdata ∧ (∀ x, x.1 ≠ d → c'.urb x = c.urb x) ∧
      (o.allocError d = 0 → ∀ x, x.1 = d → c'.urb x = some (readyUrb d ep)) := by
  obtain ⟨hok, hdata, herr, hset, hkeep⟩ := allocUrbsFrom_spec (o := o) (d := d) ep
    (List.nodup_finRange nurb) h fun u _ => hnone u
  refine ⟨_, Prod.ext rfl herr, hok, hdata, ?_, ?_⟩
  · intro x hx
    exact hkeep x fun hm => hx hm.1
  · intro hzero x hx
    unfold ProbeOutcome.allocError at hzero
    split_ifs at hzero with hall
    · exact hset x hx (List.mem_finRange x.2) hall
    · cases hzero

theorem ProbeOutcome.allocError_neg {o : ProbeOutcome} {d : Dir} :
    ¬ o.allocError d < 0 ↔ o.allocError d = 0 := by
  unfold ProbeOutcome.allocError
  split_ifs <;> simp

theorem probe_spec (o : ProbeOutcome) :
    ∃ c, djmt1Probe o = some (c, o.error) ∧
      if o.error < 0 then Undone c else o.error = 0 ∧ Bound c := by
  simp only [djmt1Probe, ProbeOutcome.error, ProbeOutcome.results, firstError_cons]
  by_cases hif : o.interfaceNumber ≠ iface
  · simp only [if_pos hif]
    exact ⟨noChip, rfl, rfl, rfl⟩
  rw [if_neg hif, if_neg hif, if_neg (lt_irrefl 0)]
  by_cases hcard : o.cardNew < 0
  · simp only [if_pos hcard]
    exact ⟨noChip, rfl, rfl, rfl⟩
  rw [if_neg hcard, if_neg hcard]
  by_cases hpcm : o.pcmNew < 0
  · simp only [if_pos hpcm]
    exact probeFail_spec rfl rfl _
  rw [if_neg hpcm, if_neg hpcm]
  by_cases hset : o.setInterface < 0
  · simp only [if_pos hset]
    exact probeFail_spec rfl rfl _
  rw [if_neg hset, if_neg hset]
  obtain ⟨c₁, h₁, hok₁, hdata₁, hkeep₁, hurb₁⟩ :=
    djmt1AllocUrbs_spec (o := o) (d := .capture) epIn newChip_ok fun _ => rfl
  simp only [h₁]
  by_cases hcap : o.allocError .capture < 0
  · simp only [if_pos hcap]
    exact probeFailUrbs_spec hok₁ hdata₁ _
  rw [if_neg hcap, if_neg hcap]
  obtain ⟨c₂, h₂, hok₂, hdata₂, hkeep₂, hurb₂⟩ :=
    djmt1AllocUrbs_spec (o := o) (d := .playback) epOut hok₁ fun u => hkeep₁ _ (by simp)
  simp only [h₂]
  by_cases hplay : o.allocError .playback < 0
  · simp only [if_pos hplay]
    exact probeFailUrbs_spec hok₂ (hdata₂.trans hdata₁) _
  rw [if_neg hplay, if_neg hplay]
  by_cases hreg : o.register < 0
  · simp only [if_pos hreg]
    exact probeFailUrbs_spec hok₂ (hdata₂.trans hdata₁) _
  rw [if_neg hreg, if_neg hreg]
  refine ⟨_, rfl, ?_⟩
  rw [if_neg (show ¬ firstError [] < 0 from lt_irrefl 0)]
  refine ⟨rfl, ⟨hok₂.card, hok₂.urb, hok₂.buffer⟩, ?_, rfl⟩
  rintro ⟨d, u⟩
  cases d with
  | capture =>
    show c₂.urb (.capture, u) = _
    rw [hkeep₂ _ (by simp)]
    exact hurb₁ (ProbeOutcome.allocError_neg.mp hcap) _ rfl
  | playback => exact hurb₂ (ProbeOutcome.allocError_neg.mp hplay) _ rfl

/-- Every call succeeds, on the interface the driver is for. -/
structure ProbeOutcome.Succeeds (o : ProbeOutcome) : Prop where
  interfaceNumber : o.interfaceNumber = iface
  cardNew : 0 ≤ o.cardNew
  pcmNew : 0 ≤ o.pcmNew
  setInterface : 0 ≤ o.setInterface
  memory : ∀ x, o.urb x ∧ o.buffer x
  register : 0 ≤ o.register

theorem firstError_neg {rs : List ℤ} : firstError rs < 0 ↔ ∃ r ∈ rs, r < 0 := by
  induction rs with
  | nil => simp [firstError]
  | cons r rs ih =>
    rw [firstError_cons]
    by_cases hr : r < 0
    · simp [hr]
    · simp [hr, ih]

theorem ProbeOutcome.allocError_eq {o : ProbeOutcome} {d : Dir} :
    o.allocError d < 0 ↔ ∃ u, ¬ (o.urb (d, u) ∧ o.buffer (d, u)) := by
  have hall : o.Allocates d (List.finRange nurb) ↔ ∀ u, o.urb (d, u) ∧ o.buffer (d, u) := by
    simp [ProbeOutcome.Allocates]
  rw [← not_forall, ← hall]
  unfold ProbeOutcome.allocError
  split_ifs with ha
  · simp [ha]
  · simp [ha]

/-- There is an error if a call fails. -/
theorem ProbeOutcome.error_neg {o : ProbeOutcome} : o.error < 0 ↔ ¬ o.Succeeds := by
  have hiface : (if o.interfaceNumber ≠ iface then enodev else 0) < 0 ↔
      o.interfaceNumber ≠ iface := by
    split_ifs with hif
    · exact iff_of_true (by decide) hif
    · exact iff_of_false (lt_irrefl 0) hif
  unfold ProbeOutcome.error ProbeOutcome.results
  simp only [firstError_neg, List.exists_mem_cons_iff, List.not_mem_nil, false_and, exists_false,
    or_false, hiface, allocError_eq]
  constructor
  · rintro h ⟨hif, hcard, hpcm, hset, hmem, hreg⟩
    rcases h with h | h | h | h | ⟨u, h⟩ | ⟨u, h⟩ | h
    · exact h hif
    · exact absurd hcard (not_le.mpr h)
    · exact absurd hpcm (not_le.mpr h)
    · exact absurd hset (not_le.mpr h)
    · exact h (hmem _)
    · exact h (hmem _)
    · exact absurd hreg (not_le.mpr h)
  · intro h
    by_contra hno
    simp only [not_or, not_lt, not_exists, not_not] at hno
    obtain ⟨hif, hcard, hpcm, hset, hcap, hplay, hreg⟩ := hno
    refine h ⟨hif, hcard, hpcm, hset, ?_, hreg⟩
    rintro ⟨d, u⟩
    cases d with
    | capture => exact hcap u
    | playback => exact hplay u

/-- **All or nothing.** Whatever fails, `djmt1_probe` is defined. If every call succeeds it
    returns 0, with all URBs of both streams set up and their buffers allocated. If not it
    returns the error of the first call that fails, and has freed all that was allocated,
    each object once. -/
theorem probe_all_or_nothing (o : ProbeOutcome) : ∃ c err, djmt1Probe o = some (c, err) ∧
    (o.Succeeds → err = 0 ∧ Bound c) ∧ (¬ o.Succeeds → err = o.error ∧ err < 0 ∧ Undone c) := by
  obtain ⟨c, hc, hres⟩ := probe_spec o
  refine ⟨c, o.error, hc, ?_, ?_⟩
  · intro hs
    rwa [if_neg fun hneg => ProbeOutcome.error_neg.mp hneg hs] at hres
  · intro hs
    have hneg := ProbeOutcome.error_neg.mpr hs
    rw [if_pos hneg] at hres
    exact ⟨rfl, hneg, hres⟩

end DjmT1.Kernel
