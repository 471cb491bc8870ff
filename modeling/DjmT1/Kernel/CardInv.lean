import DjmT1.Kernel.Card

/-!
# What is allocated while the device is disconnected

`djmt1_disconnect` stops both streams, then kills and frees their URBs one after the other,
while ALSA and the USB core go on. What is allocated at each moment follows from how far
it is (`UnplugPc.freed`).

* `CardInv`: the invariant, which also says that no URB is in flight, in the hands of its
  handler or held by START once `djmt1_disconnect` has done something to it.
* `CardInv.pcm`, `CardInv.unplug`: a step of a stream and a step of `djmt1_disconnect` are
  defined and keep it.
* `card_inv`: it holds in every run in which START is out of the way (`StartClear`).
-/

namespace DjmT1.Kernel

open DjmT1.Lib

variable {hw : Dir → HwParams} {c c' : Card} {d : Dir}

/-! ## How far the freeing of a URB is -/

/-- What has been done to the URB at the head of the loop: nothing, it has been killed,
    its buffer freed, it has been freed. -/
def FreePc.steps : FreePc → ℕ
  | .test | .kill => 0
  | .buffer => 1
  | .urb => 2
  | .clear => 3

/-- What has been done to a URB; 4 when its pointer has been cleared. -/
def UnplugPc.freed : UnplugPc → Slot → ℕ
  | .idle, _ | .stop _, _ => 0
  | .free [] _, _ => 4
  | .free (y :: rest) pc, x => if x = y then pc.steps else if x ∈ rest then 0 else 4
  | .card, _ | .data, _ | .done, _ => 4

/-- The URBs yet to be freed. -/
def UnplugPc.todo : UnplugPc → List Slot
  | .free todo _ => todo
  | .idle | .stop _ | .card | .data | .done => []

/-- `snd_card_free_when_closed` has been called. -/
def UnplugPc.released : UnplugPc → Bool
  | .data | .done => true
  | .idle | .stop _ | .free _ _ | .card => false

theorem freed_self (x : Slot) (rest : List Slot) (pc : FreePc) :
    (UnplugPc.free (x :: rest) pc).freed x = pc.steps := if_pos rfl

theorem freed_of_ne {x y : Slot} (h : x ≠ y) (rest : List Slot) (pc : FreePc) :
    (UnplugPc.free (y :: rest) pc).freed x = if x ∈ rest then 0 else 4 := if_neg h

/-- When the loop goes on, the URB it leaves is done with. -/
theorem freed_test (x : Slot) (rest : List Slot) :
    (UnplugPc.free rest .test).freed x = if x ∈ rest then 0 else 4 := by
  cases rest with
  | nil => rfl
  | cons y rest =>
    by_cases hxy : x = y
    · subst hxy
      simp [freed_self, FreePc.steps]
    · simp [freed_of_ne hxy, hxy]

/-- The other URBs do not notice. -/
theorem freed_congr {x y : Slot} (h : y ≠ x) (rest : List Slot) (pc pc' : FreePc) :
    (UnplugPc.free (x :: rest) pc').freed y = (UnplugPc.free (x :: rest) pc).freed y := by
  rw [freed_of_ne h, freed_of_ne h]

theorem freed_next {x y : Slot} (h : y ≠ x) (rest : List Slot) (pc : FreePc) :
    (UnplugPc.free rest .test).freed y = (UnplugPc.free (x :: rest) pc).freed y := by
  rw [freed_test, freed_of_ne h]

theorem allSlots_nodup : allSlots.Nodup := by decide

theorem mem_allSlots (x : Slot) : x ∈ allSlots := by
  obtain ⟨d, u⟩ := x
  cases d with
  | capture => simp [allSlots]
  | playback => simp [allSlots]

theorem freed_allSlots (x : Slot) : (UnplugPc.free allSlots .test).freed x = 0 := by
  rw [freed_test, if_pos (mem_allSlots x)]

/-! ## The invariant -/

/-- A URB is in flight, its handler is executing, or START is about to submit it. -/
def Card.Busy (c : Card) (x : Slot) : Prop := (c.stream x.1).Uses x.2 ∨ c.Holds x

/-- What is allocated follows from how far `djmt1_disconnect` is; only a URB to which it
    has done nothing is busy. -/
structure CardInv (hw : Dir → HwParams) (c : Card) : Prop where
  stream : ∀ d, StreamInv (hw d) d (c.stream d)
  held : ∀ d, c.held d ≠ none → (c.stream d).control.next ≠ none
  opened : ∀ d, (c.stream d).control ≠ .idle → c.opened d = true
  todo : c.unplug.todo.Nodup
  slot : ∀ x, c.slot x = true ↔ c.unplug.freed x < 4
  urb : ∀ x, .urb x ∈ c.live ↔ c.unplug.freed x < 3
  buffer : ∀ x, .buffer x ∈ c.live ↔ c.unplug.freed x < 2
  busy : ∀ x, c.Busy x → c.unplug.freed x = 0
  card : .card ∉ c.live → c.released = true ∧ ∀ d, c.opened d = false
  released : c.released = c.unplug.released
  intfdata : c.intfdata = !decide (c.unplug = .done)

/-- The memory of a URB that is busy is allocated. -/
theorem CardInv.live_of_busy (h : CardInv hw c) {x : Slot} (hx : c.Busy x) :
    .urb x ∈ c.live ∧ .buffer x ∈ c.live := by
  have hz := h.busy x hx
  exact ⟨(h.urb x).mpr (by omega), (h.buffer x).mpr (by omega)⟩

/-- So is the card when a URB is busy, or a stream open. -/
theorem CardInv.card_of_busy (h : CardInv hw c) {x : Slot} (hx : c.Busy x) : .card ∈ c.live := by
  by_contra hcard
  have hz := h.busy x hx
  have hrel := h.released.symm.trans (h.card hcard).1
  cases hu : c.unplug with
  | data => simp [hu, UnplugPc.freed] at hz
  | done => simp [hu, UnplugPc.freed] at hz
  | _ => simp [hu, UnplugPc.released] at hrel

theorem CardInv.card_of_opened (h : CardInv hw c) (hd : c.opened d = true) : .card ∈ c.live := by
  by_contra hcard
  rw [(h.card hcard).2 d] at hd
  cases hd

theorem CardInv.card_of_unplug (h : CardInv hw c) (hrel : c.unplug.released = false) :
    .card ∈ c.live := by
  by_contra hcard
  rw [← h.released, (h.card hcard).1] at hrel
  cases hrel

/-! ## The steps of a stream -/

/-- START does not read a URB that has been killed and not been cleared yet, nor hold one
    when `usb_kill_urb` returns for it. -/
def StartClear (c : Card) : CardLabel → Prop
  | .load d => ∀ u, (c.stream d).control.next = some u →
      c.unplug.freed (d, u) = 0 ∨ c.unplug.freed (d, u) = 4
  | .unplug => ∀ x, c.unplug.rejects x → ¬ c.Holds x
  | .opens _ | .closes _ | .pcm _ _ | .disconnect | .free => True

instance (c : Card) : (l : CardLabel) → Decidable (StartClear c l)
  | .load d => inferInstanceAs (Decidable (∀ u, (c.stream d).control.next = some u →
      c.unplug.freed (d, u) = 0 ∨ c.unplug.freed (d, u) = 4))
  | .unplug => decidable_of_iff (∀ d u, c.unplug.rejects (d, u) → ¬ c.Holds (d, u))
      ⟨fun h x => h x.1 x.2, fun h d u => h (d, u)⟩
  | .opens _ | .closes _ | .pcm _ _ | .disconnect | .free => inferInstanceAs (Decidable True)

/-- What a step of a stream leaves in flight was in flight before, or in the hands of the
    handler, or START has submitted it. -/
theorem streamExec_uses {hw : HwParams} {s t : Stream} {l : StreamLabel} {u : Fin nurb}
    (hen : streamEnabled s l) (hst : streamExec hw d s l = some t) (hu : t.Uses u) :
    s.Uses u ∨ s.control.next = some u ∧ l = .trigger true := by
  cases l with
  | prepare | start | stop | app dma => obtain rfl := Option.some.inj hst; exact .inl hu
  | complete v r =>
    obtain rfl := Option.some.inj hst
    rcases hu with hf | hc
    · exact .inl (.inl (Finset.mem_of_mem_erase hf))
    · obtain rfl : v = u := Option.some.inj hc
      exact .inl (.inl hen.1)
  | handler ok =>
    rcases completeStep_cases hst with ⟨v, hv, rfl⟩ | ⟨heq, hcur⟩
    · rcases hu with hf | hc
      · rcases usbSubmitUrb_cases s v ok with hsub | hsub
        · rw [hsub] at hf
          rcases Finset.mem_insert.mp hf with rfl | hf
          · exact .inl (.inr (by rw [hv]; rfl))
          · exact .inl (.inl hf)
        · rw [hsub] at hf
          exact .inl (.inl hf)
      · cases hc
    · rcases hu with hf | hc
      · rw [heq] at hf
        exact .inl (.inl hf)
      · rcases hcur with hn | hcur
        · rw [hn] at hc
          cases hc
        · exact .inl (.inr (hcur ▸ hc))
  | trigger ok =>
    have hst : triggerStep s ok = some t := hst
    cases ok with
    | false =>
      rcases triggerStep_cases hst with ⟨_, rfl⟩ | ⟨v, rest, hctl, rfl⟩ | ⟨v, rest, _, rfl⟩
      · exact .inl hu
      · have hfalse : usbSubmitUrb s v false = (s, false) := by simp [usbSubmitUrb]
        simp only [triggerStep, hctl, hfalse] at hst
        have hctl' := congrArg Stream.control (Option.some.inj hst)
        cases hctl'
      · exact .inl hu
    | true =>
      rcases triggerStep_cases hst with ⟨_, rfl⟩ | ⟨v, rest, hctl, rfl⟩ | ⟨v, rest, _, rfl⟩
      · exact .inl hu
      · rcases hu with hf | hc
        · rcases Finset.mem_insert.mp hf with rfl | hf
          · exact .inr ⟨by rw [hctl]; rfl, rfl⟩
          · exact .inl (.inl hf)
        · exact .inl (.inr hc)
      · exact .inl hu

/-- Only `trigger` changes what the START loop is at, and a START puts it at its
    beginning. -/
theorem streamExec_control {hw : HwParams} {s t : Stream} {l : StreamLabel}
    (hst : streamExec hw d s l = some t) (hl : ∀ ok, l ≠ .trigger ok) :
    t.control = s.control ∨ l = .start := by
  cases l with
  | start => exact .inr rfl
  | trigger ok => exact absurd rfl (hl ok)
  | prepare | stop | app dma | complete v r => obtain rfl := Option.some.inj hst; exact .inl rfl
  | handler ok =>
    rcases completeStep_cases hst with ⟨v, _, rfl⟩ | ⟨heq, _⟩
    · rw [usbSubmitUrb_frame]
      exact .inl rfl
    · rw [heq]
      exact .inl rfl

theorem pcmLabel_enabled {s : Stream} {l : StreamLabel} :
    streamEnabled s (c.pcmLabel d l) ↔ streamEnabled s l := by
  cases l <;> rfl

/-- A step of a stream touches what is allocated. -/
theorem CardInv.touches (h : CardInv hw c) {l : StreamLabel} (hen : c.PcmEnabled d l) :
    ∀ x ∈ c.touches d l, x ∈ c.live := by
  obtain ⟨hen, hpcm⟩ := hen
  cases l with
  | prepare | start | stop =>
    intro x hx
    obtain rfl := List.mem_singleton.mp hx
    exact h.card_of_opened hpcm
  | app dma => intro x hx; cases hx
  | complete u r =>
    have hbusy : c.Busy (d, u) := .inl (.inl hen.1)
    intro x hx
    simp only [Card.touches, List.mem_cons, List.not_mem_nil, or_false] at hx
    rcases hx with rfl | rfl
    · exact (h.live_of_busy hbusy).1
    · exact (h.live_of_busy hbusy).2
  | handler ok =>
    obtain ⟨u, hu⟩ := HandlerPc.exists_current.mpr hen
    have hbusy : c.Busy (d, u) := .inl (.inr hu)
    intro x hx
    simp only [Card.touches, hu, List.mem_cons, List.not_mem_nil, or_false] at hx
    rcases hx with rfl | rfl | rfl
    · exact h.card_of_busy hbusy
    · exact (h.live_of_busy hbusy).1
    · exact (h.live_of_busy hbusy).2
  | trigger ok =>
    intro x hx
    rcases List.mem_cons.mp hx with rfl | hx
    · exact h.card_of_opened (h.opened d hen)
    · split_ifs at hx with hheld
      · cases hnext : (c.stream d).control.next with
        | none => simp [hnext] at hx
        | some u =>
          obtain rfl : x = .urb (d, u) := by simpa [hnext] using hx
          exact (h.live_of_busy (.inr ⟨hheld, hnext⟩)).1
      · cases hx

/-- A step of a stream submits only what START holds. -/
theorem Card.PcmEnabled.busy {l : StreamLabel} {s : Stream}
    (hen : c.PcmEnabled d l)
    (hst : streamExec (hw d) d (c.stream d) (c.pcmLabel d l) = some s) {u : Fin nurb}
    (hu : s.Uses u) : c.Busy (d, u) := by
  rcases streamExec_uses (pcmLabel_enabled.mpr hen.1) hst hu with hu | ⟨hnext, hl⟩
  · exact .inl hu
  · refine .inr ⟨?_, hnext⟩
    cases l with
    | trigger ok =>
      obtain ⟨hheld, _⟩ := hen.2 u hnext
      simp only [Card.pcmLabel, StreamLabel.trigger.injEq, Bool.and_eq_true] at hl
      cases hh : c.held d with
      | none => exact absurd hh hheld
      | some b =>
        rw [hh] at hl
        exact congrArg some hl.2
    | _ => cases hl

/-- A step of a stream is defined and keeps the invariant. -/
theorem CardInv.pcm (h : CardInv hw c) {l : StreamLabel} (hen : c.PcmEnabled d l) :
    ∃ c', pcmExec hw c d l = some c' ∧ CardInv hw c' ∧ c'.unplug = c.unplug := by
  obtain ⟨s, hst, hinv⟩ := (h.stream d).step (l := c.pcmLabel d l) (pcmLabel_enabled.mpr hen.1)
  unfold pcmExec
  rw [if_pos (h.touches hen)]
  simp only [hst, Option.bind_eq_bind, Option.bind_some, Option.pure_def]
  refine ⟨_, rfl, ?_, rfl⟩
  -- the START loop is where it was, unless this is a step of it or a START
  have hctl : (∃ ok, l = .trigger ok) ∨ s.control = (c.stream d).control ∨
      (l = .start ∧ c.held d = none) := by
    by_cases hl : ∃ ok, l = .trigger ok
    · exact .inl hl
    · rw [not_exists] at hl
      have hlabel : c.pcmLabel d l = l := by
        cases l with
        | trigger ok => exact absurd rfl (hl ok)
        | _ => rfl
      rw [hlabel] at hst
      rcases streamExec_control hst hl with heq | rfl
      · exact .inr (.inl heq)
      · refine .inr (.inr ⟨rfl, ?_⟩)
        by_contra hheld
        have hidle : (c.stream d).control = .idle := hen.1.1
        exact h.held d hheld (by rw [hidle]; rfl)
  have hheld : ∀ b, c.heldAfter d l d = some b →
      c.held d = some b ∧ s.control = (c.stream d).control := by
    intro b hb
    rcases hctl with ⟨ok, rfl⟩ | heq | ⟨rfl, hnone⟩
    · simp [Card.heldAfter] at hb
    · refine ⟨?_, heq⟩
      cases l with
      | trigger ok => simp [Card.heldAfter] at hb
      | _ => exact hb
    · simp [Card.heldAfter, hnone] at hb
  have hother : ∀ e, e ≠ d → c.heldAfter d l e = c.held e := by
    intro e he
    cases l with
    | trigger ok => exact Function.update_of_ne he _ _
    | _ => rfl
  refine ⟨?_, ?_, ?_, h.todo, h.slot, h.urb, h.buffer, ?_, h.card, h.released, h.intfdata⟩
  · intro e
    by_cases he : e = d
    · subst he
      simpa using hinv
    · simpa [he] using h.stream e
  · intro e hne
    by_cases he : e = d
    · subst he
      obtain ⟨b, hb⟩ := Option.ne_none_iff_exists'.mp hne
      obtain ⟨hb, heq⟩ := hheld b hb
      simp only [Function.update_self, heq]
      exact h.held e (by simp [hb])
    · simp only [Function.update_of_ne he]
      exact h.held e (by rwa [← hother e he])
  · intro e hne
    by_cases he : e = d
    · subst he
      simp only [Function.update_self] at hne
      rcases hctl with ⟨ok, rfl⟩ | heq | ⟨rfl, _⟩
      · exact h.opened e hen.1
      · exact h.opened e (heq ▸ hne)
      · exact hen.2
    · simp only [Function.update_of_ne he] at hne
      exact h.opened e hne
  · rintro ⟨e, u⟩ hbusy
    apply h.busy
    by_cases he : e = d
    · subst he
      rcases hbusy with huse | ⟨hb, hnext⟩
      · simp only [Function.update_self] at huse
        exact hen.busy hst huse
      · obtain ⟨hb, heq⟩ := hheld true hb
        simp only [Function.update_self, heq] at hnext
        exact .inr ⟨hb, hnext⟩
    · rcases hbusy with huse | ⟨hb, hnext⟩
      · simp only [Function.update_of_ne he] at huse
        exact .inl huse
      · simp only [Function.update_of_ne he] at hnext
        exact .inr ⟨(hother e he).symm.trans hb, hnext⟩

/-! ## The steps of `djmt1_disconnect` -/

/-- A step of the loop that concerns the URB `x`. -/
theorem CardInv.advance (h : CardInv hw c) (x : Slot) {pc : UnplugPc} {live : Finset Obj}
    {slot : Slot → Bool} (hpc : ∃ todo at', c.unplug = .free todo at')
    (hpc' : ∃ todo at', pc = .free todo at') (htodo : pc.todo.Nodup) (hcard : .card ∈ live)
    (hother : ∀ y, y ≠ x → pc.freed y = c.unplug.freed y ∧ slot y = c.slot y ∧
      (.urb y ∈ live ↔ .urb y ∈ c.live) ∧ (.buffer y ∈ live ↔ .buffer y ∈ c.live))
    (hslot : slot x = true ↔ pc.freed x < 4) (hurb : .urb x ∈ live ↔ pc.freed x < 3)
    (hbuf : .buffer x ∈ live ↔ pc.freed x < 2) (hbusy : c.Busy x → pc.freed x = 0) :
    CardInv hw { c with live, slot, unplug := pc } := by
  obtain ⟨todo, at₀, hpc⟩ := hpc
  obtain ⟨todo', at₁, rfl⟩ := hpc'
  refine ⟨h.stream, h.held, h.opened, htodo, ?_, ?_, ?_, ?_, fun hc => absurd hcard hc, ?_, ?_⟩
  · intro y
    by_cases hy : y = x
    · exact hy ▸ hslot
    · obtain ⟨hfreed, hsame, _⟩ := hother y hy
      simp only [hfreed, hsame]
      exact h.slot y
  · intro y
    by_cases hy : y = x
    · exact hy ▸ hurb
    · obtain ⟨hfreed, _, hsame, _⟩ := hother y hy
      simp only [hfreed, hsame]
      exact h.urb y
  · intro y
    by_cases hy : y = x
    · exact hy ▸ hbuf
    · obtain ⟨hfreed, _, _, hsame⟩ := hother y hy
      simp only [hfreed, hsame]
      exact h.buffer y
  · intro y hb
    by_cases hy : y = x
    · subst hy
      exact hbusy hb
    · exact (hother y hy).1.trans (h.busy y hb)
  · exact h.released.trans (by rw [hpc]; rfl)
  · exact h.intfdata.trans (by rw [hpc]; rfl)

/-- `running` is cleared. -/
theorem CardInv.stop (h : CardInv hw c) {e : Dir} {pc : UnplugPc} (hpc : c.unplug = .stop e)
    (hpc' : pc.todo.Nodup) (hrel : pc.released = false) (hdone : pc ≠ .done)
    (hfreed : ∀ x, pc.freed x = 0) : CardInv hw (stopRunning c d pc) := by
  have hsame : ∀ x, c.unplug.freed x = pc.freed x := by
    intro x
    rw [hpc, hfreed]
    rfl
  have hstream : ∀ e, (stopRunning c d pc).stream e =
      { c.stream e with running := ((stopRunning c d pc).stream e).running } := by
    intro e
    by_cases he : e = d
    · subst he
      simp [stopRunning]
    · simp [stopRunning, he]
  refine ⟨?_, ?_, ?_, hpc', ?_, ?_, ?_, ?_, h.card, ?_, ?_⟩
  · intro e
    rw [hstream]
    exact (h.stream e).congr rfl rfl rfl (h.stream e).handler
  · intro e he
    rw [hstream]
    exact h.held e he
  · intro e he
    rw [hstream] at he
    exact h.opened e he
  · intro x
    exact (h.slot x).trans (by rw [hsame]; rfl)
  · intro x
    exact (h.urb x).trans (by rw [hsame]; rfl)
  · intro x
    exact (h.buffer x).trans (by rw [hsame]; rfl)
  · intro x _
    exact hfreed x
  · show c.released = pc.released
    rw [h.released, hpc, hrel]
    rfl
  · show c.intfdata = !decide (pc = .done)
    rw [h.intfdata, hpc]
    simp [hdone]

/-- The body of the loop of `djmt1_free_urbs`, one step at a time. -/
theorem CardInv.free (h : CardInv hw c) {x : Slot} {rest : List Slot} {pc : FreePc}
    (hpc : c.unplug = .free (x :: rest) pc) (hen : cardEnabled c .unplug)
    (hclear : StartClear c .unplug) : ∃ c', unplugChip c = some c' ∧ CardInv hw c' := by
  have hcard : .card ∈ c.live := h.card_of_unplug (by rw [hpc]; rfl)
  have htodo : (x :: rest).Nodup := by
    have hnd := h.todo
    rwa [hpc] at hnd
  have hself : c.unplug.freed x = pc.steps := by rw [hpc, freed_self]
  have hother : ∀ pc' y, y ≠ x → (UnplugPc.free (x :: rest) pc').freed y = c.unplug.freed y := by
    intro pc' y hy
    rw [hpc, freed_congr hy rest pc]
  have hslot := h.slot x
  have hurb := h.urb x
  have hbuf := h.buffer x
  have hbusy := h.busy x
  rw [hself] at hslot hurb hbuf hbusy
  unfold unplugChip
  cases pc with
  | test =>
    simp only [hpc, if_pos (hslot.mpr (by decide))]
    refine ⟨_, rfl, h.advance x ⟨_, _, hpc⟩ ⟨_, _, rfl⟩ htodo hcard ?_ ?_ ?_ ?_ ?_⟩
    · exact fun y hy => ⟨hother .kill y hy, rfl, .rfl, .rfl⟩
    · rwa [freed_self]
    · rwa [freed_self]
    · rwa [freed_self]
    · exact fun _ => freed_self x rest .kill
  | kill =>
    simp only [hpc, if_pos (hurb.mpr (by decide))]
    -- nobody uses the URB, and nobody is about to
    have hidle : ¬ c.Busy x := by
      have hready : c.KillReady c.unplug := hen.2.2
      rintro (huse | hheld)
      · rw [hpc] at hready
        exact hready huse
      · exact hclear x (by rw [hpc]; exact decide_eq_true rfl) hheld
    refine ⟨_, rfl, h.advance x ⟨_, _, hpc⟩ ⟨_, _, rfl⟩ htodo hcard ?_ ?_ ?_ ?_ ?_⟩
    · exact fun y hy => ⟨hother .buffer y hy, rfl, .rfl, .rfl⟩
    · rw [freed_self, hslot]
      decide
    · rw [freed_self, hurb]
      decide
    · rw [freed_self, hbuf]
      decide
    · exact fun hb => absurd hb hidle
  | buffer =>
    simp only [hpc, if_pos (hurb.mpr (by decide)), release, if_pos (hbuf.mpr (by decide)),
      Option.bind_eq_bind, Option.bind_some, Option.pure_def]
    refine ⟨_, rfl, h.advance x ⟨_, _, hpc⟩ ⟨_, _, rfl⟩ htodo (by simp [hcard]) ?_ ?_ ?_ ?_ ?_⟩
    · exact fun y hy => ⟨hother .urb y hy, rfl, by simp, by simp [hy]⟩
    · rw [freed_self, hslot]
      decide
    · rw [freed_self, Finset.mem_erase, and_iff_right (by simp), hurb]
      decide
    · rw [freed_self]
      simp [FreePc.steps]
    · exact fun hb => absurd (hbusy hb) (by decide)
  | urb =>
    simp only [hpc, release, if_pos (hurb.mpr (by decide)), Option.bind_eq_bind, Option.bind_some,
      Option.pure_def]
    refine ⟨_, rfl, h.advance x ⟨_, _, hpc⟩ ⟨_, _, rfl⟩ htodo (by simp [hcard]) ?_ ?_ ?_ ?_ ?_⟩
    · exact fun y hy => ⟨hother .clear y hy, rfl, by simp [hy], by simp⟩
    · rw [freed_self, hslot]
      decide
    · rw [freed_self]
      simp [FreePc.steps]
    · rw [freed_self, Finset.mem_erase, and_iff_right (by simp), hbuf]
      decide
    · exact fun hb => absurd (hbusy hb) (by decide)
  | clear =>
    obtain ⟨hx, hrest⟩ := List.nodup_cons.mp htodo
    have hgone : (UnplugPc.free rest .test).freed x = 4 := by rw [freed_test, if_neg hx]
    simp only [hpc]
    refine ⟨_, rfl, h.advance x ⟨_, _, hpc⟩ ⟨_, _, rfl⟩ hrest hcard ?_ ?_ ?_ ?_ ?_⟩
    · intro y hy
      refine ⟨?_, Function.update_of_ne hy _ _, .rfl, .rfl⟩
      rw [hpc, freed_next hy rest .clear]
    · rw [hgone]
      simp
    · rw [hgone, hurb]
      decide
    · rw [hgone, hbuf]
      decide
    · exact fun hb => absurd (hbusy hb) (by decide)

/-- A step of `djmt1_disconnect` outside the loop, which frees nothing. -/
theorem CardInv.leave (h : CardInv hw c) {pc : UnplugPc} {released intfdata : Bool}
    (htodo : pc.todo.Nodup) (hfreed : ∀ x, pc.freed x = c.unplug.freed x)
    (hrel : released = pc.released) (hdata : intfdata = !decide (pc = .done))
    (hcard : .card ∉ c.live → released = true) :
    CardInv hw { c with released, intfdata, unplug := pc } where
  stream := h.stream
  held := h.held
  opened := h.opened
  todo := htodo
  slot x := (h.slot x).trans (by rw [hfreed])
  urb x := (h.urb x).trans (by rw [hfreed])
  buffer x := (h.buffer x).trans (by rw [hfreed])
  busy x hb := (hfreed x).trans (h.busy x hb)
  card hc := ⟨hcard hc, (h.card hc).2⟩
  released := hrel
  intfdata := hdata

/-- A step of `djmt1_disconnect` is defined and keeps the invariant. -/
theorem CardInv.unplug (h : CardInv hw c) (hen : cardEnabled c .unplug)
    (hclear : StartClear c .unplug) : ∃ c', djmt1Disconnect c = some c' ∧ CardInv hw c' := by
  unfold djmt1Disconnect
  cases hpc : c.unplug with
  | idle => exact absurd hpc hen.1
  | done => exact absurd hpc hen.2.1
  | data =>
    rw [if_pos rfl]
    refine ⟨{ c with intfdata := false, unplug := .done }, rfl, ?_⟩
    have hrel : c.released = true := h.released.trans (by rw [hpc]; rfl)
    exact h.leave List.nodup_nil (fun x => by rw [hpc]; rfl) hrel rfl fun _ => hrel
  | stop d =>
    rw [if_neg UnplugPc.noConfusion, if_pos (h.card_of_unplug (by rw [hpc]; rfl))]
    cases d with
    | capture =>
      refine ⟨stopRunning c .capture (.stop .playback), by simp only [unplugChip, hpc], ?_⟩
      exact h.stop hpc List.nodup_nil rfl UnplugPc.noConfusion fun _ => rfl
    | playback =>
      refine ⟨stopRunning c .playback (.free allSlots .test), by simp only [unplugChip, hpc], ?_⟩
      exact h.stop hpc allSlots_nodup rfl UnplugPc.noConfusion freed_allSlots
  | free todo pc =>
    have hcard : .card ∈ c.live := h.card_of_unplug (by rw [hpc]; rfl)
    rw [if_neg UnplugPc.noConfusion, if_pos hcard]
    cases todo with
    | cons x rest => exact h.free hpc hen hclear
    | nil =>
      refine ⟨{ c with unplug := .card }, by simp only [unplugChip, hpc], ?_⟩
      exact h.leave List.nodup_nil (fun x => by rw [hpc]; rfl) (h.released.trans (by rw [hpc]; rfl))
        (h.intfdata.trans (by rw [hpc]; rfl)) fun hc => absurd hcard hc
  | card =>
    have hcard : .card ∈ c.live := h.card_of_unplug (by rw [hpc]; rfl)
    rw [if_neg UnplugPc.noConfusion, if_pos hcard]
    refine ⟨{ c with released := true, unplug := .data }, by simp only [unplugChip, hpc], ?_⟩
    exact h.leave List.nodup_nil (fun x => by rw [hpc]; rfl) rfl
      (h.intfdata.trans (by rw [hpc]; rfl)) fun _ => rfl

/-! ## Runs -/

/-- START reads a pointer. -/
theorem CardInv.load (h : CardInv hw c) (hen : cardEnabled c (.load d))
    (hclear : StartClear c (.load d)) : ∃ c', loadUrb c d = some c' ∧ CardInv hw c' := by
  obtain ⟨u, hu⟩ := Option.ne_none_iff_exists'.mp hen.1
  have hopen : c.opened d = true := by
    apply h.opened
    intro hidle
    rw [hidle] at hu
    cases hu
  simp only [loadUrb, hu, if_pos (h.card_of_opened hopen)]
  refine ⟨_, rfl, h.stream, ?_, h.opened, h.todo, h.slot, h.urb, h.buffer, ?_, h.card, h.released,
    h.intfdata⟩
  · intro e he
    by_cases hed : e = d
    · exact hed ▸ hen.1
    · simp only [Function.update_of_ne hed] at he
      exact h.held e he
  · rintro ⟨e, v⟩ (huse | ⟨hheld, hnext⟩)
    · exact h.busy _ (.inl huse)
    · by_cases hed : e = d
      · subst hed
        simp only [Function.update_self, Option.some.injEq] at hheld
        obtain rfl : u = v := Option.some.inj (hu.symm.trans hnext)
        have hlt := (h.slot (e, u)).mp hheld
        rcases hclear u hu with hz | hfour
        · exact hz
        · omega
      · simp only [Function.update_of_ne hed] at hheld
        exact h.busy _ (.inr ⟨hheld, hnext⟩)

/-- Every step of the driver is defined and keeps the invariant. -/
theorem CardInv.step (h : CardInv hw c) {l : CardLabel} (hen : cardEnabled c l)
    (hclear : StartClear c l) : ∃ c', cardExec hw c l = some c' ∧ CardInv hw c' := by
  cases l with
  | pcm d l =>
    obtain ⟨c', hc', hinv, _⟩ := h.pcm hen
    exact ⟨c', hc', hinv⟩
  | load d => exact h.load hen hclear
  | unplug => exact h.unplug hen hclear
  | opens d =>
    refine ⟨_, rfl, h.stream, h.held, ?_, h.todo, h.slot, h.urb, h.buffer, h.busy, ?_, h.released,
      h.intfdata⟩
    · intro e he
      by_cases hed : e = d
      · exact hed ▸ Function.update_self _ _ _
      · exact (Function.update_of_ne hed _ _).trans (h.opened e he)
    · intro hc
      have hrel := (h.card hc).1
      rw [hen.2] at hrel
      cases hrel
  | closes d =>
    refine ⟨_, rfl, h.stream, h.held, ?_, h.todo, h.slot, h.urb, h.buffer, h.busy, ?_, h.released,
      h.intfdata⟩
    · intro e he
      by_cases hed : e = d
      · subst hed
        exact absurd hen.2.1 he
      · exact (Function.update_of_ne hed _ _).trans (h.opened e he)
    · intro hc
      refine ⟨(h.card hc).1, ?_⟩
      intro e
      by_cases hed : e = d
      · exact hed ▸ Function.update_self _ _ _
      · exact (Function.update_of_ne hed _ _).trans ((h.card hc).2 e)
  | disconnect =>
    by_cases hdata : c.intfdata = true
    · have hidle : c.unplug = .idle := by
        rcases hen with hidle | hdone
        · exact hidle
        · rw [h.intfdata, hdone] at hdata
          cases hdata
      refine ⟨{ c with unplug := .stop .capture }, if_pos hdata, ?_⟩
      exact h.leave List.nodup_nil (fun x => by rw [hidle]; rfl)
        (h.released.trans (by rw [hidle]; rfl)) (h.intfdata.trans (by rw [hidle]; rfl))
        fun hc => (h.card hc).1
    · exact ⟨c, if_neg hdata, h⟩
  | free =>
    obtain ⟨hrel, hcard, hclosed⟩ := hen
    simp only [cardExec, release, if_pos hcard, Option.bind_eq_bind, Option.bind_some,
      Option.pure_def]
    refine ⟨_, rfl, h.stream, h.held, h.opened, h.todo, h.slot, ?_, ?_, h.busy,
      fun _ => ⟨hrel, hclosed⟩, h.released, h.intfdata⟩
    · intro x
      rw [Finset.mem_erase, and_iff_right (by simp), h.urb]
    · intro x
      rw [Finset.mem_erase, and_iff_right (by simp), h.buffer]

/-- The chip of a successful probe becomes a card whose streams are at their beginning. -/
theorem Bound.toCard {chip : Chip} (h : Bound chip) (dma : Dir → Region Byte) :
    (∀ d, (chip.toCard dma).stream d = probedStream (dma d)) ∧
    ∀ x, (chip.toCard dma).slot x = true ∧ .urb x ∈ chip.live ∧ .buffer x ∈ chip.live := by
  constructor
  · intro d
    simp only [Chip.toCard, h.urb, Option.elim_some]
    rfl
  · intro x
    refine ⟨?_, (h.ok.urb x).mpr ⟨_, h.urb x⟩, (h.ok.buffer x).mpr ⟨_, h.urb x, rfl⟩⟩
    simp [Chip.toCard, h.urb]

/-- What a probe that returns 0 leaves. -/
theorem bound_of_probe {o : ProbeOutcome} {chip : Chip} (h : djmt1Probe o = some (chip, 0)) :
    Bound chip := by
  obtain ⟨c, hc, hres⟩ := probe_spec o
  obtain ⟨rfl, herr⟩ := Prod.mk.inj (Option.some.inj (hc.symm.trans h))
  rw [if_neg (by rw [herr]; exact lt_irrefl 0)] at hres
  exact hres.2

theorem card_inv
    (h : (cardMachine hw).ReachIf (fun c l _ => StartClear c l) c) : CardInv hw c := by
  apply h.invariant
  · rintro _ ⟨o, chip, dma, ho, hdma, rfl⟩
    have hbound := bound_of_probe ho
    obtain ⟨hstream, hmem⟩ := hbound.toCard dma
    have hreach : ∀ d, (streamMachine (hw d) d).Reach (probedStream (dma d)) :=
      fun d => .init ⟨dma d, hdma d, rfl⟩
    refine ⟨?_, fun d hd => absurd rfl hd, ?_, List.nodup_nil, ?_, ?_, ?_, fun _ _ => rfl,
      fun hc => absurd hbound.ok.card hc, rfl, ?_⟩
    · intro d
      rw [hstream]
      exact stream_inv (hreach d)
    · intro d hd
      rw [hstream] at hd
      exact absurd rfl hd
    · exact fun x => iff_of_true (hmem x).1 (show 0 < 4 by decide)
    · exact fun x => iff_of_true (hmem x).2.1 (show 0 < 3 by decide)
    · exact fun x => iff_of_true (hmem x).2.2 (show 0 < 2 by decide)
    · exact hbound.intfdata
  · intro c l c' _ hi hstep hclear
    obtain ⟨c'', hc'', hinv⟩ := hi.step hstep.1 hclear
    obtain rfl : c'' = c' := Option.some.inj (hc''.symm.trans hstep.2)
    exact hinv

end DjmT1.Kernel
