import DjmT1.Kernel.CardInv

/-!
# Disconnecting the device

`djmt1_disconnect` does not keep `djmt1_trigger(START)` out, which may hold a pointer to a
URB that `usb_kill_urb` has just returned for.

* `unplug_safe`: where START does not, no step of the driver touches a card, a URB or a
  buffer that has been freed, in any interleaving of the two streams, the USB core and the
  ALSA core; after `djmt1_disconnect` no URB is left, and none can be submitted.
* `unplug_race`: wherever START does, the driver can be taken to such a step.
* `card_streams`: until the device is disconnected, each stream of the card does what it
  does alone.
-/

namespace DjmT1.Kernel

open DjmT1.Lib

variable {hw : Dir → HwParams} {c c' : Card}

/-! ## A START that is in the way -/

/-- START holds a URB that `usb_kill_urb` has returned for and whose pointer has not been
    cleared. -/
structure Doomed (c : Card) (x : Slot) (rest : List Slot) (pc : FreePc) : Prop where
  unplug : c.unplug = .free (x :: rest) pc
  holds : c.Holds x
  card : .card ∈ c.live
  urb : .urb x ∈ c.live ↔ pc.steps < 3
  buffer : .buffer x ∈ c.live ↔ pc.steps < 2
  killed : 0 < pc.steps

theorem CardInv.doomed (h : CardInv hw c) {x : Slot} {rest : List Slot} {pc : FreePc}
    (hpc : c.unplug = .free (x :: rest) pc) (hkilled : 0 < pc.steps) {held : Dir → Option Bool}
    (hholds : Card.Holds { c with held } x) : Doomed { c with held } x rest pc where
  unplug := hpc
  holds := hholds
  card := h.card_of_unplug (by rw [hpc]; rfl)
  urb := (h.urb x).trans (by rw [hpc, freed_self])
  buffer := (h.buffer x).trans (by rw [hpc, freed_self])
  killed := hkilled

/-- START submits a URB that has been freed. -/
theorem Doomed.submits {x : Slot} {rest : List Slot} (h : Doomed c x rest .clear) :
    (cardMachine hw).enabled c (.pcm x.1 (.trigger true)) ∧
      (cardMachine hw).exec c (.pcm x.1 (.trigger true)) = none := by
  obtain ⟨hheld, hnext⟩ := h.holds
  refine ⟨⟨?_, ?_⟩, ?_⟩
  · show (c.stream x.1).control ≠ .idle
    intro hidle
    rw [hidle] at hnext
    cases hnext
  · intro u _
    refine ⟨by simp [hheld], fun _ => ?_⟩
    rw [h.unplug]
    rfl
  · refine if_neg fun hlive => ?_
    have hmem : Obj.urb x ∈ c.touches x.1 (.trigger true) := by
      simp [Card.touches, hheld, hnext]
    exact absurd (h.urb.mp (hlive _ hmem)) (by decide)

/-- `kfree` and `usb_free_urb` do not wait for START. -/
theorem Doomed.unplugs (hw : Dir → HwParams) {x : Slot} {rest : List Slot} {pc : FreePc}
    (h : Doomed c x rest pc) : ∃ ls c', (cardMachine hw).play c ls = some c' ∧
      (cardMachine hw).enabled c' (.pcm x.1 (.trigger true)) ∧
      (cardMachine hw).exec c' (.pcm x.1 (.trigger true)) = none := by
  have hen : ∀ {c : Card} {pc : FreePc}, c.unplug = .free (x :: rest) pc → pc ≠ .kill →
      (cardMachine hw).enabled c .unplug := by
    intro c pc hpc hkill
    refine ⟨by simp [hpc], by simp [hpc], ?_⟩
    rw [hpc]
    cases pc with
    | kill => exact absurd rfl hkill
    | _ => trivial
  -- `usb_free_urb`
  have hurb : ∀ {c : Card}, Doomed c x rest .urb → ∃ c', (cardMachine hw).Step c .unplug c' ∧
      Doomed c' x rest .clear := by
    intro c h
    have hlive : .urb x ∈ c.live := h.urb.mpr (by decide)
    refine ⟨{ c with live := c.live.erase (.urb x), unplug := .free (x :: rest) .clear },
      ⟨hen h.unplug (by decide), ?_⟩, rfl, h.holds, ?_, ?_, ?_, by decide⟩
    · show djmt1Disconnect c = _
      simp [djmt1Disconnect, h.unplug, h.card, unplugChip, release, hlive]
    · simp [h.card]
    · simp [FreePc.steps]
    · have hbuf : .buffer x ∉ c.live := fun hm => absurd (h.buffer.mp hm) (by decide)
      simp [hbuf, FreePc.steps]
  -- `kfree`
  have hbuf : ∀ {c : Card}, Doomed c x rest .buffer → ∃ c', (cardMachine hw).Step c .unplug c' ∧
      Doomed c' x rest .urb := by
    intro c h
    have hlive : .urb x ∈ c.live := h.urb.mpr (by decide)
    have hlive' : .buffer x ∈ c.live := h.buffer.mpr (by decide)
    refine ⟨{ c with live := c.live.erase (.buffer x), unplug := .free (x :: rest) .urb },
      ⟨hen h.unplug (by decide), ?_⟩, rfl, h.holds, ?_, ?_, ?_, by decide⟩
    · show djmt1Disconnect c = _
      simp [djmt1Disconnect, h.unplug, h.card, unplugChip, release, hlive, hlive']
    · simp [h.card]
    · simp [hlive, FreePc.steps]
    · simp [FreePc.steps]
  cases pc with
  | test => exact absurd h.killed (by decide)
  | kill => exact absurd h.killed (by decide)
  | clear => exact ⟨[], c, rfl, h.submits⟩
  | urb =>
    obtain ⟨c₁, hstep₁, h₁⟩ := hurb h
    exact ⟨[.unplug], c₁, Machine.playIf_cons hstep₁ trivial rfl, h₁.submits⟩
  | buffer =>
    obtain ⟨c₁, hstep₁, h₁⟩ := hbuf h
    obtain ⟨c₂, hstep₂, h₂⟩ := hurb h₁
    exact ⟨[.unplug, .unplug], c₂,
      Machine.playIf_cons hstep₁ trivial (Machine.playIf_cons hstep₂ trivial rfl), h₂.submits⟩

/-- The URB that `djmt1_disconnect` is at, if it has been killed and is not cleared. -/
theorem freed_between {pc : UnplugPc} {x : Slot} (hz : pc.freed x ≠ 0) (hfour : pc.freed x ≠ 4) :
    ∃ rest p, pc = .free (x :: rest) p ∧ 0 < p.steps := by
  cases pc with
  | idle | stop d => exact absurd rfl hz
  | card | data | done => exact absurd rfl hfour
  | free todo p =>
    cases todo with
    | nil => exact absurd rfl hfour
    | cons y rest =>
      by_cases hxy : x = y
      · subst hxy
        rw [freed_self] at hz
        exact ⟨rest, p, rfl, Nat.pos_of_ne_zero hz⟩
      · rw [freed_of_ne hxy] at hz hfour
        split_ifs at hz hfour
        · exact absurd rfl hz
        · exact absurd rfl hfour

/-- A step outside `StartClear` is defined, and leaves START with such a URB. -/
theorem CardInv.unclear (h : CardInv hw c) {l : CardLabel} (hen : cardEnabled c l)
    (hclear : ¬ StartClear c l) :
    ∃ c' x rest pc, (cardMachine hw).Step c l c' ∧ Doomed c' x rest pc := by
  cases l with
  | opens | closes | pcm | disconnect | free => exact absurd trivial hclear
  | load d =>
    simp only [StartClear, not_forall, not_or] at hclear
    obtain ⟨u, hu, hz, hfour⟩ := hclear
    obtain ⟨rest, p, hpc, hpos⟩ := freed_between hz hfour
    have hslot : c.slot (d, u) = true := by
      rw [h.slot, hpc, freed_self]
      cases p <;> decide
    have hcard : .card ∈ c.live := h.card_of_unplug (by rw [hpc]; rfl)
    refine ⟨{ c with held := Function.update c.held d (some (c.slot (d, u))) }, (d, u), rest, p,
      ⟨hen, ?_⟩, h.doomed hpc hpos ⟨?_, hu⟩⟩
    · show loadUrb c d = _
      simp only [loadUrb, hu, if_pos hcard]
    · simp [hslot]
  | unplug =>
    simp only [StartClear, not_forall, not_not] at hclear
    obtain ⟨x, hx, hholds⟩ := hclear
    obtain ⟨rest, hpc⟩ : ∃ rest, c.unplug = .free (x :: rest) .kill := by
      unfold UnplugPc.rejects at hx
      split at hx
      · rename_i y rest hpc
        exact ⟨rest, by rw [hpc, of_decide_eq_true hx]⟩
      · cases hx
    have hcard : .card ∈ c.live := h.card_of_unplug (by rw [hpc]; rfl)
    have hfreed : c.unplug.freed x = 0 := h.busy x (.inr hholds)
    have hurb : .urb x ∈ c.live := (h.urb x).mpr (by omega)
    have hbuf : .buffer x ∈ c.live := (h.buffer x).mpr (by omega)
    refine ⟨{ c with unplug := .free (x :: rest) .buffer }, x, rest, .buffer, ⟨hen, ?_⟩, rfl,
      hholds, hcard, ?_, ?_, by decide⟩
    · show djmt1Disconnect c = _
      simp [djmt1Disconnect, hpc, hcard, unplugChip, hurb]
    · exact iff_of_true hurb (by decide)
    · exact iff_of_true hbuf (by decide)

/-! ## Main results -/

/-- **Disconnecting.** In every run in which START neither holds a URB when `usb_kill_urb`
    returns for it nor reads its pointer before that is cleared, every step is defined: the
    card, a URB and a buffer are not used after they have been freed, or freed twice. The
    memory of a URB that is in flight, or in the hands of its handler, is allocated. When
    `djmt1_disconnect` has returned, all URBs and buffers have been freed, nothing is in
    flight, and no START changes that. -/
theorem unplug_safe (h : (cardMachine hw).ReachIf (fun c l _ => StartClear c l) c) :
    (cardMachine hw).Defined c ∧
    (∀ x, (c.stream x.1).Uses x.2 → .urb x ∈ c.live ∧ .buffer x ∈ c.live ∧ .card ∈ c.live) ∧
    (c.unplug = .done → ∀ x, ¬ (c.stream x.1).Uses x.2 ∧ c.slot x = false ∧
      .urb x ∉ c.live ∧ .buffer x ∉ c.live) := by
  have hinv := card_inv h
  refine ⟨?_, ?_, ?_⟩
  · intro l hen
    by_cases hclear : StartClear c l
    · obtain ⟨c', hc', _⟩ := hinv.step hen hclear
      exact Option.isSome_iff_exists.mpr ⟨c', hc'⟩
    · obtain ⟨c', _, _, _, hstep, _⟩ := hinv.unclear hen hclear
      exact Option.isSome_iff_exists.mpr ⟨c', hstep.2⟩
  · intro x huse
    obtain ⟨hurb, hbuf⟩ := hinv.live_of_busy (.inl huse)
    exact ⟨hurb, hbuf, hinv.card_of_busy (.inl huse)⟩
  · intro hdone x
    have hfour : c.unplug.freed x = 4 := by rw [hdone]; rfl
    refine ⟨?_, ?_, ?_, ?_⟩
    · intro huse
      have hz := hinv.busy x (.inl huse)
      omega
    · rw [← Bool.not_eq_true, hinv.slot]
      omega
    · rw [hinv.urb]
      omega
    · rw [hinv.buffer]
      omega

/-- The probe of a device on which every call succeeds. -/
def goodOutcome : ProbeOutcome := ⟨iface, 0, 0, 0, fun _ => true, fun _ => true, 0⟩

/-- The chip it sets up. -/
def goodChip : Chip := ((djmt1Probe goodOutcome).map Prod.fst).getD noChip

theorem goodChip_probe : djmt1Probe goodOutcome = some (goodChip, 0) := rfl

/-- Its card, with the smallest buffers. -/
def goodCard : Card := goodChip.toCard fun _ => onesRing

theorem goodCard_init : (cardMachine fun _ => smallHw).init goodCard :=
  ⟨goodOutcome, goodChip, fun _ => onesRing, goodChip_probe, fun _ => rfl, rfl⟩

/-- The playback stream is opened and started. -/
def startPlayback : List CardLabel :=
  [.opens .playback, .pcm .playback .prepare, .pcm .playback .start]

/-- START submits a URB. -/
def submitNext : List CardLabel := [.load .playback, .pcm .playback (.trigger true)]

/-- `djmt1_disconnect` up to the URBs of the playback stream. -/
def freeCapture : List CardLabel := .disconnect :: List.replicate 22 .unplug

/-- The stream is started and the device disconnected, which completes its URBs; then it
    is started once more, and closed. -/
def unplugRun : List CardLabel :=
  let back : UrbResult := ⟨-2, fun _ => 0, fun _ => 0, Region.fill urbBytes 0⟩
  let kill (u : Fin nurb) : List CardLabel := [.unplug, .pcm .playback (.complete u back),
    .pcm .playback (.handler true), .unplug, .unplug, .unplug, .unplug]
  startPlayback ++ submitNext ++ submitNext ++ submitNext ++ submitNext ++
    [.pcm .playback (.trigger true)] ++ freeCapture ++ (List.finRange nurb).flatMap kill ++
    [.unplug, .unplug, .unplug, .pcm .playback .stop, .pcm .playback .prepare,
      .pcm .playback .start] ++ submitNext ++ [.closes .playback, .free]

set_option maxRecDepth 4000 in
theorem unplug_safe_unplugRun :
    ∃ c, (cardMachine fun _ => smallHw).playIf (fun c l _ => StartClear c l) goodCard unplugRun =
      some c ∧ c.unplug = .done ∧ (cardMachine fun _ => smallHw).Defined c ∧
      (∀ x, (c.stream x.1).Uses x.2 → .urb x ∈ c.live ∧ .buffer x ∈ c.live ∧ .card ∈ c.live) ∧
      (c.unplug = .done → ∀ x, ¬ (c.stream x.1).Uses x.2 ∧ c.slot x = false ∧
        .urb x ∉ c.live ∧ .buffer x ∉ c.live) := by
  obtain ⟨c, hplay, hdone⟩ : ∃ c, (cardMachine fun _ => smallHw).playIf
    (fun c l _ => StartClear c l) goodCard unplugRun = some c ∧ c.unplug = .done := ⟨_, rfl, rfl⟩
  exact ⟨c, hplay, hdone, unplug_safe (Machine.playIf_reachIf (.init goodCard_init) hplay)⟩

/-- **The race.** And only then: from every state reached so, a step that is not so can be
    followed by steps that end with START submitting a URB that has been freed. -/
theorem unplug_race (h : (cardMachine hw).ReachIf (fun c l _ => StartClear c l) c) {l : CardLabel}
    (hen : (cardMachine hw).enabled c l) (hclear : ¬ StartClear c l) :
    ∃ ls c' d, (cardMachine hw).play c (l :: ls) = some c' ∧
      (cardMachine hw).enabled c' (.pcm d (.trigger true)) ∧
      (cardMachine hw).exec c' (.pcm d (.trigger true)) = none := by
  obtain ⟨c₁, x, rest, pc, hstep, hdoomed⟩ := (card_inv h).unclear hen hclear
  obtain ⟨ls, c₂, hplay, hend⟩ := hdoomed.unplugs hw
  exact ⟨ls, c₂, x.1, Machine.playIf_cons hstep trivial hplay, hend⟩

/-- START has read the pointer to its first URB, and `usb_kill_urb` is about to return for
    that URB. -/
def raceRun : List CardLabel := startPlayback ++ [.load .playback] ++ freeCapture ++ [.unplug]

theorem unplug_race_raceRun :
    ∃ c ls c' d, (cardMachine fun _ => smallHw).playIf (fun c l _ => StartClear c l) goodCard
        raceRun = some c ∧
      (cardMachine fun _ => smallHw).play c (.unplug :: ls) = some c' ∧
      (cardMachine fun _ => smallHw).enabled c' (.pcm d (.trigger true)) ∧
      (cardMachine fun _ => smallHw).exec c' (.pcm d (.trigger true)) = none := by
  obtain ⟨c, hplay, hen, hclear⟩ : ∃ c, (cardMachine fun _ => smallHw).playIf
      (fun c l _ => StartClear c l) goodCard raceRun = some c ∧
      (cardMachine fun _ => smallHw).enabled c .unplug ∧ ¬ StartClear c .unplug := by
    refine ⟨_, rfl, ⟨by decide, by decide, ?_⟩, ?_⟩
    · show ¬ Stream.Uses _ _
      decide
    · intro hclear
      exact hclear (.playback, 0) rfl ⟨rfl, rfl⟩
  obtain ⟨ls, c', d, hrun⟩ := unplug_race (Machine.playIf_reachIf (.init goodCard_init) hplay) hen
    hclear
  exact ⟨c, ls, c', d, hplay, hrun⟩

/-! ## The streams of a card -/

/-- `djmt1_disconnect` does not return to where it has not been called. -/
theorem djmt1Disconnect_ne_idle (h : djmt1Disconnect c = some c') : c'.unplug ≠ .idle := by
  unfold djmt1Disconnect at h
  split_ifs at h
  · obtain rfl := Option.some.inj h
    exact UnplugPc.noConfusion
  · unfold unplugChip at h
    split at h
    · cases h
    · cases h
    · cases h
    · obtain rfl := Option.some.inj h
      exact UnplugPc.noConfusion
    · obtain rfl := Option.some.inj h
      exact UnplugPc.noConfusion
    · obtain rfl := Option.some.inj h
      exact UnplugPc.noConfusion
    · obtain rfl := Option.some.inj h
      show (if _ then _ else _) ≠ _
      split_ifs <;> exact UnplugPc.noConfusion
    · split_ifs at h
      obtain rfl := Option.some.inj h
      exact UnplugPc.noConfusion
    · split_ifs at h
      obtain ⟨live, _, h⟩ := Option.bind_eq_some_iff.mp h
      obtain rfl := Option.some.inj h
      exact UnplugPc.noConfusion
    · obtain ⟨live, _, h⟩ := Option.bind_eq_some_iff.mp h
      obtain rfl := Option.some.inj h
      exact UnplugPc.noConfusion
    · obtain rfl := Option.some.inj h
      exact UnplugPc.noConfusion
    · obtain rfl := Option.some.inj h
      exact UnplugPc.noConfusion

/-- **The streams of a card.** Until the device is disconnected, in whatever order the
    steps of the two streams come, what each goes through is a run of that stream alone. -/
theorem card_streams (h : (cardMachine hw).Reach c) (hidle : c.unplug = .idle) (d : Dir) :
    (streamMachine (hw d) d).Reach (c.stream d) := by
  induction h with
  | init h0 =>
    obtain ⟨o, chip, dma, ho, hdma, rfl⟩ := h0
    refine .init ⟨dma d, hdma d, ?_⟩
    exact ((bound_of_probe ho).toCard dma).1 d
  | @step c c' l _ hst _ ih =>
    obtain ⟨hen, hex⟩ := hst
    cases l with
    | opens e => obtain rfl := Option.some.inj hex; exact ih hidle
    | closes e => obtain rfl := Option.some.inj hex; exact ih hidle
    | load e =>
      have hex : loadUrb c e = some c' := hex
      unfold loadUrb at hex
      split at hex
      · cases hex
      · split_ifs at hex
        obtain rfl := Option.some.inj hex
        exact ih hidle
    | disconnect =>
      have hex : (if c.intfdata then some { c with unplug := .stop .capture } else some c) =
        some c' := hex
      split_ifs at hex
      · obtain rfl := Option.some.inj hex
        cases hidle
      · obtain rfl := Option.some.inj hex
        exact ih hidle
    | unplug => exact absurd hidle (djmt1Disconnect_ne_idle hex)
    | free =>
      obtain ⟨live, _, hex⟩ := Option.bind_eq_some_iff.mp hex
      obtain rfl := Option.some.inj hex
      exact ih hidle
    | pcm e l =>
      have hex : pcmExec hw c e l = some c' := hex
      unfold pcmExec at hex
      split_ifs at hex
      obtain ⟨s, hs, hex⟩ := Option.bind_eq_some_iff.mp hex
      obtain rfl := Option.some.inj hex
      have hreach := ih hidle
      by_cases hde : d = e
      · subst hde
        simp only [Function.update_self]
        exact hreach.step ⟨pcmLabel_enabled.mpr hen.1, hs⟩ trivial
      · simp only [Function.update_of_ne hde]
        exact hreach

/-- Both streams are open, and the capture stream is between two submissions. -/
def bothRun : List CardLabel :=
  startPlayback ++ [.opens .capture, .pcm .capture .prepare] ++ submitNext ++
    [.pcm .capture .start, .load .capture, .pcm .capture (.trigger true)]

theorem card_streams_bothRun :
    ∃ c, (cardMachine fun _ => smallHw).play goodCard bothRun = some c ∧ c.unplug = .idle ∧
      ∀ d, (streamMachine smallHw d).Reach (c.stream d) := by
  obtain ⟨c, hplay, hidle⟩ : ∃ c, (cardMachine fun _ => smallHw).play goodCard bothRun = some c ∧
    c.unplug = .idle := ⟨_, rfl, rfl⟩
  exact ⟨c, hplay, hidle, card_streams (Machine.play_reach goodCard_init hplay) hidle⟩

end DjmT1.Kernel
