import DjmT1.Kernel.Handlers

/-!
# No URB is submitted twice

`usb_submit_urb` must not be called on a URB that is in flight. `djmt1_trigger`
submits all URBs of a stream at START without asking where they are, and neither
STOP nor `prepare` waits for those of the previous run.

* `restart_submits_flying`: so a quick restart, and a START after a failed one,
  submit a URB that is in flight.
* `submits_idle`: where every START finds the URBs of the stream back and its
  handler at rest, no URB is ever submitted in flight.
-/

namespace DjmT1.Kernel

open DjmT1.Lib

variable {hw : HwParams} {d : Dir} {s t : Stream}

/-! ## What a step does to the URBs in flight -/

theorem transferStep_frame {u : Fin nurb} {pkt n : ℕ} (h : transferStep hw d s u pkt n = some t) :
    t = { s with pcm := t.pcm, urb := t.urb, log := t.log } := by
  simp only [transferStep, Option.bind_eq_bind, Option.pure_def] at h
  obtain ⟨⟨pcm, buf, elapsed⟩, _, h⟩ := Option.bind_eq_some_iff.mp h
  obtain rfl := Option.some.inj h
  rfl

/-- A step of a completion handler submits its URB and ends, or goes on, or ends,
    with nothing submitted. -/
theorem completeStep_cases {ok : Bool} (h : completeStep hw d s ok = some t) :
    (∃ u, s.handler = .submit u ∧ t = { (usbSubmitUrb s u ok).1 with handler := .none }) ∨
    (t = { s with pcm := t.pcm, urb := t.urb, log := t.log, handler := t.handler } ∧
      (t.handler = .none ∨ t.handler.current = s.handler.current)) := by
  cases d with
  | capture =>
    cases inComplete_move h with
    | leave hh | enter hh | skip hh | finish hh | reset hh =>
      exact .inr ⟨rfl, .inr (by rw [hh]; rfl)⟩
    | transfer hh _ _ ht =>
      rw [transferStep_frame ht]
      exact .inr ⟨rfl, .inr (by rw [hh]; rfl)⟩
    | stop => exact .inr ⟨rfl, .inl rfl⟩
    | submit hh => exact .inl ⟨_, hh, rfl⟩
  | playback =>
    cases outComplete_move h with
    | leave => exact .inr ⟨rfl, .inl rfl⟩
    | enter hh | finish hh => exact .inr ⟨rfl, .inr (by rw [hh]; rfl)⟩
    | transfer hh _ ht =>
      rw [transferStep_frame ht]
      exact .inr ⟨rfl, .inr (by rw [hh]; rfl)⟩
    | submit hh => exact .inl ⟨_, hh, rfl⟩

/-- `usb_submit_urb` puts its URB in flight or does nothing. -/
theorem usbSubmitUrb_cases (s : Stream) (u : Fin nurb) (ok : Bool) :
    usbSubmitUrb s u ok = ({ s with flying := insert u s.flying }, true) ∨
    usbSubmitUrb s u ok = (s, false) := by
  unfold usbSubmitUrb
  split_ifs
  · exact .inl rfl
  · exact .inr rfl

/-- It touches nothing else. -/
theorem usbSubmitUrb_frame (s : Stream) (u : Fin nurb) (ok : Bool) :
    (usbSubmitUrb s u ok).1 = { s with flying := (usbSubmitUrb s u ok).1.flying } := by
  rcases usbSubmitUrb_cases s u ok with hsub | hsub
  · rw [hsub]
  · rw [hsub]

/-- The START loop goes on until it returns. -/
theorem triggerStep_defined (h : s.control ≠ .idle) (ok : Bool) :
    ∃ t, triggerStep s ok = some t := by
  unfold triggerStep
  cases hctl : s.control with
  | idle => exact absurd hctl h
  | start rest =>
    cases rest with
    | nil => exact ⟨_, rfl⟩
    | cons u rest =>
      rcases usbSubmitUrb_cases s u ok with hsub | hsub
      · simp only [hsub]
        exact ⟨_, rfl⟩
      · simp only [hsub]
        exact ⟨_, rfl⟩

/-- A turn of the START loop is its return, submits the next URB, or fails. -/
theorem triggerStep_cases {ok : Bool} (h : triggerStep s ok = some t) :
    (s.control = .start [] ∧ t = { s with control := .idle, state := .running }) ∨
    (∃ u rest, s.control = .start (u :: rest) ∧
      t = { s with flying := insert u s.flying, control := .start rest }) ∨
    (∃ u rest, s.control = .start (u :: rest) ∧
      t = { s with running := false, control := .idle }) := by
  unfold triggerStep at h
  cases hctl : s.control with
  | idle => rw [hctl] at h; cases h
  | start rest =>
    rw [hctl] at h
    cases rest with
    | nil => exact .inl ⟨rfl, (Option.some.inj h).symm⟩
    | cons u rest =>
      rcases usbSubmitUrb_cases s u ok with hsub | hsub
      · simp only [hsub] at h
        exact .inr (.inl ⟨u, rest, rfl, (Option.some.inj h).symm⟩)
      · simp only [hsub] at h
        exact .inr (.inr ⟨u, rest, rfl, (Option.some.inj h).symm⟩)

/-! ## Submissions -/

/-- The URBs on which `usb_submit_urb` is about to be called, by `djmt1_trigger` and
    by the completion handler. -/
def Stream.submits (s : Stream) : List (Fin nurb) :=
  (match s.control with
    | .start (u :: _) => [u]
    | .start [] | .idle => []) ++
  (match s.handler with
    | .submit u => [u]
    | .none | .test _ | .packet _ _ | .resubmit _ => [])

/-- No URB about to be submitted is in flight. -/
def SubmitsIdle (s : Stream) : Prop := ∀ u ∈ s.submits, u ∉ s.flying

/-- A START finds all URBs of the stream back and no handler executing. -/
def StartsIdle (s : Stream) : StreamLabel → Prop
  | .start => s.flying = ∅ ∧ s.handler = .none
  | _ => True

instance (s : Stream) : (l : StreamLabel) → Decidable (StartsIdle s l)
  | .start => inferInstanceAs (Decidable (s.flying = ∅ ∧ s.handler = .none))
  | .prepare | .stop | .trigger _ | .complete _ _ | .handler _ | .app _ =>
    inferInstanceAs (Decidable True)

/-! ## Two ways to submit a URB twice -/

/-- The smallest buffer that `djmt1_hw` admits: two periods of one packet. -/
def smallHw : HwParams := ⟨96, 48, by decide, by decide, by decide, by decide, by decide⟩

/-- A ring of that size that holds ones. -/
def onesRing : Region Byte := Region.fill 1728 1

/-- The stream is started, stopped and, with all URBs still in flight, prepared and
    started again. -/
def restartRun : List StreamLabel :=
  [.prepare, .start] ++ List.replicate 5 (.trigger true) ++ [.stop, .prepare, .start]

/-- START fails at the second URB, with the first in flight, and is issued again. -/
def retryRun : List StreamLabel := [.prepare, .start, .trigger true, .trigger false, .start]

/-- A START submits a URB that is in flight, after a restart and after a failure. -/
theorem restart_submits_flying :
    (∃ s, (streamMachine smallHw .playback).play (probedStream onesRing) restartRun = some s ∧
      (streamMachine smallHw .playback).Reach s ∧ ¬ SubmitsIdle s) ∧
    (∃ s, (streamMachine smallHw .capture).play (probedStream onesRing) retryRun = some s ∧
      (streamMachine smallHw .capture).Reach s ∧ ¬ SubmitsIdle s) := by
  constructor
  · refine ⟨_, rfl, Machine.play_reach ⟨onesRing, rfl, rfl⟩
      (show (streamMachine smallHw .playback).play (probedStream onesRing) restartRun = some _ from
        rfl), ?_⟩
    intro hidle
    exact absurd (hidle 0 List.mem_cons_self) (by decide)
  · refine ⟨_, rfl, Machine.play_reach ⟨onesRing, rfl, rfl⟩
      (show (streamMachine smallHw .capture).play (probedStream onesRing) retryRun = some _ from
        rfl), ?_⟩
    intro hidle
    exact absurd (hidle 0 List.mem_cons_self) (by decide)

/-! ## Submissions where every START finds the stream at rest -/

/-- The URBs that a START has yet to submit, and the one whose handler is executing,
    are not in flight. -/
structure SubmitInv (s : Stream) : Prop where
  current : ∀ u ∈ s.handler.current, u ∉ s.flying
  rest : ∀ rest, s.control = .start rest →
    rest.Nodup ∧ ∀ u ∈ rest, u ∉ s.flying ∧ u ∉ s.handler.current

theorem SubmitInv.idle (h : SubmitInv s) : SubmitsIdle s := by
  intro u hu
  rcases List.mem_append.mp hu with hc | hh
  · cases hctl : s.control with
    | idle => rw [hctl] at hc; exact absurd hc List.not_mem_nil
    | start rest =>
      rw [hctl] at hc
      cases rest with
      | nil => exact absurd hc List.not_mem_nil
      | cons v rest =>
        rw [List.mem_singleton.mp hc]
        exact ((h.rest _ hctl).2 v List.mem_cons_self).1
  · cases hhd : s.handler with
    | submit v =>
      rw [hhd] at hh
      rw [List.mem_singleton.mp hh]
      exact h.current v (by rw [hhd]; rfl)
    | _ => rw [hhd] at hh; exact absurd hh List.not_mem_nil

/-- A step that submits nothing, after which no other handler is executing. -/
theorem SubmitInv.mono (h : SubmitInv s) (hctl : t.control = s.control)
    (hfly : t.flying = s.flying) (hcur : ∀ v ∈ t.handler.current, v ∈ s.handler.current) :
    SubmitInv t := by
  constructor
  · intro v hv
    rw [hfly]
    exact h.current v (hcur v hv)
  · intro rest hrest
    rw [hctl] at hrest
    obtain ⟨hnd, hidle⟩ := h.rest rest hrest
    rw [hfly]
    exact ⟨hnd, fun v hv => ⟨(hidle v hv).1, fun hc => (hidle v hv).2 (hcur v hc)⟩⟩

/-- A step of a handler leaves the rest of the stream as it is, or submits the
    handler's own URB. -/
theorem SubmitInv.complete {ok : Bool} (h : SubmitInv s) (hst : completeStep hw d s ok = some t) :
    SubmitInv t := by
  rcases completeStep_cases hst with ⟨u, hu, rfl⟩ | ⟨heq, hcur⟩
  · have hcur : u ∈ s.handler.current := by rw [hu]; rfl
    rcases usbSubmitUrb_cases s u ok with hsub | hsub
    · rw [hsub]
      refine ⟨fun v hv => absurd hv (Option.not_mem_none v), ?_⟩
      intro rest hrest
      obtain ⟨hnd, hidle⟩ := h.rest rest hrest
      refine ⟨hnd, ?_⟩
      intro v hv
      refine ⟨?_, Option.not_mem_none v⟩
      rw [Finset.mem_insert, not_or]
      exact ⟨fun he => (hidle v hv).2 (he ▸ hcur), (hidle v hv).1⟩
    · rw [hsub]
      exact h.mono rfl rfl fun v hv => absurd hv (Option.not_mem_none v)
  · have hfly : t.flying = s.flying := by rw [heq]
    have hctl : t.control = s.control := by rw [heq]
    apply h.mono hctl hfly
    intro v hv
    rcases hcur with hn | he
    · rw [hn] at hv
      exact absurd hv (Option.not_mem_none v)
    · exact he ▸ hv

/-- A turn of the START loop submits the next URB, which was at rest. -/
theorem SubmitInv.trigger {ok : Bool} (h : SubmitInv s) (hst : triggerStep s ok = some t) :
    SubmitInv t := by
  rcases triggerStep_cases hst with ⟨_, rfl⟩ | ⟨u, rest, hctl, rfl⟩ | ⟨u, rest, _, rfl⟩
  · exact ⟨h.current, fun rest hrest => by cases hrest⟩
  · obtain ⟨hnd, hidle⟩ := h.rest _ hctl
    obtain ⟨hu, hnd⟩ := List.nodup_cons.mp hnd
    constructor
    · intro v hv
      rw [Finset.mem_insert, not_or]
      refine ⟨fun he => ?_, h.current v hv⟩
      exact (hidle u List.mem_cons_self).2 (he ▸ hv)
    · rintro _ ⟨⟩
      refine ⟨hnd, ?_⟩
      intro v hv
      have hv' := hidle v (List.mem_cons_of_mem u hv)
      rw [Finset.mem_insert, not_or]
      exact ⟨⟨fun he => hu (he ▸ hv), hv'.1⟩, hv'.2⟩
  · exact ⟨h.current, fun rest hrest => by cases hrest⟩

/-- Every step keeps `SubmitInv`, a START by what it is required to find. -/
theorem SubmitInv.step {l : StreamLabel} (h : SubmitInv s) (hen : streamEnabled s l)
    (hst : streamExec hw d s l = some t) (hidle : StartsIdle s l) : SubmitInv t := by
  cases l with
  | prepare => obtain rfl := Option.some.inj hst; exact h.mono rfl rfl fun _ hv => hv
  | stop => obtain rfl := Option.some.inj hst; exact h.mono rfl rfl fun _ hv => hv
  | app dma => obtain rfl := Option.some.inj hst; exact h.mono rfl rfl fun _ hv => hv
  | start =>
    obtain rfl := Option.some.inj hst
    obtain ⟨hfly, hhd⟩ := hidle
    refine ⟨h.current, ?_⟩
    rintro _ ⟨⟩
    refine ⟨List.nodup_finRange nurb, ?_⟩
    intro u _
    simp only [triggerStart, hfly, hhd]
    exact ⟨Finset.notMem_empty u, Option.not_mem_none u⟩
  | trigger ok => exact h.trigger hst
  | complete u r =>
    obtain rfl := Option.some.inj hst
    constructor
    · rintro v ⟨⟩
      exact Finset.notMem_erase u s.flying
    · intro rest hrest
      obtain ⟨hnd, hall⟩ := h.rest rest hrest
      refine ⟨hnd, ?_⟩
      intro v hv
      refine ⟨fun hm => (hall v hv).1 (Finset.mem_of_mem_erase hm), ?_⟩
      intro hc
      obtain rfl : u = v := Option.some.inj hc
      exact (hall u hv).1 hen.1
  | handler ok => exact h.complete hst

/-- **No double submission.** In every run in which each START finds the URBs of the
    stream back and its handler at rest, every `usb_submit_urb` is on a URB that is
    not in flight. -/
theorem submits_idle (h : (streamMachine hw d).ReachIf (fun s l _ => StartsIdle s l) s) :
    SubmitsIdle s := by
  refine SubmitInv.idle (h.invariant ?_ ?_)
  · rintro s ⟨dma, _, rfl⟩
    exact ⟨fun u hu => absurd hu (Option.not_mem_none u), fun rest hrest => by cases hrest⟩
  · intro s l t _ hi hstep hidle
    exact hi.step hstep.1 hstep.2 hidle

/-- The stream is started, stopped, and started again when its URBs are back. -/
def patientRun : List StreamLabel :=
  let idle : UrbResult := ⟨0, fun _ => 0, fun _ => 0, Region.fill urbBytes 0⟩
  [.prepare, .start] ++ List.replicate 5 (.trigger true) ++ [.stop] ++
    (List.finRange nurb).flatMap (fun u => [.complete u idle, .handler true]) ++
    [.prepare, .start, .trigger true]

theorem submits_idle_patientRun :
    ∃ s, (streamMachine smallHw .playback).playIf (fun s l _ => StartsIdle s l)
      (probedStream onesRing) patientRun = some s ∧ SubmitsIdle s := by
  obtain ⟨s, hplay⟩ : ∃ s, (streamMachine smallHw .playback).playIf (fun s l _ => StartsIdle s l)
    (probedStream onesRing) patientRun = some s := ⟨_, rfl⟩
  exact ⟨s, hplay, submits_idle (Machine.playIf_reachIf (.init ⟨onesRing, rfl, rfl⟩) hplay)⟩

end DjmT1.Kernel
