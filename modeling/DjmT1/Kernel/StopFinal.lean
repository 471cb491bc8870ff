import DjmT1.Kernel.Submission

/-!
# What a stopped stream still does

`djmt1_trigger(STOP)` clears `running`, which `djmt1_in_complete` reads before its
loop over the packets and before it submits its URB, and `djmt1_out_complete` only
before its loop. A STOP that comes later is not noticed, even one that ALSA issues
from `snd_pcm_period_elapsed`, the last action of `djmt1_transfer`.

`stopMachine` is `streamMachine` with a flag that a STOP sets and a START clears.

* `stop_not_final`: after such a STOP the handlers move the position of the stream,
  report periods and submit URBs.
* `stop_final`: where every STOP finds the handler of the stream with nothing left
  to do but to read `running`, none does.
-/

namespace DjmT1.Kernel

open DjmT1.Lib

variable {hw : HwParams} {d : Dir} {s t : Stream}

/-- The stream has been stopped and not been started again. -/
def stopped (g : Bool) (_ : Stream) (l : StreamLabel) (_ : Stream) : Bool :=
  match l with
  | .stop => true
  | .start => false
  | .prepare | .trigger _ | .complete _ _ | .handler _ | .app _ => g

/-- A stream with the flag `stopped`. -/
def stopMachine (hw : HwParams) (d : Dir) : Machine (Stream × Bool) StreamLabel :=
  (streamMachine hw d).observe (fun _ => false) stopped

instance (hw : HwParams) (d : Dir) (e : Stream × Bool) (l : StreamLabel) :
    Decidable ((stopMachine hw d).enabled e l) :=
  inferInstanceAs (Decidable (streamEnabled e.1 l))

/-- A step of the handler moves neither the position of the stream nor calls
    `snd_pcm_period_elapsed`, and does not submit a URB. -/
structure Still (hw : HwParams) (d : Dir) (s : Stream) : Prop where
  pcm : ∀ ok t, completeStep hw d s ok = some t →
    t.pcm.hwptr = s.pcm.hwptr ∧ t.pcm.periodPos = s.pcm.periodPos ∧ t.log.marks = s.log.marks
  submit : ∀ u, s.handler ≠ .submit u

/-- At `pc`, the handler has nothing left to do but to read `running`: it has not read
    it yet, or it is in the loop of `djmt1_in_complete` with only packets left that are
    passed over. -/
def QuietAt (d : Dir) (urb : Fin nurb → Urb) : HandlerPc → Prop
  | .none | .test _ | .resubmit _ => True
  | .packet u i => d = .capture ∧ ∀ j < npkt, i ≤ j → (urb u).Skips j
  | .submit _ => False

instance (d : Dir) (urb : Fin nurb → Urb) : (pc : HandlerPc) → Decidable (QuietAt d urb pc)
  | .none | .test _ | .resubmit _ => inferInstanceAs (Decidable True)
  | .packet u i =>
    inferInstanceAs (Decidable (d = .capture ∧ ∀ j < npkt, i ≤ j → (urb u).Skips j))
  | .submit _ => inferInstanceAs (Decidable False)

/-- The handler of the stream is at such a point. -/
abbrev Quiet (d : Dir) (s : Stream) : Prop := QuietAt d s.urb s.handler

/-- A STOP finds the handler at such a point. -/
def StopsQuiet (d : Dir) (s : Stream) : StreamLabel → Prop
  | .stop => Quiet d s
  | .prepare | .start | .trigger _ | .complete _ _ | .handler _ | .app _ => True

instance (d : Dir) (s : Stream) : (l : StreamLabel) → Decidable (StopsQuiet d s l)
  | .stop => inferInstanceAs (Decidable (Quiet d s))
  | .prepare | .start | .trigger _ | .complete _ _ | .handler _ | .app _ =>
    inferInstanceAs (Decidable True)

/-! ## A STOP that is not noticed -/

/-- The stream is started, and stopped by the call of `snd_pcm_period_elapsed` for the
    first packet of its first URB. -/
def stopInPeriodRun (r : UrbResult) : List StreamLabel :=
  [.prepare, .start] ++ List.replicate 5 (.trigger true) ++
    [.complete 0 r, .handler true, .handler true, .stop]

/-- A URB with eight whole packets. -/
def wholeUrb : UrbResult := ⟨0, fun _ => 864, fun _ => 0, Region.fill urbBytes 7⟩

/-- After a STOP the handler moves the position of either stream, and that of playback
    submits its URB. -/
theorem stop_not_final :
    (∀ d, ∃ s, (stopMachine smallHw d).Reach (s, true) ∧ ∃ t,
      completeStep smallHw d s true = some t ∧ t.pcm.hwptr ≠ s.pcm.hwptr ∧
      t.log.marks ≠ s.log.marks ∧ ¬ Still smallHw d s) ∧
    ∃ s u, (stopMachine smallHw .playback).Reach (s, true) ∧ s.handler = .submit u := by
  refine ⟨?_, ?_⟩
  · intro d
    have hinit : (stopMachine smallHw d).init (probedStream onesRing, false) :=
      ⟨⟨onesRing, rfl, rfl⟩, rfl⟩
    cases d with
    | capture =>
      refine ⟨_, Machine.play_reach hinit (show (stopMachine smallHw .capture).play _
        (stopInPeriodRun wholeUrb) = some (_, true) from rfl), _, rfl, by decide, by decide, ?_⟩
      intro hstill
      exact absurd (hstill.pcm true _ rfl).1 (by decide)
    | playback =>
      refine ⟨_, Machine.play_reach hinit (show (stopMachine smallHw .playback).play _
        (stopInPeriodRun wholeUrb) = some (_, true) from rfl), _, rfl, by decide, by decide, ?_⟩
      intro hstill
      exact absurd (hstill.pcm true _ rfl).1 (by decide)
  · have hinit : (stopMachine smallHw .playback).init (probedStream onesRing, false) :=
      ⟨⟨onesRing, rfl, rfl⟩, rfl⟩
    exact ⟨_, 0, Machine.play_reach hinit (show (stopMachine smallHw .playback).play _
      (stopInPeriodRun wholeUrb ++ List.replicate 8 (.handler true)) = some (_, true) from rfl),
      rfl⟩

/-! ## A STOP that is -/

/-- From such a point, with `running` cleared, the handler goes on to another and does
    nothing else. -/
theorem Quiet.step {ok : Bool} (h : Quiet d s) (hrun : s.running = false)
    (hst : completeStep hw d s ok = some t) :
    ∃ pc, QuietAt d s.urb pc ∧ t = { s with handler := pc } := by
  cases d with
  | capture =>
    cases inComplete_move hst with
    | @leave u => exact ⟨.resubmit u, trivial, rfl⟩
    | enter _ hrun' => exact absurd hrun' (by simp [hrun])
    | @skip u i hh =>
      rw [Quiet, hh] at h
      exact ⟨.packet u (i + 1), ⟨rfl, fun j hj hij => h.2 j hj (by omega)⟩, rfl⟩
    | @transfer u i _ hh hi hskip =>
      rw [Quiet, hh] at h
      exact absurd (h.2 i hi le_rfl) hskip
    | @finish u => exact ⟨.resubmit u, trivial, rfl⟩
    | reset _ hrun' => exact absurd hrun' (by simp [hrun])
    | stop => exact ⟨.none, trivial, rfl⟩
    | submit hh => rw [Quiet, hh] at h; exact h.elim
  | playback =>
    cases outComplete_move hst with
    | leave => exact ⟨.none, trivial, rfl⟩
    | enter _ hrun' => exact absurd hrun' (by simp [hrun])
    | transfer hh => rw [Quiet, hh] at h; exact absurd h.1 (by simp)
    | finish hh => rw [Quiet, hh] at h; exact absurd h.1 (by simp)
    | submit hh => rw [Quiet, hh] at h; exact h.elim

/-- Between a STOP and the next START the handler of the stream finds `running`
    cleared, with nothing left to do but to read it. -/
structure StopInv (d : Dir) (s : Stream) (g : Bool) : Prop where
  running : g → s.running = false
  idle : g → s.control = .idle
  quiet : g → Quiet d s

/-- Where every STOP finds the handler at such a point, so does every step until the
    next START. -/
theorem StopInv.step {l : StreamLabel} {g : Bool} (h : StopInv d s g) (hen : streamEnabled s l)
    (hst : streamExec hw d s l = some t) (hquiet : StopsQuiet d s l) :
    StopInv d t (stopped g s l t) := by
  obtain ⟨hrun, hidle, hq⟩ := h
  cases l with
  | prepare => obtain rfl := Option.some.inj hst; exact ⟨hrun, hidle, hq⟩
  | app dma => obtain rfl := Option.some.inj hst; exact ⟨hrun, hidle, hq⟩
  | start =>
    exact ⟨fun hg => absurd hg Bool.false_ne_true, fun hg => absurd hg Bool.false_ne_true,
      fun hg => absurd hg Bool.false_ne_true⟩
  | stop => obtain rfl := Option.some.inj hst; exact ⟨fun _ => rfl, fun _ => hen, fun _ => hquiet⟩
  | trigger ok =>
    have hg : g ≠ true := fun hg => hen (hidle hg)
    exact ⟨fun h => absurd h hg, fun h => absurd h hg, fun h => absurd h hg⟩
  | complete u r =>
    obtain rfl := Option.some.inj hst
    exact ⟨hrun, hidle, fun _ => trivial⟩
  | handler ok =>
    constructor
    · intro hg
      obtain ⟨pc, _, rfl⟩ := (hq hg).step (hrun hg) hst
      exact hrun hg
    · intro hg
      obtain ⟨pc, _, rfl⟩ := (hq hg).step (hrun hg) hst
      exact hidle hg
    · intro hg
      obtain ⟨pc, hpc, rfl⟩ := (hq hg).step (hrun hg) hst
      exact hpc

theorem Quiet.still (h : Quiet d s) (hrun : s.running = false) : Still hw d s := by
  constructor
  · intro ok t hst
    obtain ⟨pc, _, rfl⟩ := h.step hrun hst
    exact ⟨rfl, rfl, rfl⟩
  · intro u hu
    rw [Quiet, hu] at h
    exact h

/-- **STOP is final.** In every run of either stream in which each STOP finds the
    handler with nothing left to do but to read `running`, no step of the handler
    between a STOP and the next START changes `hwptr` or `period_pos`, calls
    `snd_pcm_period_elapsed` or submits a URB. -/
theorem stop_final {g : Bool}
    (h : (stopMachine hw d).ReachIf (fun e l _ => StopsQuiet d e.1 l) (s, g)) :
    g → Still hw d s := by
  have hinv : StopInv d s g := by
    refine Machine.ReachIf.observe (C := fun s l _ => StopsQuiet d s l) (I := StopInv d) h ?_ ?_
    · rintro s ⟨dma, _, rfl⟩
      exact ⟨fun _ => rfl, fun _ => rfl, fun _ => trivial⟩
    · intro s l t g _ hi hst hquiet
      exact hi.step hst.1 hst.2 hquiet
  exact fun hg => (hinv.quiet hg).still (hinv.running hg)

/-- The stream is stopped when the handler has called `snd_pcm_period_elapsed` for the
    only packet of its URB that brings frames. -/
def stopAfterRun : List StreamLabel :=
  stopInPeriodRun ⟨0, fun i => if i = 0 then 864 else 0, fun _ => 0, Region.fill urbBytes 7⟩

theorem stop_final_stopAfterRun :
    ∃ s, (stopMachine smallHw .capture).playIf (fun e l _ => StopsQuiet .capture e.1 l)
      (probedStream onesRing, false) stopAfterRun = some (s, true) ∧
      (true → Still smallHw .capture s) :=
  ⟨_, rfl, stop_final (Machine.playIf_reachIf (.init ⟨⟨onesRing, rfl, rfl⟩, rfl⟩)
    (show (stopMachine smallHw .capture).playIf (fun e l _ => StopsQuiet .capture e.1 l)
      (probedStream onesRing, false) stopAfterRun = some (_, true) from rfl))⟩

end DjmT1.Kernel
