import DjmT1.Kernel.Accounting

/-!
# No audio of an earlier run

What is in an OUT URB when it is submitted goes to the device. `djmt1_alloc_urbs`
zeroes the buffers once; afterwards only `djmt1_out_complete` writes them, and
neither `prepare` nor START does, so a restart plays what the previous run left.

* `restart_plays_stale`: a START submits a frame copied before the last `prepare`.
* `no_stale_frames`: where every `prepare` finds the buffers silent, each frame
  submitted is silent or was copied from the PCM ring since `prepare`.
-/

namespace DjmT1.Kernel

open DjmT1.Lib

variable {hw : HwParams} {s t : Stream}

/-- The frames of a URB buffer. -/
abbrev urbFrames : ℕ := npkt * framesPerPkt

/-- Frame `k` of the buffer is silence. -/
def Urb.Silent (x : Urb) (k : ℕ) : Prop :=
  x.transferBuffer.block frameBytes k = List.replicate frameBytes 0

instance (x : Urb) (k : ℕ) : Decidable (x.Silent k) := inferInstanceAs (Decidable (_ = _))

/-- Frame `k` of URB `u` is silence, or was copied from the PCM ring since the last
    `prepare`. -/
def FrameOk (s : Stream) (u : Fin nurb) (k : ℕ) : Prop :=
  s.log.fresh u k = true ∨ (s.urb u).Silent k

/-- A `prepare` finds silence in all URB buffers. -/
def PreparesSilent (s : Stream) : StreamLabel → Prop
  | .prepare => ∀ u, ∀ k < urbFrames, (s.urb u).Silent k
  | _ => True

instance (s : Stream) : (l : StreamLabel) → Decidable (PreparesSilent s l)
  | .prepare => inferInstanceAs (Decidable (∀ u, ∀ k < urbFrames, (s.urb u).Silent k))
  | .start | .stop | .trigger _ | .complete _ _ | .handler _ | .app _ =>
    inferInstanceAs (Decidable True)

/-! ## A restart -/

/-- One URB is refilled and submitted again before the stream is stopped; when all
    URBs are back, the stream is prepared and started again. -/
def staleRun : List StreamLabel :=
  let idle : UrbResult := ⟨0, fun _ => 0, fun _ => 0, Region.fill urbBytes 0⟩
  [.prepare, .start] ++ List.replicate 5 (.trigger true) ++
    .complete 0 idle :: List.replicate 11 (.handler true) ++ [.stop] ++
    (List.finRange nurb).flatMap (fun u => [.complete u idle, .handler true]) ++ [.prepare, .start]

/-- A START submits a frame of the previous run. -/
theorem restart_plays_stale :
    ∃ s, (streamMachine smallHw .playback).Reach s ∧ s.submits = [0] ∧ ¬ FrameOk s 0 0 := by
  refine ⟨_, Machine.play_reach ⟨onesRing, rfl, rfl⟩
    (show (streamMachine smallHw .playback).play (probedStream onesRing) staleRun = some _
      from rfl), rfl, ?_⟩
  rintro (hfresh | hsilent)
  · exact absurd hfresh (by decide +kernel)
  · exact absurd (congrArg List.head? hsilent) (by decide +kernel)

/-! ## Buffers that are silent when the stream is prepared -/

/-- Every frame of every URB is silence or of the current run. -/
def FramesOk (s : Stream) : Prop := ∀ u, ∀ k < urbFrames, FrameOk s u k

/-- Steps that leave the buffers and the record of the copies alone. -/
theorem FramesOk.congr (h : FramesOk s) (hfresh : t.log.fresh = s.log.fresh)
    (hbuf : ∀ u, (t.urb u).transferBuffer = (s.urb u).transferBuffer) : FramesOk t := by
  intro u k hk
  unfold FrameOk Urb.Silent
  rw [hfresh, hbuf u]
  exact h u k hk

/-- `djmt1_transfer` of frames `p .. p+n` of the buffer: these become fresh, and no
    other frame changes. -/
theorem FramesOk.transfer (h : FramesOk s) (hinv : StreamInv hw .playback s) {u : Fin nurb}
    {p n : ℕ} (hn : n ≤ 48) (hp : p + n ≤ 384)
    (ht : transferStep hw .playback s u (p * frameBytes) n = some t) : FramesOk t := by
  obtain ⟨dma', buf', htr, _, _, _, _, hrest⟩ := djmt1Transfer_spec false hinv.pcmOk hn
    ((hinv.urb u).fits hp)
  simp only [transferStep, Dir.isCapture, Option.bind_eq_bind, htr, Option.bind_some,
    Option.pure_def] at ht
  obtain rfl := Option.some.inj ht
  intro v k hk
  by_cases hin : v = u ∧ p ≤ k ∧ k < p + n
  · obtain ⟨rfl, hpk, hkn⟩ := hin
    left
    simp only [frameBytes, Bool.or_eq_true, Bool.and_eq_true, beq_self_eq_true, Bool.not_false,
      decide_eq_true_eq, true_and]
    right
    omega
  · rcases h v k hk with hfresh | hsilent
    · left
      simp only [hfresh, Bool.true_or]
    · right
      unfold Urb.Silent
      by_cases hv : v = u
      · subst hv
        simp only [Function.update_self]
        rw [hrest k (by tauto)]
        exact hsilent
      · simp only [Function.update_of_ne hv]
        exact hsilent

/-- A step of `djmt1_out_complete` keeps the frames in order. -/
theorem FramesOk.outComplete (h : FramesOk s) (hinv : StreamInv hw .playback s) {ok : Bool}
    (hst : outComplete hw s ok = some t) : FramesOk t := by
  cases outComplete_move hst with
  | leave | enter | finish => exact h.congr rfl fun _ => rfl
  | @transfer u i t hh hi ht =>
    have hreset : FramesOk { s with
        urb := Function.update s.urb u ((s.urb u).resetPacket i) } := by
      refine h.congr rfl fun v => ?_
      by_cases hv : v = u
      · subst hv
        simp only [Function.update_self]
        rfl
      · simp only [Function.update_of_ne hv]
    rw [pkt_offset] at ht
    have hok := hreset.transfer (hinv.resetPacket u i) (p := i * 48) le_rfl (pkt_fits hi) ht
    exact hok.congr rfl fun _ => rfl
  | submit =>
    rw [usbSubmitUrb_frame]
    exact h.congr rfl fun _ => rfl

/-- Every step keeps the frames in order, a `prepare` by what it is required to
    find. -/
theorem FramesOk.step {l : StreamLabel} (h : FramesOk s) (hinv : StreamInv hw .playback s)
    (hst : streamExec hw .playback s l = some t) (hsilent : PreparesSilent s l) : FramesOk t := by
  cases l with
  | prepare =>
    obtain rfl := Option.some.inj hst
    intro u k hk
    exact .inr (hsilent u k hk)
  | start => obtain rfl := Option.some.inj hst; exact h.congr rfl fun _ => rfl
  | stop => obtain rfl := Option.some.inj hst; exact h.congr rfl fun _ => rfl
  | app dma => obtain rfl := Option.some.inj hst; exact h.congr rfl fun _ => rfl
  | handler ok => exact h.outComplete hinv hst
  | complete u r =>
    obtain rfl := Option.some.inj hst
    refine h.congr rfl fun v => ?_
    by_cases hv : v = u
    · subst hv
      simp only [Function.update_self]
      rfl
    · simp only [Function.update_of_ne hv]
  | trigger ok =>
    rcases triggerStep_cases hst with ⟨_, rfl⟩ | ⟨u, rest, _, rfl⟩ | ⟨u, rest, _, rfl⟩
    · exact h.congr rfl fun _ => rfl
    · exact h.congr rfl fun _ => rfl
    · exact h.congr rfl fun _ => rfl

/-- **No stale audio.** In every run of the playback stream in which each `prepare`
    finds silence in the URB buffers, every frame of a URB that is being submitted
    is silence or was copied from the PCM ring since the last `prepare`. -/
theorem no_stale_frames
    (h : (streamMachine hw .playback).ReachIf (fun s l _ => PreparesSilent s l) s) :
    ∀ u ∈ s.submits, ∀ k < urbFrames, FrameOk s u k := by
  have hok : FramesOk s := by
    apply h.invariant
    · rintro s ⟨dma, _, rfl⟩ u k hk
      refine .inr ?_
      unfold Urb.Silent
      exact Region.slice_fill _ _ _ _
    · intro s l t hr hi hstep hsilent
      exact hi.step (stream_inv hr.reach) hstep.2 hsilent
  intro u _ k hk
  exact hok u k hk

/-- The stream is prepared and started for the first time, and one URB is refilled. -/
def firstRun : List StreamLabel :=
  let idle : UrbResult := ⟨0, fun _ => 0, fun _ => 0, Region.fill urbBytes 0⟩
  .start :: List.replicate 5 (.trigger true) ++
    .complete 0 idle :: List.replicate 10 (.handler true)

theorem no_stale_frames_firstRun :
    ∃ s, (streamMachine smallHw .playback).playIf (fun s l _ => PreparesSilent s l)
      (djmt1Prepare (probedStream onesRing)) firstRun = some s ∧
    ∀ u ∈ s.submits, ∀ k < urbFrames, FrameOk s u k := by
  obtain ⟨s, hplay⟩ : ∃ s, (streamMachine smallHw .playback).playIf
    (fun s l _ => PreparesSilent s l) (djmt1Prepare (probedStream onesRing)) firstRun = some s :=
    ⟨_, rfl⟩
  have hsilent : PreparesSilent (probedStream onesRing) .prepare :=
    fun _ _ _ => Region.slice_fill _ _ _ _
  have hr : (streamMachine smallHw .playback).ReachIf (fun s l _ => PreparesSilent s l)
      (djmt1Prepare (probedStream onesRing)) :=
    .step (l := .prepare) (.init ⟨onesRing, rfl, rfl⟩) ⟨⟨rfl, by decide⟩, rfl⟩ hsilent
  exact ⟨s, hplay, no_stale_frames (Machine.playIf_reachIf hr hplay)⟩

end DjmT1.Kernel
