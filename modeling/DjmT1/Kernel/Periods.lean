import DjmT1.Kernel.RingContents

/-!
# Period notifications

The frames of a stream are counted where they come from: on capture in the packets that
the USB core has reported, on playback in the packets that have been filled. Where `T`
frames have been counted since the last `prepare`, the ring position is `T mod B`, the
period position `T mod P`, and `snd_pcm_period_elapsed` has been called once for each
multiple of `P` up to `T` (`period_accounting`).

* `step_marks`: a step calls it at most once, when its frames have been moved.
* `handed_inv`: what the handlers were given is what has been moved.
-/

namespace DjmT1.Kernel

open DjmT1.Lib

variable {hw : HwParams} {d : Dir} {s t : Stream}

/-- What an observer of the packets has seen since the stream was prepared. -/
structure Handed where
  /-- what the USB core has delivered -/
  received : Received
  /-- the packets filled -/
  placed : List Placed
  /-- the frames counted at each call of `snd_pcm_period_elapsed` -/
  calls : List ℕ

/-- The frames of the packets: those of the good ones on capture, 48 a packet on
    playback. -/
def Handed.total (d : Dir) (g : Handed) : ℕ :=
  match d with
  | .capture => g.received.frames.length
  | .playback => framesPerPkt * g.placed.length

/-- The step has called `snd_pcm_period_elapsed`. -/
def Elapsed (s t : Stream) : Prop := s.log.marks.length < t.log.marks.length

instance (s t : Stream) : Decidable (Elapsed s t) :=
  inferInstanceAs (Decidable (_ < _))

/-- What has been seen after a step from `s` to `t`. -/
def Handed.next (d : Dir) (g : Handed) (s : Stream) (l : StreamLabel) (t : Stream) : Handed :=
  let calls :=
    match l with
    | .prepare => []
    | .start | .stop | .trigger _ | .complete _ _ | .handler _ | .app _ => g.calls
  let g : Handed := ⟨g.received.next s l t, Placed.next g.placed s l t, calls⟩
  if Elapsed s t then { g with calls := g.calls ++ [g.total d] } else g

/-- A stream and an observer of its packets. -/
def handedMachine (hw : HwParams) (d : Dir) : Machine (Stream × Handed) StreamLabel :=
  (streamMachine hw d).observe (fun s => ⟨⟨s.pcm.dma, 0, none, []⟩, [], []⟩) (Handed.next d)

/-- `djmt1_pointer` (lines 245-252). -/
def djmt1Pointer (s : Stream) : ℕ := s.pcm.hwptr

/-! ## Calls of `snd_pcm_period_elapsed` -/

/-- `snd_pcm_period_elapsed` has not been called, or once, when all frames of the step
    had been moved. -/
def Marked (s t : Stream) : Prop :=
  t.log.marks = s.log.marks ∨ t.log.marks = s.log.marks ++ [t.log.moved.length]

theorem transferStep_marks {u : Fin nurb} {pkt n : ℕ}
    (ht : transferStep hw d s u pkt n = some t) : Marked s t := by
  obtain ⟨⟨pcm, buf, elapsed⟩, _, ht⟩ := Option.bind_eq_some_iff.mp ht
  obtain rfl := Option.some.inj ht
  cases elapsed with
  | false => exact .inl rfl
  | true => exact .inr rfl

theorem inComplete_marks {ok : Bool} (h : inComplete hw s ok = some t) : Marked s t := by
  cases inComplete_move h with
  | leave | enter | skip | finish | reset | stop => exact .inl rfl
  | transfer _ _ _ ht => exact (transferStep_marks ht :)
  | submit =>
    rw [usbSubmitUrb_frame]
    exact .inl rfl

theorem outComplete_marks {ok : Bool} (h : outComplete hw s ok = some t) : Marked s t := by
  cases outComplete_move h with
  | leave | enter | finish => exact .inl rfl
  | transfer _ _ ht => exact (transferStep_marks ht :)
  | submit =>
    rw [usbSubmitUrb_frame]
    exact .inl rfl

/-- A step calls `snd_pcm_period_elapsed` at most once. -/
theorem step_marks {l : StreamLabel} (hst : (streamMachine hw d).Step s l t) :
    (l = .prepare ∧ t.log.marks = []) ∨ (l ≠ .prepare ∧ Marked s t) := by
  obtain ⟨_, hst⟩ := hst
  cases l with
  | prepare =>
    obtain rfl := Option.some.inj hst
    exact .inl ⟨rfl, rfl⟩
  | start | stop | app | complete =>
    obtain rfl := Option.some.inj hst
    exact .inr ⟨by simp, .inl rfl⟩
  | handler ok =>
    refine .inr ⟨by simp, ?_⟩
    cases d with
    | capture => exact inComplete_marks hst
    | playback => exact outComplete_marks hst
  | trigger ok =>
    refine .inr ⟨by simp, .inl ?_⟩
    rcases triggerStep_cases hst with ⟨_, rfl⟩ | ⟨u, rest, _, rfl⟩ | ⟨u, rest, _, rfl⟩
    · rfl
    · rfl
    · rfl

/-! ## What the handlers were given -/

/-- The packets brought as many frames as have been moved. -/
structure HandedInv (hw : HwParams) (d : Dir) (s : Stream) (g : Handed) : Prop where
  capture : d = .capture → CaptureInv hw s g.received
  playback : d = .playback → PlaybackInv hw s g.placed
  calls : g.calls = s.log.marks

theorem HandedInv.total {g : Handed} (h : HandedInv hw d s g) :
    g.total d = s.log.moved.length := by
  cases d with
  | capture => exact congrArg List.length (h.capture rfl).frames
  | playback => exact (h.playback rfl).count.symm

/-- An observer that has seen a step, apart from the calls. -/
theorem Handed.next_eq (g : Handed) (l : StreamLabel) :
    (g.next d s l t).received = g.received.next s l t ∧
    (g.next d s l t).placed = Placed.next g.placed s l t := by
  unfold Handed.next
  split_ifs
  · exact ⟨rfl, rfl⟩
  · exact ⟨rfl, rfl⟩

/-- The calls are counted as the driver makes them. -/
theorem HandedInv.calls_step {g : Handed} {l : StreamLabel} (h : HandedInv hw d s g)
    (hst : (streamMachine hw d).Step s l t)
    (htotal : (g.next d s l t).total d = t.log.moved.length) :
    (g.next d s l t).calls = t.log.marks := by
  rcases step_marks hst with ⟨rfl, hnil⟩ | ⟨hl, hsame | hcall⟩
  · have hno : ¬ Elapsed s t := by
      rw [Elapsed, hnil]
      exact Nat.not_lt_zero _
    unfold Handed.next
    rw [if_neg hno, hnil]
  · have hno : ¬ Elapsed s t := by
      rw [Elapsed, hsame]
      exact lt_irrefl _
    unfold Handed.next
    rw [if_neg hno, hsame, ← h.calls]
    cases l with
    | prepare => exact absurd rfl hl
    | start | stop | trigger | complete | handler | app => rfl
  · have hyes : Elapsed s t := by
      rw [Elapsed, hcall, List.length_append]
      exact Nat.lt_succ_self _
    unfold Handed.next at htotal ⊢
    rw [if_pos hyes] at htotal ⊢
    rw [hcall, ← h.calls]
    refine congrArg₂ (fun a b => a ++ [b]) ?_ htotal
    cases l with
    | prepare => exact absurd rfl hl
    | start | stop | trigger | complete | handler | app => rfl

/-- Every step keeps the packets and the frames moved together. -/
theorem HandedInv.step {g : Handed} {l : StreamLabel} (h : HandedInv hw d s g)
    (hinv : StreamInv hw d s) (hst : (streamMachine hw d).Step s l t) :
    HandedInv hw d t (g.next d s l t) := by
  obtain ⟨hreceived, hplaced⟩ := Handed.next_eq (d := d) (s := s) (t := t) g l
  have hc : d = .capture → CaptureInv hw t (g.next d s l t).received := by
    rintro rfl
    rw [hreceived]
    exact (h.capture rfl).step hinv hst
  have hp : d = .playback → PlaybackInv hw t (g.next d s l t).placed := by
    rintro rfl
    rw [hplaced]
    exact (h.playback rfl).step hinv hst
  refine ⟨hc, hp, h.calls_step hst ?_⟩
  cases d with
  | capture => exact congrArg List.length (hc rfl).frames
  | playback => exact (hp rfl).count.symm

theorem handed_inv {e : Stream × Handed} (h : (handedMachine hw d).Reach e) :
    HandedInv hw d e.1 e.2 := by
  refine Machine.ReachIf.observe (C := fun _ _ _ => True) (I := HandedInv hw d) h ?_ ?_
  · rintro s ⟨dma, _, rfl⟩
    refine ⟨fun _ => ⟨rfl, le_rfl, Latest.refl _ _ [], ?_⟩, fun _ => ⟨rfl, ?_, ?_, ?_, ?_⟩, rfl⟩
    · intro u hu
      exact absurd hu (by simp [probedStream, HandlerPc.current])
    · exact fun m hm => absurd hm (Nat.not_lt_zero m)
    · exact fun x hx => absurd hx List.not_mem_nil
    · exact List.isChain_nil
    · exact fun x hx => absurd hx (by simp)
  · intro s l t g hr hI hst _
    exact hI.step (stream_inv hr) hst

/-! ## The accounts -/

/-- **Accounting.** In every state of every run, where the packets handled since the
    last `prepare` brought `T` frames: the ring position is `T mod B` and the period
    position `T mod P`; `snd_pcm_period_elapsed` has been called `T / P` times; fewer
    than `B` frames lie between `prepare` and its first call, between one call and the
    next, and between the last call and now, so that `T` can be recovered from
    `djmt1_pointer`; and no step that may be taken is undefined. -/
theorem period_accounting {e : Stream × Handed} (h : (handedMachine hw d).Reach e) :
    e.1.pcm.hwptr = e.2.total d % hw.bufferSize ∧
    e.1.pcm.periodPos = e.2.total d % hw.periodSize ∧
    e.2.calls.length = e.2.total d / hw.periodSize ∧
    (0 :: e.2.calls).IsChain (fun a b => a ≤ b ∧ b < a + hw.bufferSize) ∧
    e.2.total d = lastMark e.2.calls +
      (djmt1Pointer e.1 + hw.bufferSize - lastMark e.2.calls % hw.bufferSize) %
        hw.bufferSize ∧
    (handedMachine hw d).Defined e := by
  have hinv := stream_inv (Machine.ReachIf.unobserved (C := fun _ _ _ => True) h)
  have hhanded := handed_inv h
  have hP := hw.period_ge
  have hB := hw.buffer_ge
  rw [hhanded.total, hhanded.calls]
  refine ⟨hinv.hwptr, hinv.periodPos, hinv.marks.length, ?_, ?_, ?_⟩
  · refine hinv.marks.apart.imp ?_
    intro a b hab
    omega
  · rw [djmt1Pointer, hinv.hwptr]
    have hlt := hinv.marks.lt (by omega)
    exact recover_mod hinv.marks.le (by omega)
  · intro l hl
    obtain ⟨t, ht, _⟩ := hinv.step hl
    exact Option.isSome_iff_exists.mpr ⟨_, Option.map_eq_some_iff.mpr ⟨t, ht, rfl⟩⟩

instance (e : Stream × Handed) (l : StreamLabel) :
    Decidable ((handedMachine hw d).enabled e l) :=
  inferInstanceAs (Decidable (streamEnabled e.1 l))

/-- A whole packet and two frames of the next are received: 50 frames, and one call. -/
theorem period_accounting_periodRun :
    ∃ e, (handedMachine smallHw .capture).play
        (probedStream onesRing, ⟨⟨onesRing, 0, none, []⟩, [], []⟩) periodRun = some e ∧
      e.2.total .capture = 50 ∧ e.2.calls = [48] ∧
      e.1.pcm.hwptr = e.2.total .capture % 96 ∧ e.1.pcm.periodPos = e.2.total .capture % 48 ∧
      e.2.calls.length = e.2.total .capture / 48 ∧
      (0 :: e.2.calls).IsChain (fun a b => a ≤ b ∧ b < a + 96) ∧
      e.2.total .capture = lastMark e.2.calls +
        (djmt1Pointer e.1 + 96 - lastMark e.2.calls % 96) % 96 ∧
      (handedMachine smallHw .capture).Defined e := by
  have hrun : ∃ e, (handedMachine smallHw .capture).play
      (probedStream onesRing, ⟨⟨onesRing, 0, none, []⟩, [], []⟩) periodRun = some e ∧
      e.2.total .capture = 50 ∧ e.2.calls = [48] := ⟨_, rfl, rfl, rfl⟩
  obtain ⟨e, he, htotal, hcalls⟩ := hrun
  exact ⟨e, he, htotal, hcalls,
    period_accounting (Machine.play_reach ⟨⟨onesRing, rfl, rfl⟩, rfl⟩ he)⟩

end DjmT1.Kernel
