import DjmT1.Midi.Liveness

/-!
# The bridge ends

`djm_midi` has one thread, so what ends its main loop ends the process: a signal, and the
loss of the device, which any of the callbacks notices.

`drain_seq_input` does not test `do_quit`: it reads on for as long as ALSA has an event.

* `remaining_step`: once `do_quit` is set, every step but a signal and one that reads an
  event brings the process nearer to its end.
* `bridge_ends`: so after a signal or a loss it ends, in a number of steps bounded by the
  events it reads on the way and without waiting for anybody.
-/

namespace DjmT1.Midi

open DjmT1.Lib

namespace DjmMidi

/-- The transfers in flight: at most the MIDI IN, the HID IN and eight audio transfers. -/
def Proc.inFlight (s : Proc) : ℕ := s.midi.toNat + s.hid.toNat + s.audio.card

/-- How many steps `main` still takes once `do_quit` is set. -/
def MainPc.rank : MainPc → ℕ
  | .exited => 0
  | .tail i => 1 + (4 - i)
  | .teardown => 6
  | .test => 7
  | .arm | .drain => 8
  | .settle _ | .events => 9
  | .settleEvents _ | .submitHid => 10
  | .claimHid => 11
  | .submitMidi => 12

/-- The steps that the process can still take: `main` may yet submit a transfer on its
    way out, and each transfer completes at most once more. -/
def Proc.remaining (s : Proc) : ℕ := 2 * s.pc.rank + s.inFlight

/-- Anything but a signal. -/
def Event.progress : Event → Bool
  | .main _ | .midi _ _ | .hid _ _ | .audio _ _ _ => true
  | .signal => false

/-- `drain_seq_input` reads an event, and goes around once more. -/
def drains (s : Proc) : Event → Bool
  | .main ok => s.pc = .drain && !ok
  | .signal | .midi _ _ | .hid _ _ | .audio _ _ _ => false

/-- A transfer completes because the device is gone. -/
def Event.lost : Event → Prop
  | .midi t _ | .hid t _ => t.status = .noDevice
  | .audio _ status _ => status = .noDevice
  | .main _ | .signal => False

/-- `main` submits a transfer only at the two points of its setup. -/
theorem mainStep_rank {s t : Proc} {ok : Bool} (hquit : s.bridge.quit)
    (hst : mainStep s ok = some t) :
    t.bridge.quit = true ∧ 2 * t.pc.rank + t.inFlight + 1 ≤
      2 * s.pc.rank + s.inFlight + (if drains s (.main ok) then 1 else 0) := by
  unfold mainStep at hst
  cases hpc : s.pc with
  | exited => simp [hpc] at hst
  | submitMidi | submitHid =>
    simp only [hpc] at hst
    obtain rfl := Option.some.inj hst
    have := Bool.toNat_le ok
    refine ⟨hquit, ?_⟩
    simp only [MainPc.rank, Proc.inFlight]
    omega
  | claimHid =>
    simp only [hpc] at hst
    split_ifs at hst <;>
    · obtain rfl := Option.some.inj hst
      refine ⟨hquit, ?_⟩
      simp only [MainPc.rank, Proc.inFlight]
      omega
  | settle i =>
    have hout : ¬ (i < 10 ∧ ¬ s.bridge.quit = true) := fun h => h.2 hquit
    simp only [hpc, if_neg hout] at hst
    obtain rfl := Option.some.inj hst
    refine ⟨hquit, ?_⟩
    simp only [MainPc.rank, Proc.inFlight]
    omega
  | test =>
    simp only [hpc, if_pos hquit] at hst
    obtain rfl := Option.some.inj hst
    refine ⟨hquit, ?_⟩
    simp only [MainPc.rank, Proc.inFlight]
    omega
  | settleEvents | arm | events | teardown =>
    simp only [hpc] at hst
    obtain rfl := Option.some.inj hst
    refine ⟨hquit, ?_⟩
    simp only [MainPc.rank, Proc.inFlight]
    omega
  | drain =>
    simp only [hpc] at hst
    obtain rfl := Option.some.inj hst
    refine ⟨hquit, ?_⟩
    cases ok with
    | true =>
      simp only [if_true, MainPc.rank, Proc.inFlight]
      omega
    | false =>
      -- the step makes up for itself
      have hdrains : drains s (.main false) = true := by simp [drains, hpc]
      simp only [hdrains, Bool.false_eq_true, if_true, if_false, MainPc.rank, Proc.inFlight]
      omega
  | tail i =>
    simp only [hpc] at hst
    obtain rfl := Option.some.inj hst
    refine ⟨hquit, ?_⟩
    by_cases hlast : i < 4
    · simp only [if_pos hlast, MainPc.rank, Proc.inFlight]
      omega
    · simp only [if_neg hlast, MainPc.rank, Proc.inFlight]
      omega

/-- Once `do_quit` is set, a callback leaves it set and does not ask for its transfer
    again. -/
theorem hidCb_quit {s u : Proc} {x : BulkTransfer} {again : Bool} (hquit : s.bridge.quit)
    (h : hidCb s x = some (u, again)) :
    again = false ∧ u.bridge.quit ∧ u.pc = s.pc ∧ u.midi = s.midi ∧ u.audio = s.audio := by
  rcases hidCb_eq_some h with ⟨_, rfl, rfl⟩ | ⟨_, ⟨probe, _, rfl⟩, rfl⟩
  · exact ⟨rfl, rfl, rfl, rfl, rfl⟩
  · refine ⟨?_, hquit, rfl, rfl, rfl⟩
    rw [hquit, Bool.not_true, Bool.and_false]

theorem audioCb_quit {s : Proc} (hquit : s.bridge.quit) (status : XferStatus) :
    ∃ b : Bridge, audioCb s status = ({ s with bridge := b }, false) ∧ b.quit = true := by
  unfold audioCb
  split_ifs
  · exact ⟨{ s.bridge with quit := true }, rfl, rfl⟩
  · refine ⟨s.bridge, ?_, hquit⟩
    rw [hquit, Bool.not_true, Bool.and_false]

theorem midiCb_quit {b u : Bridge} {x : BulkTransfer} {again : Bool} (hquit : b.quit)
    (h : midiCb b x = some (u, again)) : again = false ∧ u.quit = true := by
  obtain ⟨u', again', hcb, _, hcase⟩ := midiCb_cases (fun s => s.running && !s.quit) b x
  obtain ⟨rfl, rfl⟩ := Prod.mk.inj (Option.some.inj (h.symm.trans hcb))
  rcases hcase with ⟨_, hquit', rfl⟩ | ⟨_, hkeep, rfl⟩
  · exact ⟨rfl, hquit'⟩
  · rw [hkeep, hquit, Bool.not_true, Bool.and_false]
    exact ⟨rfl, rfl⟩

/-- Once `do_quit` is set, it stays set, and every step but a signal and one that reads an
    event brings the process nearer to its end. -/
theorem remaining_step {s t : Proc} {e : Event} (hquit : s.bridge.quit)
    (hst : machine.Step s e t) :
    t.bridge.quit = true ∧ t.remaining + (if e.progress then 1 else 0) ≤
      s.remaining + (if drains s e then 1 else 0) := by
  obtain ⟨hen, hst⟩ := hst
  unfold Proc.remaining
  cases e with
  | main ok =>
    obtain ⟨hquit', hrank⟩ := mainStep_rank hquit hst
    refine ⟨hquit', ?_⟩
    rw [Event.progress, if_pos rfl]
    omega
  | signal =>
    obtain rfl := Option.some.inj hst
    exact ⟨rfl, le_rfl⟩
  | midi x ok =>
    have hmidi : s.midi = true := hen.2.1
    obtain ⟨⟨b, again⟩, hcb, hst⟩ := Option.bind_eq_some_iff.mp hst
    obtain rfl := Option.some.inj hst
    obtain ⟨rfl, hquit'⟩ := midiCb_quit hquit hcb
    refine ⟨hquit', ?_⟩
    simp only [Proc.inFlight, hmidi, Event.progress, Bool.false_and, Bool.toNat_false,
      Bool.toNat_true, if_true]
    omega
  | hid x ok =>
    have hhid : s.hid = true := hen.2.1
    obtain ⟨⟨u, again⟩, hcb, hst⟩ := Option.bind_eq_some_iff.mp hst
    obtain rfl := Option.some.inj hst
    obtain ⟨rfl, hquit', hpc, hmidi, haudio⟩ := hidCb_quit hquit hcb
    refine ⟨hquit', ?_⟩
    simp only [Proc.inFlight, hhid, hpc, hmidi, haudio, Event.progress, Bool.false_and,
      Bool.toNat_false, Bool.toNat_true, if_true]
    omega
  | audio x status ok =>
    have hmem : x ∈ s.audio := hen.2
    obtain ⟨b, hcb, hquit'⟩ := audioCb_quit hquit status
    simp only [machine, exec, hcb] at hst
    obtain rfl := Option.some.inj hst
    have hcard := Finset.card_erase_add_one hmem
    refine ⟨hquit', ?_⟩
    simp only [Proc.inFlight, Event.progress, Bool.false_and, if_true, Bool.false_eq_true,
      if_false]
    omega

/-! ## What holds of all runs -/

/-- Every callback that is told the device is gone sets `do_quit`. -/
theorem quit_of_lost {s t : Proc} {e : Event} (hst : machine.Step s e t) (hlost : e.lost) :
    t.bridge.quit := by
  obtain ⟨hen, hst⟩ := hst
  cases e with
  | main ok | signal => exact hlost.elim
  | midi x ok =>
    have hgone : x.status = .noDevice := hlost
    obtain ⟨⟨b, again⟩, hcb, hst⟩ := Option.bind_eq_some_iff.mp hst
    obtain rfl := Option.some.inj hst
    obtain ⟨b', again', hcb', _, hcase⟩ :=
      midiCb_cases (fun s => s.running && !s.quit) s.bridge x
    obtain ⟨rfl, rfl⟩ := Prod.mk.inj (Option.some.inj (hcb.symm.trans hcb'))
    rcases hcase with ⟨_, hquit, _⟩ | ⟨hne, _⟩
    · exact hquit
    · exact absurd hgone hne
  | hid x ok =>
    have hgone : x.status = .noDevice := hlost
    obtain ⟨⟨u, again⟩, hcb, hst⟩ := Option.bind_eq_some_iff.mp hst
    obtain rfl := Option.some.inj hst
    rcases hidCb_eq_some hcb with ⟨_, rfl, _⟩ | ⟨hne, _⟩
    · rfl
    · exact absurd hgone hne
  | audio x status ok =>
    have hgone : status = .noDevice := hlost
    simp only [machine, exec, audioCb, if_pos hgone] at hst
    obtain rfl := Option.some.inj hst
    rfl

theorem MainPc.rank_le (pc : MainPc) : pc.rank ≤ 12 := by
  cases pc with
  | tail i =>
    rw [rank]
    omega
  | submitMidi | claimHid | submitHid | settle | settleEvents | arm | test | events | drain
  | teardown | exited => simp [rank]

theorem inFlight_le (s : Proc) : s.inFlight ≤ 10 := by
  have hmidi := Bool.toNat_le s.midi
  have hhid := Bool.toNat_le s.hid
  have haudio : s.audio.card ≤ 8 := (Finset.card_le_univ s.audio).trans (by decide)
  unfold Proc.inFlight
  omega

/-- Once `do_quit` is set, which a signal does and the loss of the device on any of the
    pipes, `djm_midi` goes on to its end, whatever libusb does: it has at most 34 steps
    left besides one for each event that it reads, and until it has ended `main` can take
    one. -/
theorem bridge_ends (s : Proc) :
    (∀ e t, machine.Step s e t → e = .signal ∨ e.lost → t.bridge.quit) ∧
      (s.bridge.quit → ∀ es t, machine.play s es = some t →
        es.countP Event.progress ≤ 34 + machine.countSteps drains s es ∧
          (t.pc = .exited ∨ ∀ ok, ∃ u, machine.Step t (.main ok) u)) := by
  constructor
  · rintro e t hst (rfl | hlost)
    · obtain rfl := Option.some.inj hst.2
      rfl
    · exact quit_of_lost hst hlost
  · intro hquit es t hplay
    obtain ⟨_, hcount⟩ := Machine.play_measure (I := fun s => s.bridge.quit = true)
      (μ := Proc.remaining) (fun _ _ _ h hst => remaining_step h hst) hquit hplay
    have hrank := s.pc.rank_le
    have hflight := inFlight_le s
    unfold Proc.remaining at hcount
    refine ⟨by omega, ?_⟩
    by_cases hend : t.pc = .exited
    · exact .inl hend
    · refine .inr fun ok => ?_
      obtain ⟨u, hu, _⟩ := mainStep_defined ok hend
      exact ⟨u, hend, hu⟩

end DjmMidi

end DjmT1.Midi
