import DjmT1.Midi.Session

/-!
# The gate stays open

An armed mixer transmits only within a complete session: its MIDI and HID pipes are
polled, and its audio interface is in the alternate setting that streams, with transfers
in flight both ways.

* `FlagInv.move`: the flags say which parts of the session there are.
* `AudioInv.move`: the audio transfers stay in flight.
* `gate_open`: where no submission is refused, the mixer is armed within a complete session,
  and the session stays complete.
-/

namespace DjmT1.Midi

open DjmT1.Lib

namespace DjmMidi

section

variable {w v : Program} {e : Event}

/-! ## The flags and the alternate setting -/

/-- `libusb_set_interface_alt_setting` has succeeded, if audio is on. -/
def Stage.audioUp : Stage → Bool
  | .boot .frequency | .boot (.submitAudio _) | .boot .claimMidi | .bridge => true
  | .boot .seqSetup | .boot .libusbInit | .boot (.openDevice _) | .boot (.waitDevice _)
  | .boot .claimAudio | .boot .altAudio | .failed _ => false

structure FlagInv (o : Options) (w : Program) : Prop where
  audioOn : w.proc.pc.before → w.proc.audioOn = o.audioOn
  hidOn : w.proc.pc.before → w.proc.hidOn = false → o.hidOn = false ∨ w.warned
  alt : w.stage.audioUp → o.audioOn → (.altSetting 0 1, true) ∈ w.calls

variable {o : Options}

theorem bootStep_alt (h : FlagInv o w) {pc : BootPc} (hstage : w.stage = .boot pc)
    (haudio : w.proc.audioOn = o.audioOn) (ok : Bool) :
    (bootStep w pc ok).stage.audioUp → o.audioOn →
      (.altSetting 0 1, true) ∈ (bootStep w pc ok).calls := by
  have halt := h.alt
  rw [hstage] at halt
  intro hup hon
  cases pc with
  | openDevice tries =>
    cases ok with
    | true =>
      have hclaim : (bootStep w (.openDevice tries) true).stage = .boot .claimAudio := by
        simp [bootStep, Program.log, haudio, hon]
      rw [hclaim] at hup
      exact absurd hup Bool.false_ne_true
    | false => exact absurd hup Bool.false_ne_true
  | altAudio =>
    cases ok with
    | true => exact List.mem_append_right _ List.mem_cons_self
    | false => exact absurd hup Bool.false_ne_true
  | submitAudio todo =>
    cases todo with
    | nil => exact halt rfl hon
    | cons x todo => exact List.mem_append_left _ (halt rfl hon)
  | frequency | claimMidi => exact List.mem_append_left _ (halt rfl hon)
  | waitDevice tries =>
    have hdown : (bootStep w (.waitDevice tries) ok).stage.audioUp = false := by
      unfold bootStep
      simp only
      split_ifs <;> rfl
    exact absurd (hdown.symm.trans hup) Bool.false_ne_true
  | seqSetup | libusbInit | claimAudio =>
    cases ok <;> exact absurd hup Bool.false_ne_true

theorem FlagInv.move (h : FlagInv o w) (hwaits : w.stage ≠ .bridge → Waits o w.proc)
    (hm : ProgramMove w e v) : FlagInv o v := by
  cases hm with
  | boot ok hstage =>
    obtain ⟨_, haudio, _⟩ := hwaits (by rw [hstage]; exact Stage.noConfusion)
    obtain ⟨_, _, _, _, _, hwarned⟩ := bootStep_calls w _ ok
    obtain ⟨audio, hproc⟩ := bootStep_proc w _ ok
    refine ⟨?_, ?_, bootStep_alt h hstage haudio ok⟩
    · rw [hproc]
      exact h.audioOn
    · rw [hproc, hwarned]
      exact h.hidOn
  | signal hstage => exact ⟨h.audioOn, h.hidOn, h.alt⟩
  | request ok hstage hpc hr =>
    exact ⟨h.audioOn, h.hidOn, fun hup hon => List.mem_append_left _ (h.alt hup hon)⟩
  | @bridge e p hstage hst hr =>
    have halt : w.stage.audioUp → o.audioOn →
        (.altSetting 0 1, true) ∈ w.calls ++ bridgeCalls w.proc e := fun hup hon =>
      List.mem_append_left _ (h.alt hup hon)
    by_cases hmain : ∃ ok, e = .main ok
    · obtain ⟨ok, rfl⟩ := hmain
      obtain ⟨_, _, hbefore⟩ := mainStep_phase hst.2
      refine ⟨fun hp => ?_, fun hp hoff => ?_, halt⟩
      · obtain ⟨hs, haudio, _⟩ := hbefore hp
        exact haudio.trans (h.audioOn hs)
      · obtain ⟨hs, _, hhid | ⟨hpc, hon, hok⟩⟩ := hbefore hp
        · exact (h.hidOn hs (hhid.symm.trans hoff)).imp_right fun hw => by rw [hw, Bool.true_or]
        · -- the claim of the HID interface fails
          right
          simp [Program.warns, hpc, hon, hok]
    · obtain ⟨hpc, haudio, hhid⟩ := callback_phase hst.2 fun ok heq => hmain ⟨ok, heq⟩
      refine ⟨?_, ?_, halt⟩
      · simp only [hpc, haudio]
        exact h.audioOn
      · simp only [hpc, hhid]
        intro hp hoff
        exact (h.hidOn hp hoff).imp_right fun hw => by rw [hw, Bool.true_or]

end

/-! ## The session -/

/-- The program is about to submit an audio transfer for the first time. -/
def Stage.submitsAudio : Stage → Bool
  | .boot (.submitAudio (_ :: _)) => true
  | .boot _ | .bridge | .failed _ => false

/-- If `audio_cb` submits its transfer again, the submission is not refused. -/
def AudioAccepted (s : Proc) : Event → Prop
  | .audio _ status ok => (audioCb s status).2 → ok
  | .main _ | .signal | .midi _ _ | .hid _ _ => True

/-- No submission is refused. -/
def ProgramAccepted (w : Program) (e : Event) : Prop :=
  (w.stage.submitsAudio → e.ok) ∧ (w.stage = .bridge → Accepted w.proc e ∧ AudioAccepted w.proc e)

instance (s : Proc) : (e : Event) → Decidable (AudioAccepted s e)
  | .audio _ status ok => inferInstanceAs (Decidable ((audioCb s status).2 = true → ok = true))
  | .main _ | .signal | .midi _ _ | .hid _ _ => inferInstanceAs (Decidable True)

instance (w : Program) (e : Event) : Decidable (ProgramAccepted w e) :=
  inferInstanceAs (Decidable (_ ∧ _))

theorem LiveInv.running_before {s : Proc} (h : LiveInv s) (hbefore : s.pc.before) :
    s.bridge.running := by
  refine h.running ?_ fun i => ?_
  · rintro hpc
    rw [hpc] at hbefore
    exact absurd hbefore Bool.false_ne_true
  · rintro hpc
    rw [hpc] at hbefore
    exact absurd hbefore Bool.false_ne_true

/-- The audio transfers that are in flight stay there until `do_quit` is set. -/
theorem mainStep_audio {s t : Proc} {ok : Bool} (h : mainStep s ok = some t) :
    t.audio = s.audio ∧ t.bridge.quit = s.bridge.quit := by
  unfold mainStep at h
  cases hpc : s.pc with
  | exited => simp [hpc] at h
  | claimHid | settle i | test =>
    simp only [hpc] at h
    split_ifs at h
    all_goals
      obtain rfl := Option.some.inj h
      exact ⟨rfl, rfl⟩
  | submitMidi | submitHid | settleEvents | arm | events | drain | teardown | tail =>
    simp only [hpc] at h
    obtain rfl := Option.some.inj h
    exact ⟨rfl, rfl⟩

theorem callback_audio {s t : Proc} {e : Event} (h : exec s e = some t)
    (hne : ∀ ok, e ≠ .main ok) (hacc : AudioAccepted s e) (hquit : t.bridge.quit = false)
    (hrunning : s.bridge.running) (hon : s.audioOn) :
    s.bridge.quit = false ∧ t.audio = s.audio := by
  cases e with
  | main ok => exact absurd rfl (hne ok)
  | signal =>
    obtain rfl := Option.some.inj h
    exact absurd hquit.symm Bool.false_ne_true
  | midi x ok =>
    obtain ⟨b, again, hcb, _, hcase⟩ := midiCb_cases (fun s => s.running && !s.quit) s.bridge x
    simp only [exec, DjmMidi.midiCb, hcb, Option.bind_eq_bind, Option.bind_some,
      Option.pure_def] at h
    obtain rfl := Option.some.inj h
    rcases hcase with ⟨_, hset, _⟩ | ⟨_, hkeep, _⟩
    · exact absurd (hquit.symm.trans hset) Bool.false_ne_true
    · exact ⟨hkeep.symm.trans hquit, rfl⟩
  | hid x ok =>
    obtain ⟨⟨u, again⟩, hcb, h⟩ := Option.bind_eq_some_iff.mp h
    obtain rfl := Option.some.inj h
    rcases hidCb_eq_some hcb with ⟨_, rfl, _⟩ | ⟨_, ⟨probe, _, rfl⟩, _⟩
    · exact absurd hquit.symm Bool.false_ne_true
    · exact ⟨hquit, rfl⟩
  | audio x status ok =>
    by_cases hgone : status = .noDevice
    · simp only [exec, audioCb, if_pos hgone] at h
      obtain rfl := Option.some.inj h
      exact absurd hquit.symm Bool.false_ne_true
    · simp only [exec, audioCb, if_neg hgone] at h
      obtain rfl := Option.some.inj h
      have hquit : s.bridge.quit = false := hquit
      have hagain : (audioCb s status).2 = true := by
        simp [audioCb, hgone, hrunning, hon, hquit]
      have hok : ok = true := hacc hagain
      refine ⟨hquit, ?_⟩
      simp [hrunning, hon, hquit, hok]

/-- Where no submission is refused, the audio transfers are submitted one after the other,
    and then stay in flight. -/
structure AudioInv (w : Program) : Prop where
  todo : ∀ todo, w.stage = .boot (.submitAudio todo) → ∀ x, x ∈ w.proc.audio ∨ x ∈ todo
  full : w.stage = .boot .claimMidi ∨ w.stage = .bridge → w.proc.pc.before → w.proc.audioOn →
    w.proc.bridge.quit = false → w.proc.audio = Finset.univ

section

variable {w v : Program} {e : Event}

/-- The points before the submissions, and the ends of the program. -/
def Stage.silent : Stage → Bool
  | .boot .seqSetup | .boot .libusbInit | .boot (.openDevice _) | .boot (.waitDevice _)
  | .boot .claimAudio | .boot .altAudio | .boot .frequency | .failed _ => true
  | .boot (.submitAudio _) | .boot .claimMidi | .bridge => false

theorem AudioInv.silent (h : w.stage.silent) : AudioInv w := by
  refine ⟨fun todo htodo => ?_, fun hup => ?_⟩
  · rw [htodo] at h
    exact absurd h Bool.false_ne_true
  · rcases hup with hup | hup
    · rw [hup] at h
      exact absurd h Bool.false_ne_true
    · rw [hup] at h
      exact absurd h Bool.false_ne_true

theorem AudioInv.boot (h : AudioInv w) {pc : BootPc} (hstage : w.stage = .boot pc) {ok : Bool}
    (hok : w.stage.submitsAudio → ok) : AudioInv (bootStep w pc ok) := by
  cases pc with
  | seqSetup | libusbInit | claimAudio | altAudio => cases ok <;> exact .silent rfl
  | waitDevice tries =>
    refine .silent ?_
    unfold bootStep
    simp only
    split_ifs <;> rfl
  | openDevice tries =>
    cases ok with
    | false => exact .silent rfl
    | true =>
      by_cases hon : w.proc.audioOn = true
      · refine .silent ?_
        simp [bootStep, Program.log, hon, Stage.silent]
      · refine ⟨fun todo htodo => ?_, fun _ _ hon' => absurd hon' hon⟩
        simp [bootStep, Program.log, hon] at htodo
  | frequency =>
    have hall : ∀ x, x ∈ audioXfers := by decide
    refine ⟨fun todo htodo x => .inr ?_, fun hup => ?_⟩
    · have htodo : audioXfers = todo := by simpa [bootStep, Program.log] using htodo
      rw [← htodo]
      exact hall x
    · simp [bootStep, Program.log] at hup
  | submitAudio todo =>
    have hmem := h.todo todo hstage
    cases todo with
    | nil =>
      refine ⟨fun todo htodo => ?_, fun _ _ _ _ => ?_⟩
      · simp [bootStep] at htodo
      · exact Finset.eq_univ_of_forall fun x => (hmem x).resolve_right List.not_mem_nil
    | cons y todo =>
      obtain rfl : ok = true := hok (by rw [hstage]; rfl)
      refine ⟨fun todo' htodo x => ?_, fun hup => ?_⟩
      · have htodo : todo = todo' := by simpa [bootStep, Program.log] using htodo
        rw [← htodo]
        rcases hmem x with hx | hx
        · exact .inl (Finset.mem_insert_of_mem hx)
        · rcases List.mem_cons.mp hx with rfl | hx
          · exact .inl (Finset.mem_insert_self x _)
          · exact .inr hx
      · simp [bootStep, Program.log] at hup
  | claimMidi =>
    refine ⟨fun todo htodo => ?_, fun _ => h.full (.inl hstage)⟩
    cases ok <;> simp [bootStep, Program.log] at htodo

theorem AudioInv.move (h : AudioInv w) (hlive : LiveInv w.proc) (hm : ProgramMove w e v)
    (hacc : ProgramAccepted w e) : AudioInv v := by
  cases hm with
  | boot ok hstage => exact h.boot hstage hacc.1
  | signal hstage => exact ⟨h.todo, fun _ _ _ hquit => absurd hquit.symm Bool.false_ne_true⟩
  | request ok hstage hpc hr => exact ⟨h.todo, h.full⟩
  | @bridge e p hstage hst hr =>
    refine ⟨fun todo htodo => ?_, fun _ hbefore hon hquit => ?_⟩
    · exact absurd (hstage.symm.trans htodo) Stage.noConfusion
    · have hbefore : p.pc.before := hbefore
      have hon : p.audioOn = true := hon
      by_cases hmain : ∃ ok, e = .main ok
      · obtain ⟨ok, rfl⟩ := hmain
        obtain ⟨_, _, hphase⟩ := mainStep_phase hst.2
        obtain ⟨haudio, hsame⟩ := mainStep_audio hst.2
        obtain ⟨hs, hflag, _⟩ := hphase hbefore
        exact haudio.trans
          (h.full (.inr hstage) hs (hflag.symm.trans hon) (hsame.symm.trans hquit))
      · have hne : ∀ ok, e ≠ .main ok := fun ok heq => hmain ⟨ok, heq⟩
        obtain ⟨hpc, hflag, _⟩ := callback_phase hst.2 hne
        have hs : w.proc.pc.before := by rwa [hpc] at hbefore
        have hon' : w.proc.audioOn := hflag.symm.trans hon
        obtain ⟨hquit', haudio⟩ := callback_audio hst.2 hne (hacc.2 hstage).2 hquit
          (hlive.running_before hs) hon'
        exact haudio.trans (h.full (.inr hstage) hs hon' hquit')

end

/-! ## What holds of all runs -/

/-- The points of `main` at which the mixer is being armed, and after it the main loop. -/
def MainPc.polls : MainPc → Bool
  | .arm | .test | .events | .drain => true
  | .submitMidi | .claimHid | .submitHid | .settle _ | .settleEvents _ | .teardown | .tail _
  | .exited => false

theorem MainPc.up_of_polls {pc : MainPc} (h : pc.polls) :
    pc.midiUp ∧ pc.hidUp ∧ pc.before ∧ (pc ≠ .arm → pc.armed) := by
  cases pc with
  | arm => exact ⟨rfl, rfl, rfl, fun hne => absurd rfl hne⟩
  | test | events | drain => exact ⟨rfl, rfl, rfl, fun _ => rfl⟩
  | submitMidi | claimHid | submitHid | settle | settleEvents | teardown | tail | exited =>
    exact absurd h Bool.false_ne_true

section

variable {args : List String} {w : Program}

theorem flag_inv (h : (programMachine args).Reach w) : FlagInv (parseArgs args) w := by
  have hstart : FlagInv (parseArgs args) (programStart args) :=
    ⟨fun _ => rfl, fun _ hoff => .inl hoff, fun hup => absurd hup Bool.false_ne_true⟩
  refine h.invariant (fun _ hinit => hinit ▸ hstart) fun _ _ _ hr hi hst _ => ?_
  obtain ⟨_, hwaits⟩ := program_proc (C := fun _ _ _ => True) (fun _ _ _ _ _ => trivial) hr
  exact hi.move hwaits (step_programMove hst)

/-- The bridge of a program none of whose submissions is refused. -/
theorem program_live (h : (programMachine args).ReachIf (fun w e _ => ProgramAccepted w e) w) :
    LiveInv w.proc := by
  have hproc := program_proc (C := fun s e _ => Accepted s e)
    (fun _ _ _ hacc hstage => (hacc.2 hstage).1) h
  exact live_inv hproc.1

theorem audio_inv (h : (programMachine args).ReachIf (fun w e _ => ProgramAccepted w e) w) :
    AudioInv w := by
  refine h.invariant (fun _ hinit => hinit ▸ .silent rfl) fun _ _ _ hr hi hst hacc => ?_
  exact hi.move (program_live hr) (step_programMove hst) hacc

/-- **The gate.** In every run of `djm_midi` that refuses no submission, with any arguments:
    while the mixer is being armed, and in the main loop, as long as the program is not told
    to quit, a MIDI read is in flight, a HID read unless HID is off, and unless `--no-audio`
    was given the audio interface has been set to stream and all its transfers are in
    flight. In the main loop of a program that has printed no warning, `arm` has sent all
    its requests, every write was accepted, and HID is off only by `--no-hid`. -/
theorem gate_open (h : (programMachine args).ReachIf (fun w e _ => ProgramAccepted w e) w)
    (hstage : w.stage = .bridge) (hpolls : w.proc.pc.polls) (hquit : w.proc.bridge.quit = false) :
    w.proc.midi ∧ (w.proc.hidOn → w.proc.hid) ∧
      ((parseArgs args).audioOn →
        (.altSetting 0 1, true) ∈ w.calls ∧ w.proc.audio = Finset.univ) ∧
      (w.proc.pc ≠ .arm → w.warned = false →
        w.vendor.map Prod.fst = armRequests.map .control ∧
        (∀ c ∈ w.vendor, c.1.isWrite → c.2) ∧
        ((parseArgs args).hidOn → w.proc.hid)) := by
  obtain ⟨hmidi, hhid, hbefore, harmed⟩ := MainPc.up_of_polls hpolls
  have hlive := program_live h
  have haudio := audio_inv h
  have hflags := flag_inv h.reach
  have harm := program_inv (armInv_start args) ArmInv.move h.reach
  have hpoll : w.proc.hidOn → w.proc.hid := hlive.hid hhid hquit
  refine ⟨hlive.midi hmidi hquit, hpoll, fun hon => ⟨?_, ?_⟩, fun hloop hquiet => ⟨?_, ?_, ?_⟩⟩
  · exact hflags.alt (by rw [hstage]; rfl) hon
  · exact haudio.full (.inr hstage) hbefore (by rw [hflags.audioOn hbefore, hon]) hquit
  · rw [harm.sent, harm.done (harmed hloop), List.take_length]
  · -- a write that fails is followed by a warning
    have hok : w.armOk = true := by
      by_contra hfailed
      have hwarned := harm.told (harmed hloop) (Bool.not_eq_true _ ▸ hfailed)
      rw [hquiet] at hwarned
      exact absurd hwarned Bool.false_ne_true
    rw [harm.ok, List.all_eq_true] at hok
    intro c hc hwrite
    simpa [hwrite] using hok c hc
  · intro hon
    refine hpoll ?_
    by_contra hoff
    rcases hflags.hidOn hbefore (Bool.not_eq_true _ ▸ hoff) with hno | hwarned
    · rw [hno] at hon
      exact absurd hon Bool.false_ne_true
    · rw [hquiet] at hwarned
      exact absurd hwarned Bool.false_ne_true

end

/-- The program with its defaults, from its start to its main loop. -/
def openRun : List Event := List.replicate 49 (.main true)

set_option maxRecDepth 4000 in
theorem gate_open_openRun : ∃ w,
    (programMachine []).playIf (fun w e _ => ProgramAccepted w e) (programStart []) openRun =
      some w ∧ w.proc.pc = .test ∧ w.warned = false ∧
      w.proc.midi ∧ w.proc.hid ∧ w.proc.audio = Finset.univ ∧
      w.vendor.map Prod.fst = armRequests.map .control := by
  have hrun : ∃ w,
      (programMachine []).playIf (fun w e _ => ProgramAccepted w e) (programStart []) openRun =
        some w ∧ w.stage = .bridge ∧ w.proc.pc = .test ∧ w.proc.bridge.quit = false ∧
        w.warned = false := ⟨_, rfl, rfl, rfl, rfl, rfl⟩
  obtain ⟨w, hplay, hstage, htest, hquit, hquiet⟩ := hrun
  have hr := Machine.playIf_reachIf (.init rfl) hplay
  obtain ⟨hmidi, _, haudio, harmed⟩ := gate_open hr hstage (by rw [htest]; rfl) hquit
  obtain ⟨hsent, _, hhid⟩ := harmed (by rw [htest]; exact MainPc.noConfusion) hquiet
  exact ⟨w, hplay, htest, hquiet, hmidi, hhid rfl, (haudio rfl).2, hsent⟩

end DjmMidi

end DjmT1.Midi
