import DjmT1.Lib.Machine
import DjmT1.Midi.Packet

/-!
# Device loss in the unified daemon

`djm_full` runs PipeWire's main loop in `main` and the MIDI bridge in a thread of its
own. The bridge leaves its loop when `g_stop` is set; the main loop returns when
`pw_main_loop_quit` has been called, which only `on_signal` does.

* `quits_step`: a step keeps "if `g_stop` is set then the main loop has been asked to
  quit" exactly if it is not the news that the device is gone, come before anybody has
  asked.
* `device_loss`: the same over runs.
* `device_loss_unasked`: an unplug in operation ends the MIDI thread, and `main` stays
  in its loop. `only_signal` says that nothing but a signal gets it out.
-/

namespace DjmT1.Midi

open DjmT1.Lib

namespace DjmFull

/-- Where `main` is. -/
inductive MainPc
  /-- before `djmt1_iso_start` (line 238) -/
  | startEngine
  /-- before `seq_setup` (line 242) -/
  | seqSetup
  /-- before `pthread_create` (line 244) -/
  | createThread
  /-- before `pw_main_loop_run` (line 253) -/
  | setLoop
  /-- in `pw_main_loop_run` -/
  | run
  /-- before `g_stop = 1` (line 256) -/
  | stop
  /-- in `pthread_join` -/
  | join
  /-- after it -/
  | shutdown
  /-- `return 0` -/
  | exited
  /-- one of the three `return 1` -/
  | failed
  deriving DecidableEq, Repr

/-- Where `midi_thread` is. -/
inductive ThreadPc
  | notCreated
  /-- before `libusb_init`, `libusb_open_device_with_vid_pid` and the claim of the MIDI
      interface (lines 140-145) -/
  | libusbInit
  | openDevice
  | claimMidi
  /-- before `libusb_submit_transfer(mx)` -/
  | submitMidi
  /-- before the claim of the HID interface (line 151) -/
  | claimHid
  /-- before `libusb_submit_transfer(hx)` -/
  | submitHid
  /-- at the test of the settling loop (line 157), and in its body -/
  | settle (i : ℕ)
  | settleEvents (i : ℕ)
  /-- in `arm()` -/
  | arm
  /-- at `while (!g_stop)` (line 161) -/
  | test
  /-- in `libusb_handle_events_timeout` -/
  | events
  /-- in `drain_seq_input()` -/
  | drain
  /-- before the transfers are cancelled -/
  | cancel
  /-- in the loop that waits for them -/
  | tail (i : ℕ)
  /-- at the label `out` -/
  | out
  | ended
  deriving DecidableEq, Repr

/-- The points at which `midi_thread` is in a call of libusb that runs callbacks. -/
def ThreadPc.pumps : ThreadPc → Bool
  | .settleEvents _ | .arm | .events | .drain | .tail _ => true
  | .notCreated | .libusbInit | .openDevice | .claimMidi | .submitMidi | .claimHid | .submitHid
  | .settle _ | .test | .cancel | .out | .ended => false

/-- `pw_main_loop_run` has returned. -/
def MainPc.returned : MainPc → Bool
  | .stop | .join | .shutdown | .exited => true
  | .startEngine | .seqSetup | .createThread | .setLoop | .run | .failed => false

/-- The process has not ended. -/
def MainPc.alive : MainPc → Bool
  | .exited | .failed => false
  | .startEngine | .seqSetup | .createThread | .setLoop | .run | .stop | .join | .shutdown => true

/-- The process: `g_stop` is the quit flag of the bridge, `asked` says that
    `pw_main_loop_quit` has been called, `midi` and `hid` that the MIDI IN and the HID
    IN transfer are in flight. -/
structure Daemon where
  bridge : Bridge
  asked : Bool
  midi : Bool
  hid : Bool
  main : MainPc
  thread : ThreadPc

/-- What happens next. `ok` is the result of the call that the step makes, and in
    `drain_seq_input` whether the loop ends. -/
inductive Event
  /-- a step of `main` -/
  | main (ok : Bool)
  /-- a step of `midi_thread` -/
  | thread (ok : Bool)
  /-- SIGINT or SIGTERM -/
  | onSignal
  /-- the MIDI IN or the HID IN transfer completes, and its callback runs -/
  | midi (t : BulkTransfer) (ok : Bool)
  | hid (t : BulkTransfer) (ok : Bool)

/-! ## The steps -/

/-- `hid_cb` (lines 117-120), and whether the transfer is submitted again. -/
def hidCb (s : Bridge) (t : BulkTransfer) : Bridge × Bool :=
  if t.status = .noDevice then ({ s with quit := true }, false) else (s, !s.quit)

/-- A step of `main` (lines 237-270). -/
def mainStep (s : Daemon) (ok : Bool) : Option Daemon :=
  match s.main with
  | .startEngine => some { s with main := if ok then .seqSetup else .failed }
  | .seqSetup => some { s with main := if ok then .createThread else .failed }
  | .createThread =>
    if ok then some { s with main := .setLoop, thread := .libusbInit }
    else some { s with main := .failed }
  | .setLoop => some { s with main := .run }
  | .run => some { s with main := .stop }
  | .stop => some { s with bridge := { s.bridge with quit := true }, main := .join }
  | .join => some { s with main := .shutdown }
  | .shutdown => some { s with main := .exited }
  | .exited | .failed => none

/-- A step of `midi_thread` (lines 138-176). `drain_seq_input` takes a step for each event
    that it reads. -/
def threadStep (s : Daemon) (ok : Bool) : Option Daemon :=
  match s.thread with
  | .libusbInit => some { s with thread := if ok then .openDevice else .ended }
  | .openDevice => some { s with thread := if ok then .claimMidi else .ended }
  | .claimMidi => some { s with thread := if ok then .submitMidi else .out }
  | .submitMidi => some { s with midi := ok, thread := .claimHid }
  | .claimHid => some { s with thread := if ok then .submitHid else .settle 0 }
  | .submitHid => some { s with hid := ok, thread := .settle 0 }
  | .settle i =>
    some { s with thread := if i < 10 ∧ ¬ s.bridge.quit then .settleEvents i else .arm }
  | .settleEvents i => some { s with thread := .settle (i + 1) }
  | .arm => some { s with thread := .test }
  | .test => some { s with thread := if s.bridge.quit then .cancel else .events }
  | .events => some { s with thread := .drain }
  | .drain => some { s with thread := if ok then .test else .drain }
  | .cancel => some { s with thread := .tail 0 }
  | .tail i => some { s with thread := if i < 4 then .tail (i + 1) else .out }
  | .out => some { s with thread := .ended }
  | .notCreated | .ended => none

def enabled (s : Daemon) : Event → Prop
  | .main _ => s.main.alive ∧ (s.main = .run → s.asked) ∧ (s.main = .join → s.thread = .ended)
  | .thread _ => s.main.alive ∧ s.thread ≠ .notCreated ∧ s.thread ≠ .ended
  | .onSignal => s.main = .run
  | .midi t _ => s.main.alive ∧ s.thread.pumps ∧ s.midi ∧ t.buffer.size = midiMaxpkt
  | .hid t _ => s.main.alive ∧ s.thread.pumps ∧ s.hid ∧ t.buffer.size = hidLen

def exec (s : Daemon) : Event → Option Daemon
  | .main ok => mainStep s ok
  | .thread ok => threadStep s ok
  | .onSignal => some { s with bridge := { s.bridge with quit := true }, asked := true }
  | .midi t ok => do
    let (bridge, again) ← midiCb s.bridge t
    return { s with bridge, midi := again && ok }
  | .hid t ok =>
    let (bridge, again) := hidCb s.bridge t
    some { s with bridge, hid := again && ok }

/-- `djm_full`. `pw_main_loop_run` returns only after `pw_main_loop_quit`, and
    `on_signal` is called from within it. -/
def machine : Machine Daemon Event where
  init s := s = ⟨⟨0, s.bridge.running, false, []⟩, false, false, false, .startEngine, .notCreated⟩
  enabled := enabled
  exec := exec

instance (s : Daemon) : (e : Event) → Decidable (machine.enabled s e)
  | .main _ => inferInstanceAs (Decidable (s.main.alive = true ∧ (s.main = .run → s.asked = true) ∧
      (s.main = .join → s.thread = .ended)))
  | .thread _ => inferInstanceAs (Decidable (s.main.alive = true ∧ s.thread ≠ .notCreated ∧
      s.thread ≠ .ended))
  | .onSignal => inferInstanceAs (Decidable (s.main = .run))
  | .midi t _ => inferInstanceAs (Decidable (s.main.alive = true ∧ s.thread.pumps = true ∧
      s.midi = true ∧ t.buffer.size = midiMaxpkt))
  | .hid t _ => inferInstanceAs (Decidable (s.main.alive = true ∧ s.thread.pumps = true ∧
      s.hid = true ∧ t.buffer.size = hidLen))

/-! ## What a step does -/

/-- A callback of the MIDI thread sets `g_stop` exactly if the device is gone. -/
theorem hidCb_quit (s : Bridge) (t : BulkTransfer) :
    (hidCb s t).1.quit = true ↔ t.status = .noDevice ∨ s.quit = true := by
  by_cases hgone : t.status = .noDevice
  · simp [hidCb, hgone]
  · simp [hidCb, hgone]

theorem midiCb_quit {s b : Bridge} {t : BulkTransfer} {again : Bool}
    (h : midiCb s t = some (b, again)) :
    b.quit = true ↔ t.status = .noDevice ∨ s.quit = true := by
  obtain ⟨b', again', hcb, _, hcase⟩ := midiCb_cases (fun s => !s.quit) s t
  obtain ⟨rfl, rfl⟩ := Prod.mk.inj (Option.some.inj (h.symm.trans hcb))
  rcases hcase with ⟨hgone, hquit, _⟩ | ⟨hgone, hquit, _⟩
  · simp [hgone, hquit]
  · simp [hgone, hquit]

/-- A step of `main` sets `g_stop` only once `pw_main_loop_run` has returned. -/
theorem mainStep_cases {s t : Daemon} {ok : Bool} (h : mainStep s ok = some t) :
    t.asked = s.asked ∧ (s.main.returned → t.main.returned) ∧
      (t.main.returned ∨ t.bridge.quit = s.bridge.quit) := by
  unfold mainStep at h
  cases hpc : s.main with
  | startEngine | seqSetup | setLoop =>
    simp only [hpc] at h
    obtain rfl := Option.some.inj h
    exact ⟨rfl, fun hret => absurd hret Bool.false_ne_true, .inr rfl⟩
  | createThread =>
    simp only [hpc] at h
    split_ifs at h
    · obtain rfl := Option.some.inj h
      exact ⟨rfl, fun hret => absurd hret Bool.false_ne_true, .inr rfl⟩
    · obtain rfl := Option.some.inj h
      exact ⟨rfl, fun hret => absurd hret Bool.false_ne_true, .inr rfl⟩
  | run | stop | join | shutdown =>
    simp only [hpc] at h
    obtain rfl := Option.some.inj h
    exact ⟨rfl, fun _ => rfl, .inl rfl⟩
  | exited | failed => simp [hpc] at h

/-- A step of `midi_thread` outside the callbacks leaves all else alone. -/
theorem threadStep_cases {s t : Daemon} {ok : Bool} (h : threadStep s ok = some t) :
    t.bridge = s.bridge ∧ t.asked = s.asked ∧ t.main = s.main := by
  unfold threadStep at h
  cases hpc : s.thread with
  | notCreated | ended => simp [hpc] at h
  | libusbInit | openDevice | claimMidi | submitMidi | claimHid | submitHid | settle | settleEvents
  | arm | test | events | drain | cancel | tail | out =>
    simp only [hpc] at h
    obtain rfl := Option.some.inj h
    exact ⟨rfl, rfl, rfl⟩

/-- Every step that may be taken is defined. -/
theorem machine_defined (s : Daemon) : machine.Defined s := by
  rintro e hen
  cases e with
  | main ok =>
    have halive : s.main.alive := hen.1
    change (mainStep s ok).isSome
    unfold mainStep
    cases hpc : s.main with
    | exited | failed =>
      rw [hpc] at halive
      exact absurd halive Bool.false_ne_true
    | createThread =>
      simp only
      split_ifs <;> rfl
    | startEngine | seqSetup | setLoop | run | stop | join | shutdown => rfl
  | thread ok =>
    change (threadStep s ok).isSome
    unfold threadStep
    cases hpc : s.thread with
    | notCreated => exact absurd hpc hen.2.1
    | ended => exact absurd hpc hen.2.2
    | libusbInit | openDevice | claimMidi | submitMidi | claimHid | submitHid | settle
    | settleEvents | arm | test | events | drain | cancel | tail | out => rfl
  | onSignal => rfl
  | midi t ok =>
    obtain ⟨b, again, hcb, _⟩ := midiCb_cases (fun s => !s.quit) s.bridge t
    change (exec s (.midi t ok)).isSome
    rw [exec, midiCb, hcb]
    rfl
  | hid t ok => rfl

/-! ## What holds of all runs -/

/-- If `g_stop` is set, the main loop has been asked to quit. -/
def Quits (s : Daemon) : Prop :=
  s.bridge.quit = true → s.asked = true ∨ s.main.returned = true

/-- A transfer completes because the device is gone. -/
def Event.lost : Event → Prop
  | .midi t _ | .hid t _ => t.status = .noDevice
  | .main _ | .thread _ | .onSignal => False

/-- If the device disappears, the main loop has already been asked to quit. -/
def Expected (s : Daemon) (e : Event) : Prop :=
  e.lost → s.asked = true ∨ s.main.returned = true

instance : (e : Event) → Decidable e.lost
  | .midi t _ | .hid t _ => inferInstanceAs (Decidable (t.status = .noDevice))
  | .main _ | .thread _ | .onSignal => inferInstanceAs (Decidable False)

instance (s : Daemon) (e : Event) : Decidable (Expected s e) :=
  inferInstanceAs (Decidable (_ → _))

/-- A callback keeps `Quits` if it does not set `g_stop`, or if the main loop has been
    asked to quit. -/
theorem quits_callback {s : Daemon} {b : Bridge} {gone : Prop} {midi hid : Bool} (h : Quits s)
    (hquit : b.quit = true ↔ gone ∨ s.bridge.quit = true) :
    Quits { s with bridge := b, midi, hid } ↔
      (gone → s.asked = true ∨ s.main.returned = true) := by
  constructor
  · intro hq hgone
    exact hq (hquit.mpr (.inl hgone))
  · intro hexp hq
    rcases hquit.mp hq with hgone | hq
    · exact hexp hgone
    · exact h hq

/-- A step keeps `Quits` exactly if it is not an unexpected loss of the device. -/
theorem quits_step {s t : Daemon} {e : Event} (h : Quits s) (hst : machine.Step s e t) :
    Quits t ↔ Expected s e := by
  obtain ⟨hen, hst⟩ := hst
  cases e with
  | main ok =>
    obtain ⟨hasked, hret, hcase⟩ := mainStep_cases hst
    refine ⟨fun _ hlost => absurd hlost id, fun _ hq => ?_⟩
    rcases hcase with hret' | hquit
    · exact .inr hret'
    · rw [hasked]
      exact (h (hquit.symm.trans hq)).imp_right hret
  | thread ok =>
    obtain ⟨hbridge, hasked, hmain⟩ := threadStep_cases hst
    refine ⟨fun _ hlost => absurd hlost id, fun _ hq => ?_⟩
    rw [hasked, hmain]
    rw [hbridge] at hq
    exact h hq
  | onSignal =>
    obtain rfl := Option.some.inj hst
    exact ⟨fun _ hlost => absurd hlost id, fun _ _ => .inl rfl⟩
  | midi x ok =>
    obtain ⟨⟨b, again⟩, hcb, hst⟩ := Option.bind_eq_some_iff.mp hst
    obtain rfl := Option.some.inj hst
    exact quits_callback h (midiCb_quit hcb)
  | hid x ok =>
    obtain rfl := Option.some.inj hst
    exact quits_callback h (hidCb_quit s.bridge x)

/-- While the main loop runs and nobody has asked it to quit, only a signal can end it
    once the MIDI thread is gone. -/
theorem only_signal {s : Daemon} {e : Event} (hrun : s.main = .run) (hasked : s.asked = false)
    (hended : s.thread = .ended) (hen : machine.enabled s e) : e = .onSignal := by
  cases e with
  | main ok => exact absurd ((hen.2.1 hrun).symm.trans hasked) (by decide)
  | thread ok => exact absurd hended hen.2.2
  | onSignal => rfl
  | midi t ok | hid t ok =>
    have hpumps := hen.2.1
    rw [hended] at hpumps
    exact absurd hpumps Bool.false_ne_true

/-- `djm_full` on, until `main` is in its loop and the MIDI thread in its own. -/
def upRun : List Event :=
  List.replicate 4 (.main true) ++ List.replicate 29 (.thread true)

/-- The mixer is unplugged, and the MIDI thread goes to its end. -/
def unplugRun : List Event :=
  upRun ++ [.midi (emptyTransfer .noDevice midiMaxpkt) true] ++ List.replicate 10 (.thread true)

def start : Daemon :=
  ⟨⟨0, false, false, []⟩, false, false, false, .startEngine, .notCreated⟩

theorem start_init : machine.init start := rfl

/-- After an unplug the MIDI thread ends, and `main` stays in its loop. -/
theorem device_loss_unasked : ¬ ∀ s, machine.Reach s → Quits s := by
  intro h
  have hrun : ∃ s, machine.play start unplugRun = some s ∧ s.bridge.quit = true ∧
      s.asked = false ∧ s.main = .run ∧ s.thread = .ended := ⟨_, rfl, rfl, rfl, rfl, rfl⟩
  obtain ⟨s, hplay, hquit, hasked, hmain, _⟩ := hrun
  rcases h s (Machine.play_reach start_init hplay) hquit with hq | hq
  · rw [hasked] at hq
    exact absurd hq Bool.false_ne_true
  · rw [hmain] at hq
    exact absurd hq Bool.false_ne_true

/-- In every run in which the device is not lost before the main loop has been asked to
    quit, the main loop has been asked whenever `g_stop` is set; and the first loss of the
    device that comes before breaks it. -/
theorem device_loss {s : Daemon} (h : machine.ReachIf (fun s e _ => Expected s e) s) :
    Quits s ∧ ∀ e t, machine.Step s e t → (Quits t ↔ Expected s e) := by
  have hquits : Quits s := by
    refine h.invariant ?_ ?_
    · rintro s hinit hq
      rw [show s = _ from hinit] at hq
      exact absurd hq Bool.false_ne_true
    · rintro s e t _ ih hst hexp
      exact (quits_step ih hst).mpr hexp
  exact ⟨hquits, fun e t hst => quits_step hquits hst⟩

/-- A signal stops both loops, and the mixer is unplugged while the MIDI thread winds
    up. -/
theorem device_loss_signalled : ∃ s,
    machine.playIf (fun s e _ => Expected s e) start (upRun ++ [.onSignal,
      .hid (emptyTransfer .noDevice hidLen) true] ++ List.replicate 10 (.thread true)) = some s ∧
      s.bridge.quit = true ∧ s.thread = .ended ∧ Quits s := by
  have hrun : ∃ s,
      machine.playIf (fun s e _ => Expected s e) start (upRun ++ [.onSignal,
        .hid (emptyTransfer .noDevice hidLen) true] ++ List.replicate 10 (.thread true)) = some s ∧
        s.bridge.quit = true ∧ s.thread = .ended := ⟨_, rfl, rfl, rfl⟩
  obtain ⟨s, hplay, hquit, hended⟩ := hrun
  have hr := Machine.playIf_reachIf (.init start_init) hplay
  exact ⟨s, hplay, hquit, hended, (device_loss hr).1⟩

end DjmFull

end DjmT1.Midi
