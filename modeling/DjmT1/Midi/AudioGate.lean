import DjmT1.Midi.DeviceLoss

/-!
# The unified daemon from start to exit

`djm_full` owns the mixer through two libusb contexts, the one of the audio engine and
the one of the MIDI thread. `main` starts the engine before the thread and stops it after
the join, so that the mixer never sees MIDI traffic without a live audio session.

* `lifeInv_step`: what the process holds follows from where `main` and the thread are.
* `audio_gate`: in every interleaving the thread works with a live engine and within its
  own claims, and a process that has ended holds nothing.
* `shutdown_ends`: after a signal the process can always go on to its end, and does so in
  a number of steps bounded by the ALSA events that the thread reads on the way.
-/

namespace DjmT1.Midi

open DjmT1.Lib

namespace DjmFull

/-- What the process holds of USB: the engine (`a.engine` between `djmt1_iso_start` and
    `djmt1_iso_stop`), `mctx`, `mh`, and the claims of the two interfaces. `hx` is set
    exactly while the second is held. -/
structure Held where
  engine : Bool
  context : Bool
  handle : Bool
  midiIface : Bool
  hidIface : Bool
  deriving DecidableEq

def Held.nothing : Held := ⟨false, false, false, false, false⟩

/-- What `main` gets and gives back at a step. -/
def Held.main (h : Held) (pc : MainPc) (ok : Bool) : Held :=
  match pc with
  | .startEngine => { h with engine := ok }
  | .seqSetup | .createThread => { h with engine := h.engine && ok }
  | .shutdown => { h with engine := false }
  | .setLoop | .run | .stop | .join | .exited | .failed => h

/-- What `midi_thread` gets and gives back at a step. -/
def Held.thread (h : Held) (pc : ThreadPc) (ok : Bool) : Held :=
  match pc with
  | .libusbInit => { h with context := ok }
  | .openDevice => { h with handle := ok, context := h.context && ok }
  | .claimMidi => { h with midiIface := ok }
  | .claimHid => { h with hidIface := ok }
  -- the interfaces are released after the last round, `hid` only `if (hx)`
  | .tail i => if i < 4 then h else { h with midiIface := false, hidIface := false }
  | .out => { h with handle := false, context := false }
  | .notCreated | .submitMidi | .submitHid | .settle _ | .settleEvents _ | .arm | .test | .events
  | .drain | .cancel | .ended => h

def Held.follow (h : Held) (s : Daemon) (e : Event) (_ : Daemon) : Held :=
  match e with
  | .main ok => h.main s.main ok
  | .thread ok => h.thread s.thread ok
  | .onSignal | .midi _ _ | .hid _ _ => h

/-- `djm_full`, and what it holds. -/
def heldMachine : Machine (Daemon × Held) Event :=
  machine.observe (fun _ => Held.nothing) Held.follow

instance (r : Daemon × Held) (e : Event) : Decidable (heldMachine.enabled r e) :=
  inferInstanceAs (Decidable (machine.enabled r.1 e))

/-! ## Where things are held -/

/-- The engine has been started, and not yet stopped. -/
def MainPc.audioUp : MainPc → Bool
  | .seqSetup | .createThread | .setLoop | .run | .stop | .join | .shutdown => true
  | .startEngine | .exited | .failed => false

/-- `pthread_create` has not been called, or has failed. -/
def MainPc.threadless : MainPc → Bool
  | .startEngine | .seqSetup | .createThread | .failed => true
  | .setLoop | .run | .stop | .join | .shutdown | .exited => false

/-- `pthread_join` has returned. -/
def MainPc.joined : MainPc → Bool
  | .shutdown | .exited => true
  | .startEngine | .seqSetup | .createThread | .setLoop | .run | .stop | .join | .failed => false

/-- The thread has its libusb context, its handle, and the claim of the MIDI interface. -/
def ThreadPc.contextUp : ThreadPc → Bool
  | .notCreated | .libusbInit | .ended => false
  | .openDevice | .claimMidi | .submitMidi | .claimHid | .submitHid | .settle _ | .settleEvents _
  | .arm | .test | .events | .drain | .cancel | .tail _ | .out => true

def ThreadPc.handleUp : ThreadPc → Bool
  | .notCreated | .libusbInit | .openDevice | .ended => false
  | .claimMidi | .submitMidi | .claimHid | .submitHid | .settle _ | .settleEvents _
  | .arm | .test | .events | .drain | .cancel | .tail _ | .out => true

def ThreadPc.claimed : ThreadPc → Bool
  | .notCreated | .libusbInit | .openDevice | .claimMidi | .out | .ended => false
  | .submitMidi | .claimHid | .submitHid | .settle _ | .settleEvents _
  | .arm | .test | .events | .drain | .cancel | .tail _ => true

/-- The thread is at a point where the HID interface may be claimed. -/
def ThreadPc.hidMaybe : ThreadPc → Bool
  | .notCreated | .libusbInit | .openDevice | .claimMidi | .submitMidi | .claimHid | .out
  | .ended => false
  | .submitHid | .settle _ | .settleEvents _ | .arm | .test | .events | .drain | .cancel
  | .tail _ => true

/-- The thread has left its loop, and still waits for its transfers. -/
def ThreadPc.leaving : ThreadPc → Bool
  | .cancel | .tail _ => true
  | .notCreated | .libusbInit | .openDevice | .claimMidi | .submitMidi | .claimHid | .submitHid
  | .settle _ | .settleEvents _ | .arm | .test | .events | .drain | .out | .ended => false

/-- What the process holds follows from where `main` and the thread are. -/
structure LifeInv (s : Daemon) (h : Held) : Prop where
  engine : h.engine = s.main.audioUp
  context : h.context = s.thread.contextUp
  handle : h.handle = s.thread.handleUp
  midiIface : h.midiIface = s.thread.claimed
  hidIface : h.hidIface → s.thread.hidMaybe
  threadless : s.thread = .notCreated ↔ s.main.threadless
  joined : s.main.joined → s.thread = .ended
  submitHid : s.thread = .submitHid → h.hidIface
  /-- a HID transfer in flight has its interface, until the thread gives up on it -/
  hid : s.hid → h.hidIface ∨ s.thread = .out ∨ s.thread = .ended
  /-- the thread leaves its loop only when it has been told to -/
  quit : s.thread.leaving → s.bridge.quit

/-! ## One step -/

/-- A step of `main` leaves what the thread holds alone, and moves as the join allows. -/
theorem lifeInv_main {s t : Daemon} {h : Held} {ok : Bool} (hi : LifeInv s h)
    (hjoin : s.main = .join → s.thread = .ended) (hst : mainStep s ok = some t) :
    LifeInv t (h.main s.main ok) := by
  obtain ⟨engine, context, handle, midiIface, hidIface, threadless, joined, submitHid, hid, quit⟩ :=
    hi
  unfold mainStep at hst
  cases hpc : s.main with
  | exited | failed => simp [hpc] at hst
  | startEngine | seqSetup =>
    simp only [hpc] at hst
    obtain rfl := Option.some.inj hst
    rw [hpc] at engine threadless joined
    refine ⟨?_, context, handle, midiIface, hidIface, ?_, ?_, submitHid, hid, quit⟩ <;>
      cases ok <;> simp_all [Held.main, MainPc.audioUp, MainPc.threadless, MainPc.joined]
  | createThread =>
    simp only [hpc] at hst
    rw [hpc] at engine threadless joined
    have hnew : s.thread = .notCreated := threadless.mpr rfl
    rw [hnew] at context handle midiIface hidIface
    split_ifs at hst with hok
    · obtain rfl := Option.some.inj hst
      have hnone : h.hidIface = false := Bool.eq_false_iff.mpr fun hheld =>
        absurd (hidIface hheld) Bool.false_ne_true
      constructor <;> simp_all [Held.main, MainPc.audioUp, MainPc.threadless, MainPc.joined,
        ThreadPc.contextUp, ThreadPc.handleUp, ThreadPc.claimed, ThreadPc.leaving]
    · obtain rfl := Option.some.inj hst
      rw [← hnew] at context handle midiIface hidIface
      refine ⟨?_, context, handle, midiIface, hidIface, ?_, ?_, submitHid, hid, quit⟩ <;>
        simp_all [Held.main, MainPc.audioUp, MainPc.threadless, MainPc.joined]
  | setLoop | run | join | shutdown =>
    simp only [hpc] at hst
    obtain rfl := Option.some.inj hst
    rw [hpc] at engine threadless joined hjoin
    refine ⟨?_, context, handle, midiIface, hidIface, ?_, ?_, submitHid, hid, quit⟩ <;>
      simp_all [Held.main, MainPc.audioUp, MainPc.threadless, MainPc.joined]
  | stop =>
    simp only [hpc] at hst
    obtain rfl := Option.some.inj hst
    rw [hpc] at engine threadless joined
    refine ⟨?_, context, handle, midiIface, hidIface, ?_, ?_, submitHid, hid, fun _ => rfl⟩ <;>
      simp_all [Held.main, MainPc.audioUp, MainPc.threadless, MainPc.joined]

/-- A step of the thread takes and gives back what its next point says. -/
theorem lifeInv_thread {s t : Daemon} {h : Held} {ok : Bool} (hi : LifeInv s h)
    (hst : threadStep s ok = some t) : LifeInv t (h.thread s.thread ok) := by
  obtain ⟨engine, context, handle, midiIface, hidIface, threadless, joined, submitHid, hid, quit⟩ :=
    hi
  unfold threadStep at hst
  cases hpc : s.thread with
  | notCreated | ended => simp [hpc] at hst
  | libusbInit | openDevice | claimMidi | submitMidi | claimHid | submitHid | drain =>
    simp only [hpc] at hst
    obtain rfl := Option.some.inj hst
    rw [hpc] at context handle midiIface hidIface threadless joined submitHid hid quit
    cases ok <;> constructor <;> simp_all [Held.thread, ThreadPc.contextUp, ThreadPc.handleUp,
      ThreadPc.claimed, ThreadPc.hidMaybe, ThreadPc.leaving]
  | settle i | test =>
    -- the tests read the flag, and both ways lead on
    simp only [hpc] at hst
    obtain rfl := Option.some.inj hst
    rw [hpc] at context handle midiIface hidIface threadless joined submitHid hid quit
    cases hquit : s.bridge.quit <;> constructor <;> split_ifs <;> simp_all [Held.thread,
      ThreadPc.contextUp, ThreadPc.handleUp, ThreadPc.claimed, ThreadPc.hidMaybe, ThreadPc.leaving]
  | settleEvents | arm | events | cancel | out =>
    simp only [hpc] at hst
    obtain rfl := Option.some.inj hst
    rw [hpc] at context handle midiIface hidIface threadless joined submitHid hid quit
    constructor <;> simp_all [Held.thread, ThreadPc.contextUp, ThreadPc.handleUp,
      ThreadPc.claimed, ThreadPc.hidMaybe, ThreadPc.leaving]
  | tail i =>
    simp only [hpc] at hst
    obtain rfl := Option.some.inj hst
    rw [hpc] at context handle midiIface hidIface threadless joined submitHid hid quit
    by_cases hlast : i < 4
    · simp only [Held.thread, if_pos hlast]
      constructor <;> simp_all [ThreadPc.contextUp, ThreadPc.handleUp, ThreadPc.claimed,
        ThreadPc.hidMaybe, ThreadPc.leaving]
    · simp only [Held.thread, if_neg hlast]
      constructor <;> simp_all [ThreadPc.contextUp, ThreadPc.handleUp, ThreadPc.claimed,
        ThreadPc.hidMaybe, ThreadPc.leaving]

/-- A callback that does not clear `g_stop`, and puts no HID transfer in flight that was
    not. -/
theorem LifeInv.callback {s : Daemon} {h : Held} {b : Bridge} {midi hid : Bool} (hi : LifeInv s h)
    (hquit : s.bridge.quit → b.quit) (hhid : hid → s.hid) :
    LifeInv { s with bridge := b, midi, hid } h :=
  { hi with
    hid := fun hnew => hi.hid (hhid hnew)
    quit := fun hleaving => hquit (hi.quit hleaving) }

theorem lifeInv_step {s t : Daemon} {e : Event} {h : Held} (hi : LifeInv s h)
    (hst : machine.Step s e t) : LifeInv t (h.follow s e t) := by
  obtain ⟨hen, hst⟩ := hst
  cases e with
  | main ok => exact lifeInv_main hi hen.2.2 hst
  | thread ok => exact lifeInv_thread hi hst
  | onSignal =>
    obtain rfl := Option.some.inj hst
    exact { hi with quit := fun _ => rfl }
  | midi x ok =>
    obtain ⟨⟨b, again⟩, hcb, hst⟩ := Option.bind_eq_some_iff.mp hst
    obtain rfl := Option.some.inj hst
    exact hi.callback (fun hquit => (midiCb_quit hcb).mpr (.inr hquit)) id
  | hid x ok =>
    obtain rfl := Option.some.inj hst
    exact hi.callback (fun hquit => (hidCb_quit s.bridge x).mpr (.inr hquit)) fun _ => hen.2.2.1

theorem lifeInv {r : Daemon × Held} (hr : heldMachine.Reach r) : LifeInv r.1 r.2 := by
  refine Machine.ReachIf.observe (C := fun _ _ _ => True) hr ?_ ?_
  · intro s hinit
    rw [show s = _ from hinit]
    constructor <;> simp [Held.nothing, MainPc.audioUp, MainPc.threadless, MainPc.joined,
      ThreadPc.contextUp, ThreadPc.handleUp, ThreadPc.claimed, ThreadPc.leaving]
  · intro s e t h _ hi hst _
    exact lifeInv_step hi hst

/-! ## The transfers -/

/-- The transfers in flight. -/
def Daemon.inFlight (s : Daemon) : ℕ := s.midi.toNat + s.hid.toNat

/-- The step is the completion of a transfer. -/
def Event.completion : Event → Bool
  | .midi _ _ | .hid _ _ => true
  | .main _ | .thread _ | .onSignal => false

/-- Once `g_stop` is set, a completed transfer is not submitted again. -/
theorem completion_inFlight {s t : Daemon} {e : Event} (hquit : s.bridge.quit)
    (hst : machine.Step s e t) (he : e.completion) :
    t.inFlight + 1 = s.inFlight ∧ t.main = s.main ∧ t.thread = s.thread ∧ t.asked = s.asked ∧
      t.bridge.quit := by
  obtain ⟨hen, hst⟩ := hst
  cases e with
  | main ok | thread ok | onSignal => exact absurd he Bool.false_ne_true
  | midi x ok =>
    have hmidi : s.midi = true := hen.2.2.1
    obtain ⟨⟨b, again⟩, hcb, hst⟩ := Option.bind_eq_some_iff.mp hst
    obtain rfl := Option.some.inj hst
    have hagain : again = false := by
      obtain ⟨b', again', hcb', _, hcase⟩ := midiCb_cases (fun s => !s.quit) s.bridge x
      obtain ⟨rfl, rfl⟩ := Prod.mk.inj (Option.some.inj (hcb.symm.trans hcb'))
      rcases hcase with ⟨_, _, rfl⟩ | ⟨_, hkeep, rfl⟩
      · rfl
      · rw [hkeep, hquit]
        rfl
    have hquit' : b.quit = true := (midiCb_quit hcb).mpr (.inr hquit)
    simp [Daemon.inFlight, hagain, hmidi, hquit', Nat.add_comm]
  | hid x ok =>
    have hhid : s.hid = true := hen.2.2.1
    obtain rfl : t = { s with bridge := (hidCb s.bridge x).1, hid := (hidCb s.bridge x).2 && ok } :=
      (Option.some.inj hst).symm
    have hagain : (hidCb s.bridge x).2 = false := by
      unfold hidCb
      split_ifs
      · rfl
      · rw [hquit]
        rfl
    have hquit' : (hidCb s.bridge x).1.quit = true := (hidCb_quit s.bridge x).mpr (.inr hquit)
    simp [Daemon.inFlight, hagain, hhid, hquit']

theorem mainStep_inFlight {s t : Daemon} {ok : Bool} (hst : mainStep s ok = some t) :
    t.inFlight = s.inFlight := by
  unfold mainStep at hst
  cases hpc : s.main with
  | exited | failed => simp [hpc] at hst
  | createThread =>
    simp only [hpc] at hst
    split_ifs at hst <;>
    · obtain rfl := Option.some.inj hst
      rfl
  | startEngine | seqSetup | setLoop | run | stop | join | shutdown =>
    simp only [hpc] at hst
    obtain rfl := Option.some.inj hst
    rfl

/-- A thread that has left its loop submits nothing. -/
theorem leaving_inFlight {s t : Daemon} {ok : Bool} (hleaving : s.thread.leaving)
    (hst : threadStep s ok = some t) : t.inFlight = s.inFlight := by
  unfold threadStep at hst
  cases hpc : s.thread with
  | cancel | tail =>
    simp only [hpc] at hst
    obtain rfl := Option.some.inj hst
    rfl
  | notCreated | libusbInit | openDevice | claimMidi | submitMidi | claimHid | submitHid | settle
  | settleEvents | arm | test | events | drain | out | ended =>
    rw [hpc] at hleaving
    exact absurd hleaving Bool.false_ne_true

/-! ## The way out -/

/-- How many steps the thread still takes once `g_stop` is set. -/
def ThreadPc.rank : ThreadPc → ℕ
  | .ended => 0
  | .out => 1
  | .tail i => 2 + (4 - i)
  | .cancel => 7
  | .test => 8
  | .arm | .drain => 9
  | .settle _ | .events => 10
  | .settleEvents _ | .submitHid => 11
  | .claimHid => 12
  | .submitMidi => 13
  | .claimMidi => 14
  | .openDevice => 15
  | .libusbInit => 16
  | .notCreated => 17

/-- How many steps `main` still takes after `pw_main_loop_quit`. -/
def MainPc.rank : MainPc → ℕ
  | .exited | .failed => 0
  | .shutdown => 1
  | .join => 2
  | .stop => 3
  | .run => 4
  | .setLoop => 5
  | .createThread => 6
  | .seqSetup => 7
  | .startEngine => 8

/-- The steps that the process can still take: a thread that is told to stop may yet
    submit a transfer on its way out, and each transfer completes at most once more. -/
def Daemon.remaining (s : Daemon) : ℕ := 2 * s.thread.rank + s.main.rank + s.inFlight

/-- `drain_seq_input` reads an event, and goes around once more. It does not test
    `g_stop`. -/
def drains (s : Daemon) : Event → Bool
  | .thread ok => s.thread = .drain && !ok
  | .main _ | .onSignal | .midi _ _ | .hid _ _ => false

theorem threadStep_rank {s t : Daemon} {ok : Bool} (hquit : s.bridge.quit)
    (hst : threadStep s ok = some t) :
    2 * t.thread.rank + t.inFlight + 1 ≤
      2 * s.thread.rank + s.inFlight + (if drains s (.thread ok) then 1 else 0) := by
  unfold threadStep at hst
  cases hpc : s.thread with
  | notCreated | ended => simp [hpc] at hst
  | libusbInit | openDevice | claimMidi | claimHid =>
    simp only [hpc] at hst
    obtain rfl := Option.some.inj hst
    cases ok <;> simp only [ThreadPc.rank, Daemon.inFlight, if_true, Bool.false_eq_true,
      if_false] <;> omega
  | submitMidi =>
    simp only [hpc] at hst
    obtain rfl := Option.some.inj hst
    have := Bool.toNat_le ok
    simp only [ThreadPc.rank, Daemon.inFlight]
    omega
  | submitHid =>
    simp only [hpc] at hst
    obtain rfl := Option.some.inj hst
    have := Bool.toNat_le ok
    simp only [ThreadPc.rank, Daemon.inFlight]
    omega
  | settle i | test =>
    simp only [hpc] at hst
    obtain rfl := Option.some.inj hst
    simp only [hquit, not_true, and_false, if_true, if_false, ThreadPc.rank, Daemon.inFlight]
    omega
  | settleEvents | arm | events | cancel | out =>
    simp only [hpc] at hst
    obtain rfl := Option.some.inj hst
    simp only [ThreadPc.rank, Daemon.inFlight]
    omega
  | drain =>
    simp only [hpc] at hst
    obtain rfl := Option.some.inj hst
    cases ok with
    | true =>
      simp only [if_true, ThreadPc.rank, Daemon.inFlight]
      omega
    | false =>
      -- the step makes up for itself
      have hdrains : drains s (.thread false) = true := by simp [drains, hpc]
      simp only [hdrains, Bool.false_eq_true, if_true, if_false, ThreadPc.rank, Daemon.inFlight]
      omega
  | tail i =>
    simp only [hpc] at hst
    obtain rfl := Option.some.inj hst
    by_cases hlast : i < 4
    · simp only [if_pos hlast, ThreadPc.rank, Daemon.inFlight]
      omega
    · simp only [if_neg hlast, ThreadPc.rank, Daemon.inFlight]
      omega

/-- Once it has been asked to quit, `main` is at `pw_main_loop_run` or past it, and
    `g_stop` is set. -/
structure Asked (s : Daemon) : Prop where
  quit : s.bridge.quit
  main : s.main = .run ∨ s.main.returned
  asked : s.asked

theorem mainStep_rank {s t : Daemon} {ok : Bool} (h : Asked s) (hst : mainStep s ok = some t) :
    Asked t ∧ t.main.rank + 1 = s.main.rank ∧ t.thread = s.thread ∧ t.inFlight = s.inFlight := by
  obtain ⟨hquit, hmain, hasked⟩ := h
  unfold mainStep at hst
  cases hpc : s.main with
  | startEngine | seqSetup | createThread | setLoop | failed =>
    simp [hpc, MainPc.returned] at hmain
  | exited => simp [hpc] at hst
  | run | join | shutdown =>
    simp only [hpc] at hst
    obtain rfl := Option.some.inj hst
    exact ⟨⟨hquit, .inr rfl, hasked⟩, rfl, rfl, rfl⟩
  | stop =>
    simp only [hpc] at hst
    obtain rfl := Option.some.inj hst
    exact ⟨⟨rfl, .inr rfl, hasked⟩, rfl, rfl, rfl⟩

/-- Anything but a signal. -/
def Event.progress : Event → Bool
  | .main _ | .thread _ | .midi _ _ | .hid _ _ => true
  | .onSignal => false

/-- After a signal every step but one that reads an event brings the process nearer to its
    end. -/
theorem remaining_step {s t : Daemon} {e : Event} (h : Asked s) (hst : machine.Step s e t) :
    Asked t ∧ t.remaining + (if e.progress then 1 else 0) ≤
      s.remaining + (if drains s e then 1 else 0) := by
  unfold Daemon.remaining
  cases e with
  | main ok =>
    obtain ⟨ht, hrank, hthread, hflight⟩ := mainStep_rank h hst.2
    refine ⟨ht, ?_⟩
    rw [hthread, hflight, Event.progress, if_pos rfl]
    omega
  | thread ok =>
    obtain ⟨hbridge, hasked, hmain⟩ := threadStep_cases hst.2
    have hrank := threadStep_rank h.quit hst.2
    refine ⟨⟨by rw [hbridge, h.quit], by rw [hmain]; exact h.main, by rw [hasked, h.asked]⟩, ?_⟩
    rw [hmain, Event.progress, if_pos rfl]
    omega
  | onSignal =>
    obtain rfl := Option.some.inj hst.2
    exact ⟨⟨rfl, h.main, rfl⟩, le_rfl⟩
  | midi x ok | hid x ok =>
    obtain ⟨hflight, hmain, hthread, hasked, hquit⟩ := completion_inFlight h.quit hst rfl
    refine ⟨⟨hquit, by rw [hmain]; exact h.main, by rw [hasked, h.asked]⟩, ?_⟩
    rw [hmain, hthread, Event.progress, if_pos rfl]
    omega

theorem asked_of_reach {s : Daemon} (h : machine.Reach s) (hasked : s.asked) : Asked s := by
  refine h.invariant (I := fun s => s.asked → Asked s) ?_ ?_ hasked
  · intro s hinit hs
    rw [show s = _ from hinit] at hs
    exact absurd hs Bool.false_ne_true
  · intro s e t _ ih hst _ ht
    by_cases hs : s.asked = true
    · exact (remaining_step (ih hs) hst).1
    · -- only a signal asks, and it comes while the main loop runs
      obtain ⟨hen, hst⟩ := hst
      cases e with
      | main ok => exact absurd ((mainStep_cases hst).1.symm.trans ht) hs
      | thread ok => exact absurd ((threadStep_cases hst).2.1.symm.trans ht) hs
      | onSignal =>
        obtain rfl := Option.some.inj hst
        exact ⟨rfl, .inl hen, rfl⟩
      | midi x ok =>
        obtain ⟨⟨b, again⟩, hcb, hst⟩ := Option.bind_eq_some_iff.mp hst
        obtain rfl := Option.some.inj hst
        exact absurd ht hs
      | hid x ok =>
        obtain rfl := Option.some.inj hst
        exact absurd ht hs

/-! ## What holds of all runs -/

/-- A thread that runs has a live engine. -/
theorem LifeInv.engine_live {s : Daemon} {h : Held} (hi : LifeInv s h)
    (hnew : s.thread ≠ .notCreated) (hended : s.thread ≠ .ended) : h.engine := by
  have hthread : s.main.threadless = false :=
    Bool.eq_false_iff.mpr fun hless => hnew (hi.threadless.mpr hless)
  have hjoined : s.main.joined = false :=
    Bool.eq_false_iff.mpr fun hjoined => hended (hi.joined hjoined)
  rw [hi.engine]
  cases hpc : s.main with
  | startEngine | failed | seqSetup | createThread =>
    rw [hpc] at hthread
    exact absurd hthread.symm Bool.false_ne_true
  | shutdown | exited =>
    rw [hpc] at hjoined
    exact absurd hjoined.symm Bool.false_ne_true
  | setLoop | run | stop | join => rfl

/-- Where libusb can run a callback, the thread has its handle and its claims. -/
theorem LifeInv.pumping {s : Daemon} {h : Held} (hi : LifeInv s h) (hpumps : s.thread.pumps) :
    h.context ∧ h.handle ∧ h.midiIface ∧ (s.hid → h.hidIface) := by
  rw [hi.context, hi.handle, hi.midiIface]
  have hhid := hi.hid
  cases hpc : s.thread with
  | notCreated | libusbInit | openDevice | claimMidi | submitMidi | claimHid | submitHid | settle
  | test | cancel | out | ended =>
    rw [hpc] at hpumps
    exact absurd hpumps Bool.false_ne_true
  | settleEvents | arm | events | drain | tail =>
    rw [hpc] at hhid
    exact ⟨rfl, rfl, rfl, fun hs => by simpa using hhid hs⟩

/-- A process that has ended has given everything back, or has never had it. -/
theorem LifeInv.gone {s : Daemon} {h : Held} (hi : LifeInv s h) (hgone : s.main.alive = false) :
    h = Held.nothing ∧ (s.thread = .notCreated ∨ s.thread = .ended) := by
  have hdown : s.main.audioUp = false ∧ (s.thread = .notCreated ∨ s.thread = .ended) := by
    have hnew := hi.threadless
    have hjoined := hi.joined
    cases hpc : s.main with
    | startEngine | seqSetup | createThread | setLoop | run | stop | join | shutdown =>
      rw [hpc] at hgone
      exact absurd hgone.symm Bool.false_ne_true
    | exited =>
      rw [hpc] at hjoined
      exact ⟨rfl, .inr (hjoined rfl)⟩
    | failed =>
      rw [hpc] at hnew
      exact ⟨rfl, .inl (hnew.mpr rfl)⟩
  obtain ⟨haudio, hthread⟩ := hdown
  refine ⟨?_, hthread⟩
  obtain ⟨engine, context, handle, midiIface, hidIface⟩ := h
  have hengine := hi.engine
  have hcontext := hi.context
  have hhandle := hi.handle
  have hmidi := hi.midiIface
  have hhid := hi.hidIface
  rcases hthread with hpc | hpc <;>
    simp_all [Held.nothing, ThreadPc.contextUp, ThreadPc.handleUp, ThreadPc.claimed,
      ThreadPc.hidMaybe]

/-- The gate: while the MIDI thread runs, the audio engine is live. libusb runs its
    callbacks only while the thread holds what they use; a process that has ended holds
    nothing; and once the thread has left its loop, each transfer that completes is one
    less in flight and no other step submits one. -/
theorem audio_gate {r : Daemon × Held} (hr : heldMachine.Reach r) :
    (r.1.thread ≠ .notCreated → r.1.thread ≠ .ended → r.2.engine) ∧
      (r.1.thread.pumps →
        r.2.context ∧ r.2.handle ∧ r.2.midiIface ∧ (r.1.hid → r.2.hidIface)) ∧
      (r.1.main.alive = false →
        r.2 = Held.nothing ∧ (r.1.thread = .notCreated ∨ r.1.thread = .ended)) ∧
      ∀ e t, machine.Step r.1 e t → r.1.thread.leaving →
        t.inFlight + (if e.completion then 1 else 0) = r.1.inFlight := by
  have hi := lifeInv hr
  refine ⟨hi.engine_live, hi.pumping, hi.gone, ?_⟩
  intro e t hst hleaving
  cases e with
  | main ok => exact mainStep_inFlight hst.2
  | thread ok => exact leaving_inFlight hleaving hst.2
  | onSignal =>
    obtain rfl := Option.some.inj hst.2
    rfl
  | midi x ok | hid x ok => exact (completion_inFlight (hi.quit hleaving) hst rfl).1

/-- The MIDI thread in its loop. -/
theorem audio_gate_upRun : ∃ r, heldMachine.play (start, Held.nothing) upRun = some r ∧
    r.1.thread = .events ∧ r.2.engine ∧ r.2.context ∧ r.2.handle ∧ r.2.midiIface := by
  have hrun : ∃ r, heldMachine.play (start, Held.nothing) upRun = some r ∧
      r.1.thread = .events := ⟨_, rfl, rfl⟩
  obtain ⟨r, hup, hevents⟩ := hrun
  have hr := Machine.play_reach (M := heldMachine) ⟨start_init, rfl⟩ hup
  obtain ⟨hlive, hpumps, _⟩ := audio_gate hr
  obtain ⟨hcontext, hhandle, hmidi, _⟩ := hpumps (by rw [hevents]; rfl)
  exact ⟨r, hup, hevents, hlive (by simp [hevents]) (by simp [hevents]), hcontext, hhandle, hmidi⟩

/-- Where `main` has been asked to quit and has not ended, it or the thread can go on. -/
theorem LifeInv.go_on {s : Daemon} {h : Held} (hi : LifeInv s h) (ha : Asked s)
    (hmain : s.main ≠ .exited) (ok : Bool) :
    machine.enabled s (.main ok) ∨ machine.enabled s (.thread ok) := by
  have halive : s.main.alive := by
    rcases ha.main with hrun | hret
    · rw [hrun]
      rfl
    · cases hpc : s.main with
      | startEngine | seqSetup | createThread | setLoop | run | stop | join | shutdown => rfl
      | exited => exact absurd hpc hmain
      | failed =>
        rw [hpc] at hret
        exact absurd hret Bool.false_ne_true
  by_cases hjoin : s.main = .join ∧ s.thread ≠ .ended
  · -- in `pthread_join` it is the thread's turn
    refine .inr ⟨halive, fun hnew => ?_, hjoin.2⟩
    have hless := hi.threadless.mp hnew
    rw [hjoin.1] at hless
    exact absurd hless Bool.false_ne_true
  · exact .inl ⟨halive, fun _ => ha.asked, fun hat => by_contra fun hended => hjoin ⟨hat, hended⟩⟩

theorem exists_step {r : Daemon × Held} {e : Event} (hen : machine.enabled r.1 e) :
    ∃ t, heldMachine.Step r e t := by
  obtain ⟨t, ht⟩ := Option.isSome_iff_exists.mp (machine_defined r.1 e hen)
  exact ⟨(t, r.2.follow r.1 e t), Machine.step_observe.mpr ⟨⟨hen, ht⟩, rfl⟩⟩

theorem ThreadPc.rank_le {pc : ThreadPc} (h : pc ≠ .notCreated) : pc.rank ≤ 16 := by
  cases pc with
  | notCreated => exact absurd rfl h
  | tail i =>
    rw [rank]
    omega
  | libusbInit | openDevice | claimMidi | submitMidi | claimHid | submitHid | settle | settleEvents
  | arm | test | events | drain | cancel | out | ended => simp [rank]

theorem remaining_le {s : Daemon} {h : Held} (ha : Asked s) (hi : LifeInv s h) :
    s.remaining ≤ 38 := by
  have hmain : s.main.rank ≤ 4 ∧ s.main.threadless = false := by
    rcases ha.main with hrun | hret
    · rw [hrun]
      decide
    · cases hpc : s.main with
      | stop | join | shutdown | exited => decide
      | startEngine | seqSetup | createThread | setLoop | run | failed =>
        rw [hpc] at hret
        exact absurd hret Bool.false_ne_true
  have hthread := ThreadPc.rank_le fun hnew =>
    absurd ((hi.threadless.mp hnew).symm.trans hmain.2) Bool.noConfusion
  have hmidi := Bool.toNat_le s.midi
  have hhid := Bool.toNat_le s.hid
  unfold Daemon.remaining Daemon.inFlight
  omega

/-- After a signal the process goes on to its end, whatever libusb does: it has at most
    38 steps left besides one for each event that the thread reads, and until it has ended
    and given everything back, `main` or the thread can take one. -/
theorem shutdown_ends {r r' : Daemon × Held} {es : List Event} (hr : heldMachine.Reach r)
    (hasked : r.1.asked) (hplay : heldMachine.play r es = some r') :
    es.countP Event.progress ≤ 38 + heldMachine.countSteps (fun r => drains r.1) r es ∧
      (r'.1.main = .exited ∧ r'.2 = Held.nothing ∨
        ∀ ok, (∃ t, heldMachine.Step r' (.main ok) t) ∨
          ∃ t, heldMachine.Step r' (.thread ok) t) := by
  have hstep : ∀ (r : Daemon × Held) e t, (Asked r.1 ∧ LifeInv r.1 r.2) →
      heldMachine.Step r e t →
      (Asked t.1 ∧ LifeInv t.1 t.2) ∧
        t.1.remaining + (if e.progress then 1 else 0) ≤
          r.1.remaining + (if drains r.1 e then 1 else 0) := by
    intro r e t ⟨ha, hi⟩ hst
    obtain ⟨hst, hfollow⟩ := Machine.step_observe.mp hst
    obtain ⟨ha', hle⟩ := remaining_step ha hst
    refine ⟨⟨ha', ?_⟩, hle⟩
    rw [hfollow]
    exact lifeInv_step hi hst
  have ha := asked_of_reach (Machine.ReachIf.unobserved (C := fun _ _ _ => True) hr) hasked
  have hi := lifeInv hr
  obtain ⟨⟨ha', hi'⟩, hcount⟩ := Machine.play_measure hstep ⟨ha, hi⟩ hplay
  constructor
  · have hbound := remaining_le ha hi
    omega
  · by_cases hend : r'.1.main = .exited
    · exact .inl ⟨hend, (hi'.gone (by rw [hend]; rfl)).1⟩
    · exact .inr fun ok => (hi'.go_on ha' hend ok).imp exists_step exists_step

/-- Ctrl-C, and the process to its end: the thread reads one more event, and both transfers
    come back cancelled. -/
def ctrlCRun : List Event :=
  [.onSignal, .thread true, .thread false, .main true, .thread true, .thread true, .thread true,
    .midi (emptyTransfer .cancelled midiMaxpkt) true, .thread true,
    .hid (emptyTransfer .cancelled hidLen) true] ++
    List.replicate 5 (.thread true) ++ List.replicate 3 (.main true)

theorem shutdown_ends_ctrlCRun : ∃ r r',
    heldMachine.play (start, Held.nothing) (upRun ++ [.onSignal]) = some r ∧
      heldMachine.play r ctrlCRun = some r' ∧ r'.1.main = .exited ∧
      ctrlCRun.countP Event.progress ≤
        38 + heldMachine.countSteps (fun r => drains r.1) r ctrlCRun := by
  have hrun : ∃ r r', heldMachine.play (start, Held.nothing) (upRun ++ [.onSignal]) = some r ∧
      heldMachine.play r ctrlCRun = some r' ∧ r.1.asked = true ∧ r'.1.main = .exited :=
    ⟨_, _, rfl, rfl, rfl, rfl⟩
  obtain ⟨r, r', hup, hplay, hasked, hexited⟩ := hrun
  have hr := Machine.play_reach (M := heldMachine) ⟨start_init, rfl⟩ hup
  exact ⟨r, r', hup, hplay, hexited, (shutdown_ends hr hasked hplay).1⟩

end DjmFull

end DjmT1.Midi
