import DjmT1.Lib.Machine
import DjmT1.Midi.Packet

/-!
# The bridge stays live

`djm_midi` keeps one MIDI IN and one HID IN transfer with libusb: their callbacks
submit them again. The callbacks run inside the libusb calls of `main`, which is the
only thread, and a signal may come at any time. `DjmMidi.machine` is the process from
the submission of the MIDI IN transfer on.

* `live_fails`: nobody looks at the result of `libusb_submit_transfer`, so a refused
  submission silences a pipe while the main loop goes on.
* `djm_midi_live`: where no submission of the two transfers is refused, both are in
  flight whenever the main loop starts an iteration.
-/

namespace DjmT1.Midi

open DjmT1.Lib

namespace DjmMidi

/-- An audio transfer, `ain[i]` or `aout[i]`. -/
abbrev AudioXfer := Bool × Fin 4

/-- `hid_probe`, `last_hid`, `have_last_hid` and the reports printed. -/
structure HidProbe where
  hidProbe : Bool
  lastHid : Region Byte
  haveLastHid : Bool
  printed : List (List Byte)

/-- Where `main` is. -/
inductive MainPc
  /-- before `libusb_submit_transfer(mx)` (line 233) -/
  | submitMidi
  /-- at `if (hid_on)` and the claim of the HID interface (lines 236-237) -/
  | claimHid
  /-- before `libusb_submit_transfer(hx)` -/
  | submitHid
  /-- at the test of the settling loop (line 246), and in its body -/
  | settle (i : ℕ)
  | settleEvents (i : ℕ)
  /-- in `arm()` -/
  | arm
  /-- at the test of the main loop (line 254) -/
  | test
  /-- in `libusb_handle_events_timeout` -/
  | events
  /-- in `drain_seq_input()` -/
  | drain
  /-- before `running = 0; audio_on = 0; hid_on = 0` -/
  | teardown
  /-- in the loop that waits for the cancelled transfers -/
  | tail (i : ℕ)
  | exited
  deriving DecidableEq, Repr

/-- The points at which `main` is in a call of libusb that runs callbacks. The
    synchronous transfers of `arm` and `send_to_device` do. -/
def MainPc.pumps : MainPc → Bool
  | .settleEvents _ | .arm | .events | .drain | .tail _ => true
  | .submitMidi | .claimHid | .submitHid | .settle _ | .test | .teardown | .exited => false

/-- The process: its variables, the transfers that are in flight, and where `main`
    is. -/
structure Proc where
  bridge : Bridge
  audioOn : Bool
  hidOn : Bool
  probe : HidProbe
  midi : Bool
  hid : Bool
  audio : Finset AudioXfer
  pc : MainPc

/-- What happens next. `ok` is the result of the libusb call that the step makes, and in
    `drain_seq_input` whether the loop ends. -/
inductive Event
  /-- a step of `main` -/
  | main (ok : Bool)
  /-- SIGINT or SIGTERM -/
  | signal
  /-- the MIDI IN, the HID IN or an audio transfer completes, and its callback runs -/
  | midi (t : BulkTransfer) (ok : Bool)
  | hid (t : BulkTransfer) (ok : Bool)
  | audio (x : AudioXfer) (status : XferStatus) (ok : Bool)

/-! ## The steps -/

/-- `!have_last_hid || memcmp(last_hid, t->buffer, len) != 0`. -/
def HidProbe.changed (p : HidProbe) (t : BulkTransfer) : Option Bool :=
  if p.haveLastHid then
    if t.actualLength ≤ p.lastHid.size then
      some (p.lastHid.slice 0 t.actualLength ≠ t.buffer.slice 0 t.actualLength)
    else none
  else some true

/-- The part of `hid_cb` for `--hid-probe` (lines 157-166). -/
def HidProbe.report (p : HidProbe) (t : BulkTransfer) : Option HidProbe :=
  if p.hidProbe ∧ t.status = .completed ∧ 0 < t.actualLength then do
    let changed ← p.changed t
    if changed then do
      let len := if t.actualLength > hidLen then hidLen else t.actualLength
      let lastHid ← p.lastHid.memcpy (0 : ℕ) t.buffer (0 : ℕ) len
      return { p with
        lastHid, haveLastHid := true
        printed := p.printed ++ [t.buffer.slice 0 t.actualLength] }
    else return p
  else some p

/-- `do_quit = 1`. -/
def Proc.setQuit (s : Proc) : Proc := { s with bridge := { s.bridge with quit := true } }

/-- `hid_cb` (lines 155-168), and whether the transfer is submitted again. -/
def hidCb (s : Proc) (t : BulkTransfer) : Option (Proc × Bool) :=
  if t.status = .noDevice then some (s.setQuit, false)
  else do
    let probe ← s.probe.report t
    return ({ s with probe }, s.bridge.running && s.hidOn && !s.bridge.quit)

/-- `audio_cb` (lines 169-172). -/
def audioCb (s : Proc) (status : XferStatus) : Proc × Bool :=
  if status = .noDevice then (s.setQuit, false)
  else (s, s.bridge.running && s.audioOn && !s.bridge.quit)

/-- A step of `main` (lines 232-265). `drain_seq_input` takes a step for each event that
    it reads. -/
def mainStep (s : Proc) (ok : Bool) : Option Proc :=
  match s.pc with
  | .submitMidi => some { s with midi := ok, pc := .claimHid }
  | .claimHid =>
    if s.hidOn then
      if ok then some { s with pc := .submitHid }
      else some { s with hidOn := false, pc := .settle 0 }
    else some { s with pc := .settle 0 }
  | .submitHid => some { s with hid := ok, pc := .settle 0 }
  | .settle i =>
    if i < 10 ∧ ¬ s.bridge.quit then some { s with pc := .settleEvents i }
    else some { s with pc := .arm }
  | .settleEvents i => some { s with pc := .settle (i + 1) }
  | .arm => some { s with pc := .test }
  | .test =>
    if s.bridge.quit then some { s with pc := .teardown } else some { s with pc := .events }
  | .events => some { s with pc := .drain }
  | .drain => some { s with pc := if ok then .test else .drain }
  | .teardown => some { s with
      bridge := { s.bridge with running := false }, audioOn := false, hidOn := false
      pc := .tail 0 }
  | .tail i => some { s with pc := if i < 4 then .tail (i + 1) else .exited }
  | .exited => none

def enabled (s : Proc) : Event → Prop
  | .main _ | .signal => s.pc ≠ .exited
  | .midi t _ => s.pc.pumps ∧ s.midi ∧ t.buffer.size = midiMaxpkt
  | .hid t _ => s.pc.pumps ∧ s.hid ∧ t.buffer.size = hidLen
  | .audio x _ _ => s.pc.pumps ∧ x ∈ s.audio

def exec (s : Proc) : Event → Option Proc
  | .main ok => mainStep s ok
  | .signal => some s.setQuit
  | .midi t ok => do
    let (bridge, again) ← midiCb s.bridge t
    return { s with bridge, midi := again && ok }
  | .hid t ok => do
    let (s, again) ← hidCb s t
    return { s with hid := again && ok }
  | .audio x status ok =>
    let (s, again) := audioCb s status
    some { s with audio := if again && ok then s.audio else s.audio.erase x }

/-- `djm_midi` after the MIDI interface has been claimed, started with any flags and
    with any of the audio transfers in flight. -/
def machine : Machine Proc Event where
  init s := s.bridge = ⟨0, true, s.bridge.quit, []⟩ ∧
    s.probe = ⟨s.probe.hidProbe, Region.fill hidLen 0, false, []⟩ ∧
    s.midi = false ∧ s.hid = false ∧ s.pc = .submitMidi
  enabled := enabled
  exec := exec

instance (s : Proc) : (e : Event) → Decidable (machine.enabled s e)
  | .main _ | .signal => inferInstanceAs (Decidable (s.pc ≠ .exited))
  | .midi t _ => inferInstanceAs (Decidable (s.pc.pumps ∧ s.midi ∧ t.buffer.size = midiMaxpkt))
  | .hid t _ => inferInstanceAs (Decidable (s.pc.pumps ∧ s.hid ∧ t.buffer.size = hidLen))
  | .audio x _ _ => inferInstanceAs (Decidable (s.pc.pumps ∧ x ∈ s.audio))

/-! ## What the callbacks do -/

/-- The probe reads and writes within `last_hid` and the buffer of the transfer. -/
theorem HidProbe.report_defined (p : HidProbe) (t : BulkTransfer) (hlast : p.lastHid.size = hidLen)
    (hsize : t.buffer.size = hidLen) :
    ∃ p', p.report t = some p' ∧ p'.lastHid.size = hidLen := by
  have hle := t.le
  obtain ⟨changed, hchanged⟩ : ∃ changed, p.changed t = some changed := by
    unfold changed
    by_cases hhave : p.haveLastHid
    · exact ⟨_, by rw [if_pos hhave, if_pos (by omega)]⟩
    · exact ⟨_, if_neg hhave⟩
  unfold report
  by_cases hprobe : p.hidProbe ∧ t.status = .completed ∧ 0 < t.actualLength
  · rw [if_pos hprobe, hchanged, Option.bind_eq_bind, Option.bind_some]
    cases changed with
    | false => exact ⟨p, rfl, hlast⟩
    | true =>
      rw [if_neg (show ¬ t.actualLength > hidLen by omega)]
      obtain ⟨last, hmem⟩ : ∃ last, p.lastHid.memcpy (0 : ℕ) t.buffer (0 : ℕ) t.actualLength =
        some last := ⟨_, Region.memcpy_eq (by omega) (by omega)⟩
      simp only [if_true, hmem, Option.bind_eq_bind, Option.bind_some, Option.pure_def]
      exact ⟨_, rfl, (Region.size_of_memcpy hmem).trans hlast⟩
  · exact ⟨p, if_neg hprobe, hlast⟩

/-- `hid_cb` is defined on what libusb reports, touches none of the other variables, and
    asks for its transfer again unless the device is gone or a flag says no. -/
theorem hidCb_cases (s : Proc) (t : BulkTransfer) (hlast : s.probe.lastHid.size = hidLen)
    (hsize : t.buffer.size = hidLen) :
    ∃ probe quit again, hidCb s t =
        some ({ s with probe, bridge := { s.bridge with quit } }, again) ∧
      probe.lastHid.size = hidLen ∧
      (t.status = .noDevice ∧ quit = true ∨ t.status ≠ .noDevice ∧ quit = s.bridge.quit ∧
        again = (s.bridge.running && s.hidOn && !s.bridge.quit)) := by
  by_cases hgone : t.status = .noDevice
  · exact ⟨s.probe, true, false, by rw [hidCb, if_pos hgone]; rfl, hlast, .inl ⟨hgone, rfl⟩⟩
  · obtain ⟨probe, hp, hsize'⟩ := s.probe.report_defined t hlast hsize
    refine ⟨probe, s.bridge.quit, s.bridge.running && s.hidOn && !s.bridge.quit, ?_, hsize',
      .inr ⟨hgone, rfl, rfl⟩⟩
    rw [hidCb, if_neg hgone, hp]
    rfl

/-- What `hid_cb` has done: told that the device is gone, it has set `do_quit`; else it has
    looked at the report. -/
theorem hidCb_eq_some {s u : Proc} {t : BulkTransfer} {again : Bool}
    (h : hidCb s t = some (u, again)) :
    t.status = .noDevice ∧ u = s.setQuit ∧ again = false ∨
      t.status ≠ .noDevice ∧ (∃ probe, s.probe.report t = some probe ∧ u = { s with probe }) ∧
        again = (s.bridge.running && s.hidOn && !s.bridge.quit) := by
  unfold hidCb at h
  split_ifs at h with hgone
  · obtain ⟨rfl, rfl⟩ := Prod.mk.inj (Option.some.inj h)
    exact .inl ⟨hgone, rfl, rfl⟩
  · obtain ⟨probe, hprobe, h⟩ := Option.bind_eq_some_iff.mp h
    obtain ⟨rfl, rfl⟩ := Prod.mk.inj (Option.some.inj h)
    exact .inr ⟨hgone, ⟨probe, hprobe, rfl⟩, rfl⟩

/-- `audio_cb` touches the quit flag only, and never clears it. -/
theorem audioCb_cases (s : Proc) (status : XferStatus) :
    ∃ quit again, audioCb s status = ({ s with bridge := { s.bridge with quit } }, again) ∧
      (quit = true ∨ quit = s.bridge.quit) := by
  by_cases hgone : status = .noDevice
  · exact ⟨true, false, if_pos hgone, .inl rfl⟩
  · exact ⟨s.bridge.quit, _, if_neg hgone, .inr rfl⟩

/-- `main` can always go on, and does not touch the probe. -/
theorem mainStep_defined {s : Proc} (ok : Bool) (h : s.pc ≠ .exited) :
    ∃ t, mainStep s ok = some t ∧ t.probe = s.probe := by
  unfold mainStep
  cases hpc : s.pc with
  | exited => exact absurd hpc h
  | submitMidi | submitHid | settleEvents | arm | events | drain | teardown | tail =>
    exact ⟨_, rfl, rfl⟩
  | claimHid | settle | test =>
    simp only
    split_ifs <;> exact ⟨_, rfl, rfl⟩

/-- A step that may be taken is defined, and leaves `last_hid` as large as it is. -/
theorem exec_defined {s : Proc} {e : Event} (hlast : s.probe.lastHid.size = hidLen)
    (hen : enabled s e) : ∃ t, exec s e = some t ∧ t.probe.lastHid.size = hidLen := by
  cases e with
  | main ok =>
    obtain ⟨t, ht, hprobe⟩ := mainStep_defined ok hen
    exact ⟨t, ht, by rw [hprobe, hlast]⟩
  | signal => exact ⟨_, rfl, hlast⟩
  | midi x ok =>
    obtain ⟨b, again, hcb, -⟩ := midiCb_cases (fun s => s.running && !s.quit) s.bridge x
    refine ⟨{ s with bridge := b, midi := again && ok }, ?_, hlast⟩
    rw [exec, DjmMidi.midiCb, hcb]
    rfl
  | hid x ok =>
    obtain ⟨probe, quit, again, hcb, hsize, -⟩ := hidCb_cases s x hlast hen.2.2
    refine ⟨{ s with
      probe, bridge := { s.bridge with quit }, hid := again && ok }, ?_, hsize⟩
    rw [exec, hcb]
    rfl
  | audio x status ok =>
    obtain ⟨quit, again, hcb, _⟩ := audioCb_cases s status
    refine ⟨{ s with
      bridge := { s.bridge with quit }
      audio := if again && ok then s.audio else s.audio.erase x }, ?_, hlast⟩
    rw [exec, hcb]

theorem lastHid_size {C : Proc → Event → Proc → Prop} {s : Proc} (h : machine.ReachIf C s) :
    s.probe.lastHid.size = hidLen := by
  refine h.invariant (I := fun s => s.probe.lastHid.size = hidLen) ?_ ?_
  · rintro s ⟨_, hprobe, _⟩
    rw [hprobe]
    rfl
  · rintro s e t _ hlast ⟨hen, hst⟩ _
    obtain ⟨t', ht', hlast'⟩ := exec_defined hlast hen
    rw [Option.some.inj (hst.symm.trans ht')]
    exact hlast'

/-- `djm_midi` reads and writes within its buffers, whatever libusb reports. -/
theorem machine_defined {s : Proc} (h : machine.Reach s) : machine.Defined s := by
  intro e hen
  obtain ⟨t, ht, _⟩ := exec_defined (lastHid_size h) hen
  rw [show machine.exec s e = some t from ht]
  rfl

/-! ## What holds of all runs -/

/-- The points of `main` at which the MIDI IN transfer has been submitted, and not yet
    given up. -/
def MainPc.midiUp : MainPc → Bool
  | .submitMidi | .tail _ | .exited => false
  | .claimHid | .submitHid | .settle _ | .settleEvents _ | .arm | .test | .events | .drain
  | .teardown => true

/-- The same for the HID IN transfer. -/
def MainPc.hidUp : MainPc → Bool
  | .submitMidi | .claimHid | .submitHid | .tail _ | .exited => false
  | .settle _ | .settleEvents _ | .arm | .test | .events | .drain | .teardown => true

/-- Until the bridge is told to quit, the transfers that have been submitted are in
    flight. -/
structure LiveInv (s : Proc) : Prop where
  running : s.pc ≠ .exited → (∀ i, s.pc ≠ .tail i) → s.bridge.running
  midi : s.pc.midiUp → s.bridge.quit = false → s.midi
  hid : s.pc.hidUp → s.bridge.quit = false → s.hidOn → s.hid

/-- The step calls `libusb_submit_transfer` on the MIDI IN or the HID IN transfer. -/
def Submits (s : Proc) : Event → Prop
  | .main _ => s.pc = .submitMidi ∨ s.pc = .submitHid
  | .midi t _ => t.status ≠ .noDevice ∧ s.bridge.running ∧ ¬ s.bridge.quit
  | .hid t _ => t.status ≠ .noDevice ∧ s.bridge.running ∧ s.hidOn ∧ ¬ s.bridge.quit
  | .signal | .audio _ _ _ => False

/-- The result of the libusb call that a step makes. -/
def Event.ok : Event → Bool
  | .main ok | .midi _ ok | .hid _ ok | .audio _ _ ok => ok
  | .signal => true

/-- If it does, the submission is not refused. -/
def Accepted (s : Proc) (e : Event) : Prop := Submits s e → e.ok

instance (s : Proc) : (e : Event) → Decidable (Submits s e)
  | .main _ => inferInstanceAs (Decidable (s.pc = .submitMidi ∨ s.pc = .submitHid))
  | .midi t _ => inferInstanceAs (Decidable
      (t.status ≠ .noDevice ∧ s.bridge.running = true ∧ ¬ s.bridge.quit = true))
  | .hid t _ => inferInstanceAs (Decidable (t.status ≠ .noDevice ∧ s.bridge.running = true ∧
      s.hidOn = true ∧ ¬ s.bridge.quit = true))
  | .signal | .audio _ _ _ => inferInstanceAs (Decidable False)

instance (s : Proc) (e : Event) : Decidable (Accepted s e) :=
  inferInstanceAs (Decidable (_ → _))

/-- `main` goes on from a point after the submissions. -/
theorem LiveInv.goto {s : Proc} (h : LiveInv s) (hup : s.pc.hidUp) (pc : MainPc) :
    LiveInv { s with pc } := by
  have hmidi : s.pc.midiUp := by
    cases hpc : s.pc <;> rw [hpc] at hup <;> first | rfl | exact absurd hup Bool.false_ne_true
  have hrun : s.bridge.running := by
    refine h.running ?_ fun i => ?_
    · rintro hpc
      rw [hpc] at hup
      exact absurd hup Bool.false_ne_true
    · rintro hpc
      rw [hpc] at hup
      exact absurd hup Bool.false_ne_true
  exact ⟨fun _ _ => hrun, fun _ => h.midi hmidi, fun _ => h.hid hup⟩

/-- `main` is past its loop. -/
theorem LiveInv.down {s : Proc} (hpc : s.pc = .exited ∨ ∃ i, s.pc = .tail i) : LiveInv s := by
  have hup : s.pc.midiUp = false ∧ s.pc.hidUp = false := by
    rcases hpc with hpc | ⟨i, hpc⟩
    · rw [hpc]
      exact ⟨rfl, rfl⟩
    · rw [hpc]
      exact ⟨rfl, rfl⟩
  refine ⟨fun hne htail => ?_, fun h => ?_, fun h => ?_⟩
  · rcases hpc with hpc | ⟨i, hpc⟩
    · exact absurd hpc hne
    · exact absurd hpc (htail i)
  · exact absurd (hup.1.symm.trans h) Bool.false_ne_true
  · exact absurd (hup.2.symm.trans h) Bool.false_ne_true

/-- A step of `main`. -/
theorem LiveInv.main {s t : Proc} {ok : Bool} (h : LiveInv s) (hst : mainStep s ok = some t)
    (hacc : s.pc = .submitMidi ∨ s.pc = .submitHid → ok) : LiveInv t := by
  unfold mainStep at hst
  cases hpc : s.pc with
  | submitMidi =>
    simp only [hpc] at hst
    obtain rfl := Option.some.inj hst
    exact ⟨fun _ _ => h.running (by simp [hpc]) (by simp [hpc]), fun _ _ => hacc (.inl hpc),
      fun hup => absurd hup Bool.false_ne_true⟩
  | claimHid =>
    have hmidi := h.midi (by rw [hpc]; rfl)
    have hrun := h.running (by simp [hpc]) (by simp [hpc])
    simp only [hpc] at hst
    split_ifs at hst with hon
    · obtain rfl := Option.some.inj hst
      exact ⟨fun _ _ => hrun, fun _ => hmidi, fun hup => absurd hup Bool.false_ne_true⟩
    · -- the claim fails, and `hid_on` is cleared
      obtain rfl := Option.some.inj hst
      exact ⟨fun _ _ => hrun, fun _ => hmidi, fun _ _ hon' => absurd hon' Bool.false_ne_true⟩
    · obtain rfl := Option.some.inj hst
      exact ⟨fun _ _ => hrun, fun _ => hmidi, fun _ _ hon' => absurd hon' hon⟩
  | submitHid =>
    simp only [hpc] at hst
    obtain rfl := Option.some.inj hst
    exact ⟨fun _ _ => h.running (by simp [hpc]) (by simp [hpc]), fun _ => h.midi (by rw [hpc]; rfl),
      fun _ _ _ => hacc (.inr hpc)⟩
  | settle i =>
    simp only [hpc] at hst
    split_ifs at hst <;> (obtain rfl := Option.some.inj hst; exact h.goto (by rw [hpc]; rfl) _)
  | test =>
    simp only [hpc] at hst
    split_ifs at hst <;> (obtain rfl := Option.some.inj hst; exact h.goto (by rw [hpc]; rfl) _)
  | settleEvents | arm | events | drain =>
    simp only [hpc] at hst
    obtain rfl := Option.some.inj hst
    exact h.goto (by rw [hpc]; rfl) _
  | teardown =>
    simp only [hpc] at hst
    obtain rfl := Option.some.inj hst
    exact .down (.inr ⟨0, rfl⟩)
  | tail i =>
    simp only [hpc] at hst
    obtain rfl := Option.some.inj hst
    refine .down ?_
    by_cases hi : i < 4
    · exact .inr ⟨i + 1, if_pos hi⟩
    · exact .inl (if_neg hi)
  | exited => simp [hpc] at hst

/-- Whoever sets the quit flag, the bridge need not stay live. -/
theorem LiveInv.quit {s t : Proc} (h : LiveInv s) (hquit : t.bridge.quit = true)
    (hrun : t.bridge.running = s.bridge.running) (hpc : t.pc = s.pc) : LiveInv t := by
  refine ⟨?_, fun _ hq => ?_, fun _ hq => ?_⟩
  · rw [hpc, hrun]
    exact h.running
  · rw [hquit] at hq
    cases hq
  · rw [hquit] at hq
    cases hq

/-- A callback runs while `running` is set, or after the main loop. -/
theorem MainPc.up_of_midiUp {pc : MainPc} (h : pc.midiUp) :
    pc ≠ .exited ∧ ∀ i, pc ≠ .tail i := by
  constructor
  · rintro rfl
    cases h
  · rintro i rfl
    cases h

theorem MainPc.midiUp_of_hidUp {pc : MainPc} (h : pc.hidUp) : pc.midiUp := by
  cases pc <;> first | rfl | exact h

/-- The MIDI IN transfer completes. -/
theorem LiveInv.midiCb {s t : Proc} {x : BulkTransfer} {ok : Bool} (h : LiveInv s)
    (hst : exec s (.midi x ok) = some t) (hacc : Accepted s (.midi x ok)) : LiveInv t := by
  obtain ⟨b, again, hcb, hrun, hcase⟩ := midiCb_cases (fun s => s.running && !s.quit) s.bridge x
  simp only [exec, DjmMidi.midiCb, hcb, Option.bind_eq_bind, Option.bind_some,
    Option.pure_def] at hst
  obtain rfl := Option.some.inj hst
  rcases hcase with ⟨_, hquit, _⟩ | ⟨hst, hquit, hagain⟩
  · exact h.quit hquit hrun rfl
  · refine ⟨fun h1 h2 => hrun.trans (h.running h1 h2), fun hup hq => ?_, fun hup hq => ?_⟩
    · have hq : b.quit = false := hq
      have hup' := MainPc.up_of_midiUp hup
      have hrunning := h.running hup'.1 hup'.2
      have hok : ok = true := hacc ⟨hst, hrunning, by rw [← hquit, hq]; exact Bool.false_ne_true⟩
      simp [hagain, hrun, hrunning, hq, hok]
    · exact h.hid hup (hquit.symm.trans hq)

/-- The HID IN transfer completes. -/
theorem LiveInv.hidCb {s t : Proc} {x : BulkTransfer} {ok : Bool} (h : LiveInv s)
    (hlast : s.probe.lastHid.size = hidLen) (hsize : x.buffer.size = hidLen)
    (hst : exec s (.hid x ok) = some t) (hacc : Accepted s (.hid x ok)) : LiveInv t := by
  obtain ⟨probe, quit, again, hcb, _, hcase⟩ := hidCb_cases s x hlast hsize
  simp only [exec, hcb, Option.bind_eq_bind, Option.bind_some, Option.pure_def] at hst
  obtain rfl := Option.some.inj hst
  rcases hcase with ⟨_, hquit⟩ | ⟨hst, hquit, hagain⟩
  · exact h.quit hquit rfl rfl
  · refine ⟨h.running, fun hup hq => h.midi hup (hquit.symm.trans hq), fun hup hq hon => ?_⟩
    have hq : s.bridge.quit = false := hquit.symm.trans hq
    have hup' := MainPc.up_of_midiUp (MainPc.midiUp_of_hidUp hup)
    have hrunning := h.running hup'.1 hup'.2
    have hon : s.hidOn = true := hon
    have hok : ok = true := hacc ⟨hst, hrunning, hon, by rw [hq]; exact Bool.false_ne_true⟩
    simp [hagain, hrunning, hq, hon, hok]

/-- Every step keeps `LiveInv`, where no submission is refused. -/
theorem LiveInv.step {s t : Proc} {e : Event} (h : LiveInv s)
    (hlast : s.probe.lastHid.size = hidLen) (hst : machine.Step s e t) (hacc : Accepted s e) :
    LiveInv t := by
  obtain ⟨hen, hst⟩ := hst
  cases e with
  | main ok => exact h.main hst hacc
  | signal =>
    obtain rfl := Option.some.inj hst
    exact h.quit rfl rfl rfl
  | midi x ok => exact h.midiCb hst hacc
  | hid x ok => exact h.hidCb hlast hen.2.2 hst hacc
  | audio x status ok =>
    obtain ⟨quit, again, hcb, hcase⟩ := audioCb_cases s status
    simp only [machine, exec, hcb] at hst
    obtain rfl := Option.some.inj hst
    rcases hcase with hquit | hquit
    · exact h.quit hquit rfl rfl
    · refine ⟨h.running, fun hup hq => ?_, fun hup hq => ?_⟩
      · exact h.midi hup (hquit.symm.trans hq)
      · exact h.hid hup (hquit.symm.trans hq)

theorem live_inv {s : Proc} (h : machine.ReachIf (fun s e _ => Accepted s e) s) : LiveInv s := by
  refine h.invariant ?_ ?_
  · rintro s ⟨hbridge, _, _, _, hpc⟩
    refine ⟨fun _ _ => by rw [hbridge], fun hup => ?_, fun hup => ?_⟩
    · rw [hpc] at hup
      exact absurd hup Bool.false_ne_true
    · rw [hpc] at hup
      exact absurd hup Bool.false_ne_true
  · rintro s e t hr hinv hst hacc
    exact hinv.step (lastHid_size hr) hst hacc

/-- The main loop starts an iteration with both transfers in flight. -/
def Live (s : Proc) : Prop :=
  s.pc = .test → s.bridge.quit = false → s.midi = true ∧ (s.hidOn = true → s.hid = true)

/-- `djm_midi --no-audio`, as the service starts it. -/
def serviceStart : Proc where
  bridge := ⟨0, true, false, []⟩
  audioOn := false
  hidOn := true
  probe := ⟨false, Region.fill hidLen 0, false, []⟩
  midi := false
  hid := false
  audio := ∅
  pc := .submitMidi

theorem serviceStart_init : machine.init serviceStart := ⟨rfl, rfl, rfl, rfl, rfl⟩

/-- `main` goes through its setup, once around the settling loop and to the main loop,
    and the MIDI IN and HID IN transfers complete with an error in between. -/
def errorRun (resubmitted : Bool) : List Event :=
  [.main true, .main true, .main true, .main true,
    .midi (emptyTransfer .error midiMaxpkt) resubmitted,
    .hid (emptyTransfer .timedOut hidLen) true] ++
  List.replicate 21 (.main true)

/-- After an error on MIDI IN and a refused submission, the main loop goes on without a
    MIDI read. -/
theorem live_fails : ¬ ∀ s, machine.Reach s → Live s := by
  intro h
  have hrun : ∃ s, machine.play serviceStart (errorRun false) = some s ∧
      s.pc = .test ∧ s.bridge.quit = false ∧ s.midi = false := ⟨_, rfl, rfl, rfl, rfl⟩
  obtain ⟨s, hplay, hpc, hquit, hmidi⟩ := hrun
  have hlive := h s (Machine.play_reach serviceStart_init hplay) hpc hquit
  rw [hmidi] at hlive
  exact absurd hlive.1 Bool.false_ne_true

/-- A bridge none of whose submissions is refused is live in every run. -/
theorem djm_midi_live {s : Proc} (h : machine.ReachIf (fun s e _ => Accepted s e) s) :
    Live s := by
  have hinv := live_inv h
  intro hpc hquit
  exact ⟨hinv.midi (by rw [hpc]; rfl) hquit, hinv.hid (by rw [hpc]; rfl) hquit⟩

/-- With the submission accepted, the same run is live. -/
theorem djm_midi_live_errorRun : ∃ s,
    machine.playIf (fun s e _ => Accepted s e) serviceStart (errorRun true) = some s ∧
      s.pc = .test ∧ s.bridge.quit = false ∧ Live s := by
  have hrun : ∃ s,
      machine.playIf (fun s e _ => Accepted s e) serviceStart (errorRun true) = some s ∧
        s.pc = .test ∧ s.bridge.quit = false := ⟨_, rfl, rfl, rfl⟩
  obtain ⟨s, hplay, hpc, hquit⟩ := hrun
  have hr := Machine.playIf_reachIf (.init serviceStart_init) hplay
  exact ⟨s, hplay, hpc, hquit, djm_midi_live hr⟩

end DjmMidi

end DjmT1.Midi
