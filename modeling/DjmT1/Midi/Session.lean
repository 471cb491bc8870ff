import DjmT1.Midi.Liveness

/-!
# The session that the mixer asks for

The mixer transmits nothing until it has been armed, and then only while it is polled on
its MIDI and HID pipes alongside a live audio session. `djm_midi` sets all of this up.
`programMachine` is the program from its first line on: its options, the calls that may
fail, and after them the bridge.

* `program_proc`: from the submission of the MIDI IN transfer on, the program runs as
  `machine` does, so that what holds of every run of the bridge holds of the program.
* `ArmInv.move`: the requests of `arm` go out in order, and a write that fails is not
  forgotten.
* `startup`: where the program gives up, and what it has sent to the mixer.
-/

namespace DjmT1.Midi

open DjmT1.Lib

namespace DjmMidi

/-! ## The program -/

/-- The options. `-v` changes only what is printed. -/
structure Options where
  audioOn : Bool
  hidOn : Bool
  hidProbe : Bool
  deriving DecidableEq

/-- The loop over `argv` (lines 190-195). -/
def parseArgs (args : List String) : Options :=
  args.foldl (fun o arg =>
    if arg = "--no-audio" then { o with audioOn := false }
    else if arg = "--no-hid" then { o with hidOn := false }
    else if arg = "--hid-probe" then { o with hidProbe := true }
    else o) ⟨true, true, false⟩

/-- A control request: `bmRequestType`, `bRequest`, `wValue` and `wIndex`. -/
structure Request where
  requestType : ℕ
  request : ℕ
  value : ℕ
  index : ℕ
  deriving DecidableEq

/-- `wr` (line 78). -/
def wr (wv wi : ℕ) : Request := ⟨0x40, 0x03, wv, wi⟩

/-- `rd` (line 79). -/
def rd (wi : ℕ) : Request := ⟨0xc0, 0x00, 0, wi⟩

/-- The requests of `arm` (lines 80-88). -/
def armRequests : List Request :=
  [wr 0x1100 0x8002, rd 0x8002, wr 0x2200 0x8002, rd 0x8002, wr 0x030a 0x8002, rd 0x8002,
    wr 0x0000 0x8003, wr 0x0000 0x8004]

/-- A write of a vendor request. -/
def Request.isWrite (r : Request) : Bool := r.requestType = 0x40

/-- A vendor request. -/
def Request.isVendor (r : Request) : Bool := r.isWrite || r.requestType = 0xc0

/-- `libusb_control_transfer` of line 217: the sampling frequency. -/
def setFrequency : Request := ⟨0x22, 0x01, 0x0100, 0x82⟩

/-- A call of `main` that concerns the device, or that may end the program. -/
inductive Call
  | seqSetup
  | libusbInit
  | openDevice
  | claim (iface : ℕ)
  | altSetting (iface alt : ℕ)
  | control (r : Request)
  | submitAudio (x : AudioXfer)
  | submitMidi
  | submitHid
  deriving DecidableEq

/-- The requests of `arm` among the calls. -/
def Call.isVendor : Call → Bool
  | .control r => r.isVendor
  | .seqSetup | .libusbInit | .openDevice | .claim _ | .altSetting _ _ | .submitAudio _
  | .submitMidi | .submitHid => false

def Call.isWrite : Call → Bool
  | .control r => r.isWrite
  | .seqSetup | .libusbInit | .openDevice | .claim _ | .altSetting _ _ | .submitAudio _
  | .submitMidi | .submitHid => false

/-- Where `main` is before the submission of the MIDI IN transfer. -/
inductive BootPc
  /-- before `seq_setup` and `libusb_init` (lines 199-202) -/
  | seqSetup
  | libusbInit
  /-- before `libusb_open_device_with_vid_pid` (line 204), and in
      `libusb_handle_events_timeout` after it has failed -/
  | openDevice (tries : ℕ)
  | waitDevice (tries : ℕ)
  /-- before the two calls of lines 212-213 -/
  | claimAudio
  | altAudio
  /-- before the request of line 217 -/
  | frequency
  /-- in the loop of lines 218-227, with the transfers it has yet to submit -/
  | submitAudio (todo : List AudioXfer)
  /-- before the claim of the MIDI interface (line 230) -/
  | claimMidi
  deriving DecidableEq

/-- The program: starting up, in the bridge, or ended by one of the returns before it. -/
inductive Stage
  | boot (pc : BootPc)
  | bridge
  | failed (code : ℕ)
  deriving DecidableEq

/-- The program. `armPos` requests of `arm` have been sent, `armOk` is its variable `ok`,
    and `warned` says that one of the two warnings of lines 237 and 247 was printed. -/
structure Program where
  stage : Stage
  proc : Proc
  calls : List (Call × Bool)
  armPos : ℕ
  armOk : Bool
  warned : Bool

/-- The audio transfers, `ain[i]` and `aout[i]`, in the order of the loop. -/
def audioXfers : List AudioXfer := (List.finRange 4).flatMap fun i => [(true, i), (false, i)]

/-- A call, its result, and where it leads. -/
def Program.log (w : Program) (c : Call) (ok : Bool) (stage : Stage) : Program :=
  { w with stage, calls := w.calls ++ [(c, ok)] }

/-- A step of `main` up to the claim of the MIDI interface (lines 199-230). -/
def bootStep (w : Program) (pc : BootPc) (ok : Bool) : Program :=
  match pc with
  | .seqSetup => w.log .seqSetup ok (if ok then .boot .libusbInit else .failed 1)
  | .libusbInit => w.log .libusbInit ok (if ok then .boot (.openDevice 0) else .failed 1)
  | .openDevice tries => w.log .openDevice ok
      (if ok then .boot (if w.proc.audioOn then .claimAudio else .claimMidi)
        else .boot (.waitDevice tries))
  | .waitDevice tries =>
    { w with stage := if tries + 1 < 20 then .boot (.openDevice (tries + 1)) else .failed 2 }
  | .claimAudio => w.log (.claim 0) ok (if ok then .boot .altAudio else .failed 3)
  | .altAudio => w.log (.altSetting 0 1) ok (if ok then .boot .frequency else .failed 3)
  | .frequency => w.log (.control setFrequency) ok (.boot (.submitAudio audioXfers))
  | .submitAudio [] => { w with stage := .boot .claimMidi }
  | .submitAudio (x :: todo) =>
    let proc := if ok then { w.proc with audio := insert x w.proc.audio } else w.proc
    { w.log (.submitAudio x) ok (.boot (.submitAudio todo)) with proc }
  | .claimMidi => w.log (.claim 2) ok (if ok then .bridge else .failed 4)

/-- The calls of `main` in the bridge. -/
def bridgeCalls (s : Proc) : Event → List (Call × Bool)
  | .main ok =>
    match s.pc with
    | .submitMidi => [(.submitMidi, ok)]
    | .claimHid => if s.hidOn then [(.claim 3, ok)] else []
    | .submitHid => [(.submitHid, ok)]
    | .settle _ | .settleEvents _ | .arm | .test | .events | .drain | .teardown | .tail _
    | .exited => []
  | .signal | .midi _ _ | .hid _ _ | .audio _ _ _ => []

/-- A warning is printed: the HID interface is not claimed (line 237), or `arm` returns 0
    (line 247). -/
def Program.warns (w : Program) : Event → Bool
  | .main ok =>
    match w.proc.pc with
    | .claimHid => w.proc.hidOn && !ok
    | .arm => !w.armOk
    | .submitMidi | .submitHid | .settle _ | .settleEvents _ | .test | .events | .drain
    | .teardown | .tail _ | .exited => false
  | .signal | .midi _ _ | .hid _ _ | .audio _ _ _ => false

/-- The request that `arm` sends next. -/
def Program.request (w : Program) : Event → Option Request
  | .main _ => if w.proc.pc = .arm then armRequests[w.armPos]? else none
  | .signal | .midi _ _ | .hid _ _ | .audio _ _ _ => none

/-- `ok &= wr(...) == 0`, or `rd(...)`. -/
def Program.send (w : Program) (r : Request) (ok : Bool) : Program :=
  { w with
    calls := w.calls ++ [(.control r, ok)]
    armPos := w.armPos + 1
    armOk := w.armOk && (!r.isWrite || ok) }

/-- A step of the bridge: as in `machine`, but for `arm`, which takes a step for each of
    its requests. -/
def bridgeStep (w : Program) (e : Event) : Option Program :=
  match w.request e with
  | some r => some (w.send r e.ok)
  | none => (exec w.proc e).map fun proc =>
    { w with proc, calls := w.calls ++ bridgeCalls w.proc e, warned := w.warned || w.warns e }

def programEnabled (w : Program) (e : Event) : Prop :=
  match w.stage with
  | .boot _ => (∃ ok, e = .main ok) ∨ e = .signal
  | .bridge => machine.enabled w.proc e
  | .failed _ => False

def programExec (w : Program) (e : Event) : Option Program :=
  match w.stage, e with
  | .boot pc, .main ok => some (bootStep w pc ok)
  | .boot _, .signal => some { w with proc := w.proc.setQuit }
  | .boot _, .midi _ _ | .boot _, .hid _ _ | .boot _, .audio _ _ _ => none
  | .bridge, e => bridgeStep w e
  | .failed _, _ => none

/-- The program before line 199. -/
def programStart (args : List String) : Program where
  stage := .boot .seqSetup
  proc :=
    { bridge := ⟨0, true, false, []⟩
      audioOn := (parseArgs args).audioOn
      hidOn := (parseArgs args).hidOn
      probe := ⟨(parseArgs args).hidProbe, Region.fill hidLen 0, false, []⟩
      midi := false
      hid := false
      audio := ∅
      pc := .submitMidi }
  calls := []
  armPos := 0
  armOk := true
  warned := false

/-- `djm_midi` with the arguments `args`. The signal handler is installed first. -/
def programMachine (args : List String) : Machine Program Event where
  init w := w = programStart args
  enabled := programEnabled
  exec := programExec

instance (w : Program) (e : Event) : Decidable (programEnabled w e) :=
  match w with
  | ⟨.boot _, _, _, _, _, _⟩ =>
    match e with
    | .main ok => .isTrue (.inl ⟨ok, rfl⟩)
    | .signal => .isTrue (.inr rfl)
    | .midi _ _ | .hid _ _ | .audio _ _ _ => .isFalse (by rintro (⟨_, h⟩ | h) <;> cases h)
  | ⟨.bridge, s, _, _, _, _⟩ => inferInstanceAs (Decidable (machine.enabled s e))
  | ⟨.failed _, _, _, _, _, _⟩ => .isFalse id

instance (args : List String) (w : Program) (e : Event) :
    Decidable ((programMachine args).enabled w e) :=
  inferInstanceAs (Decidable (programEnabled w e))

/-! ## What a step can do -/

/-- A step of the program. -/
inductive ProgramMove (w : Program) : Event → Program → Prop
  | boot {pc : BootPc} (ok : Bool) (h : w.stage = .boot pc) :
      ProgramMove w (.main ok) (bootStep w pc ok)
  | signal {pc : BootPc} (h : w.stage = .boot pc) :
      ProgramMove w .signal { w with proc := w.proc.setQuit }
  | request {r : Request} (ok : Bool) (h : w.stage = .bridge) (hpc : w.proc.pc = .arm)
      (hr : armRequests[w.armPos]? = some r) : ProgramMove w (.main ok) (w.send r ok)
  | bridge {e : Event} {p : Proc} (h : w.stage = .bridge) (hst : machine.Step w.proc e p)
      (hr : w.request e = none) : ProgramMove w e
        { w with
          proc := p, calls := w.calls ++ bridgeCalls w.proc e, warned := w.warned || w.warns e }

theorem request_eq_some {w : Program} {e : Event} {r : Request} (h : w.request e = some r) :
    (∃ ok, e = .main ok) ∧ w.proc.pc = .arm ∧ armRequests[w.armPos]? = some r := by
  cases e with
  | main ok =>
    rw [Program.request] at h
    split_ifs at h with hpc
    exact ⟨⟨ok, rfl⟩, hpc, h⟩
  | signal | midi _ _ | hid _ _ | audio _ _ _ => cases h

theorem step_programMove {args : List String} {w v : Program} {e : Event}
    (h : (programMachine args).Step w e v) : ProgramMove w e v := by
  obtain ⟨hen, hex⟩ := h
  simp only [programMachine, programEnabled] at hen
  simp only [programMachine, programExec] at hex
  cases hstage : w.stage with
  | boot pc =>
    rw [hstage] at hen hex
    rcases hen with ⟨ok, rfl⟩ | rfl
    · obtain rfl := Option.some.inj hex
      exact .boot ok hstage
    · obtain rfl := Option.some.inj hex
      rw [← hstage]
      exact .signal hstage
  | bridge =>
    rw [hstage] at hen hex
    have hex : bridgeStep w e = some v := hex
    rw [bridgeStep] at hex
    cases hr : w.request e with
    | some r =>
      rw [hr] at hex
      obtain rfl := Option.some.inj hex
      obtain ⟨⟨ok, rfl⟩, hpc, hget⟩ := request_eq_some hr
      exact .request ok hstage hpc hget
    | none =>
      rw [hr] at hex
      obtain ⟨p, hp, rfl⟩ := Option.map_eq_some_iff.mp hex
      exact .bridge hstage ⟨hen, hp⟩ hr
  | failed code =>
    rw [hstage] at hen
    exact hen.elim

/-- Before the bridge, the variables are as they were at first but for the audio transfers
    that have been submitted, and `do_quit`. -/
theorem bootStep_proc (w : Program) (pc : BootPc) (ok : Bool) :
    ∃ audio, (bootStep w pc ok).proc = { w.proc with audio } := by
  cases pc with
  | submitAudio todo =>
    cases todo with
    | nil => exact ⟨w.proc.audio, rfl⟩
    | cons x todo =>
      cases ok with
      | true => exact ⟨insert x w.proc.audio, rfl⟩
      | false => exact ⟨w.proc.audio, rfl⟩
  | seqSetup | libusbInit | openDevice | waitDevice | claimAudio | altAudio | frequency
  | claimMidi => exact ⟨w.proc.audio, rfl⟩

/-- `arm` has returned. -/
def MainPc.armed : MainPc → Bool
  | .test | .events | .drain | .teardown | .tail _ | .exited => true
  | .submitMidi | .claimHid | .submitHid | .settle _ | .settleEvents _ | .arm => false

/-- `main` has not left its loop. -/
def MainPc.before : MainPc → Bool
  | .tail _ | .exited => false
  | .submitMidi | .claimHid | .submitHid | .settle _ | .settleEvents _ | .arm | .test | .events
  | .drain | .teardown => true

/-- What a step of `main` does to where it is and to the flags. -/
theorem mainStep_phase {s t : Proc} {ok : Bool} (h : mainStep s ok = some t) :
    (t.pc.armed = true ↔ s.pc.armed = true ∨ s.pc = .arm) ∧
      (t.pc = .arm → s.pc.armed = false ∧ s.pc ≠ .arm) ∧
      (t.pc.before → s.pc.before ∧ t.audioOn = s.audioOn ∧
        (t.hidOn = s.hidOn ∨ s.pc = .claimHid ∧ s.hidOn = true ∧ ok = false)) := by
  unfold mainStep at h
  cases hpc : s.pc with
  | exited => simp [hpc] at h
  | claimHid =>
    simp only [hpc] at h
    split_ifs at h with hon hok
    all_goals
      obtain rfl := Option.some.inj h
      simp_all [MainPc.armed, MainPc.before]
  | settle i | test =>
    simp only [hpc] at h
    split_ifs at h
    all_goals
      obtain rfl := Option.some.inj h
      simp [MainPc.armed, MainPc.before]
  | tail i =>
    simp only [hpc] at h
    obtain rfl := Option.some.inj h
    split_ifs
    all_goals simp [MainPc.armed, MainPc.before]
  | drain =>
    simp only [hpc] at h
    obtain rfl := Option.some.inj h
    cases ok <;> simp [MainPc.armed, MainPc.before]
  | submitMidi | submitHid | settleEvents | arm | events | teardown =>
    simp only [hpc] at h
    obtain rfl := Option.some.inj h
    simp [MainPc.armed, MainPc.before]

/-- A callback, or a signal, leaves them alone. -/
theorem callback_phase {s t : Proc} {e : Event} (h : exec s e = some t) (hne : ∀ ok, e ≠ .main ok) :
    t.pc = s.pc ∧ t.audioOn = s.audioOn ∧ t.hidOn = s.hidOn := by
  cases e with
  | main ok => exact absurd rfl (hne ok)
  | signal =>
    obtain rfl := Option.some.inj h
    exact ⟨rfl, rfl, rfl⟩
  | midi x ok =>
    obtain ⟨⟨b, again⟩, _, h⟩ := Option.bind_eq_some_iff.mp h
    obtain rfl := Option.some.inj h
    exact ⟨rfl, rfl, rfl⟩
  | hid x ok =>
    obtain ⟨⟨u, again⟩, hcb, h⟩ := Option.bind_eq_some_iff.mp h
    obtain rfl := Option.some.inj h
    rcases hidCb_eq_some hcb with ⟨_, rfl, _⟩ | ⟨_, ⟨probe, _, rfl⟩, _⟩
    · exact ⟨rfl, rfl, rfl⟩
    · exact ⟨rfl, rfl, rfl⟩
  | audio x status ok =>
    obtain ⟨quit, again, hcb, _⟩ := audioCb_cases s status
    simp only [exec, hcb] at h
    obtain rfl := Option.some.inj h
    exact ⟨rfl, rfl, rfl⟩

/-! ## The bridge in the program -/

/-- Before the bridge, its machine has not begun. -/
structure Waits (o : Options) (s : Proc) : Prop where
  init : machine.init s
  audioOn : s.audioOn = o.audioOn
  hidOn : s.hidOn = o.hidOn

/-- The program waits for the bridge to begin, or goes on as it does. -/
theorem ProgramMove.proc {o : Options} {w v : Program} {e : Event} (h : ProgramMove w e v)
    (hwaits : w.stage ≠ .bridge → Waits o w.proc) :
    Waits o v.proc ∨
      w.stage = .bridge ∧ v.stage = .bridge ∧ (v.proc = w.proc ∨ machine.Step w.proc e v.proc) := by
  cases h with
  | boot ok hstage =>
    obtain ⟨⟨hbridge, hprobe, hmidi, hhid, hpc⟩, haudio, hon⟩ :=
      hwaits (by rw [hstage]; exact Stage.noConfusion)
    obtain ⟨audio, hproc⟩ := bootStep_proc w _ ok
    rw [hproc]
    exact .inl ⟨⟨hbridge, hprobe, hmidi, hhid, hpc⟩, haudio, hon⟩
  | signal hstage =>
    obtain ⟨⟨hbridge, hprobe, hmidi, hhid, hpc⟩, haudio, hon⟩ :=
      hwaits (by rw [hstage]; exact Stage.noConfusion)
    refine .inl ⟨⟨?_, hprobe, hmidi, hhid, hpc⟩, haudio, hon⟩
    rw [Proc.setQuit, hbridge]
  | request ok hstage hpc hr => exact .inr ⟨hstage, hstage, .inl rfl⟩
  | bridge hstage hst hr => exact .inr ⟨hstage, hstage, .inr hst⟩

section

variable {args : List String} {w : Program} {D : Program → Event → Program → Prop}

/-- What holds of every run of the bridge holds of the program: of the runs that meet `C`,
    where the program meets `C` in its bridge. -/
theorem program_proc {C : Proc → Event → Proc → Prop}
    (hD : ∀ w e v, D w e v → w.stage = .bridge → C w.proc e v.proc)
    (h : (programMachine args).ReachIf D w) :
    machine.ReachIf C w.proc ∧ (w.stage ≠ .bridge → Waits (parseArgs args) w.proc) := by
  induction h with
  | init h0 =>
    have h0 : _ = programStart args := h0
    have hwaits : Waits (parseArgs args) (programStart args).proc :=
      ⟨⟨rfl, rfl, rfl, rfl, rfl⟩, rfl, rfl⟩
    rw [h0]
    exact ⟨.init hwaits.init, fun _ => hwaits⟩
  | step _ hst hd ih =>
    rcases (step_programMove hst).proc ih.2 with hwaits | ⟨hstage, hstage', hproc | hst'⟩
    · exact ⟨.init hwaits.init, fun _ => hwaits⟩
    · rw [hproc]
      exact ⟨ih.1, fun hne => absurd hstage' hne⟩
    · exact ⟨.step ih.1 hst' (hD _ _ _ hd hstage), fun hne => absurd hstage' hne⟩

end

/-! ## Arming -/

/-- The requests of `arm` that have been sent, with their results. -/
def Program.vendor (w : Program) : List (Call × Bool) := w.calls.filter fun c => c.1.isVendor

/-- The requests are sent in order, and a write that fails is not forgotten. -/
structure ArmInv (w : Program) : Prop where
  pos : w.armPos ≤ armRequests.length
  unsent : w.proc.pc.armed = false → w.proc.pc ≠ .arm → w.armPos = 0
  done : w.proc.pc.armed → w.armPos = armRequests.length
  sent : w.vendor.map Prod.fst = (armRequests.take w.armPos).map .control
  ok : w.armOk = w.vendor.all fun c => !c.1.isWrite || c.2
  told : w.proc.pc.armed → w.armOk = false → w.warned

section

variable {w v : Program} {e : Event}

theorem ArmInv.same (h : ArmInv w) (hpc : v.proc.pc = w.proc.pc) (hvendor : v.vendor = w.vendor)
    (hpos : v.armPos = w.armPos) (hok : v.armOk = w.armOk) (hwarned : w.warned → v.warned) :
    ArmInv v := by
  refine ⟨?_, ?_, ?_, ?_, ?_, ?_⟩
  · rw [hpos]
    exact h.pos
  · rw [hpc, hpos]
    exact h.unsent
  · rw [hpc, hpos]
    exact h.done
  · rw [hvendor, hpos]
    exact h.sent
  · rw [hok, hvendor]
    exact h.ok
  · rw [hpc, hok]
    exact fun harmed hfailed => hwarned (h.told harmed hfailed)

/-- The calls of a step other than the requests of `arm`. -/
theorem vendor_append {calls : List (Call × Bool)} (h : ∀ c ∈ calls, c.1.isVendor = false) :
    (w.calls ++ calls).filter (fun c => c.1.isVendor) = w.vendor := by
  have hnil : calls.filter (fun c => c.1.isVendor) = [] :=
    List.filter_eq_nil_iff.mpr fun c hc hvendor => by
      rw [h c hc] at hvendor
      exact absurd hvendor Bool.false_ne_true
  rw [List.filter_append, hnil, List.append_nil, Program.vendor]

/-- A step of `main` before the bridge makes at most one call, and does not arm. -/
theorem bootStep_calls (w : Program) (pc : BootPc) (ok : Bool) :
    ∃ calls, (bootStep w pc ok).calls = w.calls ++ calls ∧ (∀ c ∈ calls, c.1.isVendor = false) ∧
      (bootStep w pc ok).armPos = w.armPos ∧ (bootStep w pc ok).armOk = w.armOk ∧
      (bootStep w pc ok).warned = w.warned := by
  cases pc with
  | submitAudio todo =>
    cases todo with
    | nil => exact ⟨[], (List.append_nil _).symm, by simp, rfl, rfl, rfl⟩
    | cons x todo => exact ⟨[(.submitAudio x, ok)], rfl, by simp [Call.isVendor], rfl, rfl, rfl⟩
  | waitDevice tries => exact ⟨[], (List.append_nil _).symm, by simp, rfl, rfl, rfl⟩
  | seqSetup | libusbInit | openDevice | claimAudio | altAudio | frequency | claimMidi =>
    exact ⟨[_], rfl, by
      simp [Call.isVendor, setFrequency, Request.isVendor, Request.isWrite], rfl, rfl, rfl⟩

/-- The calls of the bridge, those of `arm` aside. -/
theorem bridgeCalls_cases {s : Proc} {c : Call × Bool} (hc : c ∈ bridgeCalls s e) :
    c.1 = .submitMidi ∨ c.1 = .claim 3 ∨ c.1 = .submitHid := by
  cases e with
  | main ok =>
    cases hpc : s.pc with
    | submitMidi =>
      simp only [bridgeCalls, hpc, List.mem_singleton] at hc
      exact .inl (by rw [hc])
    | claimHid =>
      simp only [bridgeCalls, hpc] at hc
      split_ifs at hc
      · exact .inr (.inl (by rw [List.mem_singleton.mp hc]))
      · exact absurd hc List.not_mem_nil
    | submitHid =>
      simp only [bridgeCalls, hpc, List.mem_singleton] at hc
      exact .inr (.inr (by rw [hc]))
    | settle | settleEvents | arm | test | events | drain | teardown | tail | exited =>
      simp only [bridgeCalls, hpc] at hc
      exact absurd hc List.not_mem_nil
  | signal | midi _ _ | hid _ _ | audio _ _ _ => exact absurd hc List.not_mem_nil

theorem bridgeCalls_vendor (s : Proc) (e : Event) :
    ∀ c ∈ bridgeCalls s e, c.1.isVendor = false := by
  intro c hc
  rcases bridgeCalls_cases hc with h | h | h
  all_goals
    rw [h]
    rfl

/-- The next request. -/
theorem take_armRequests {n : ℕ} {r : Request} (h : armRequests[n]? = some r) :
    n < armRequests.length ∧ armRequests.take (n + 1) = armRequests.take n ++ [r] ∧
      r.isVendor := by
  obtain ⟨hn, hr⟩ := List.getElem?_eq_some_iff.mp h
  have hall : ∀ r ∈ armRequests, r.isVendor := by decide
  refine ⟨hn, ?_, hall r (hr ▸ List.getElem_mem hn)⟩
  rw [List.take_add_one, h, Option.toList_some]

theorem ArmInv.send {r : Request} (h : ArmInv w) (hpc : w.proc.pc = .arm)
    (hr : armRequests[w.armPos]? = some r) (ok : Bool) : ArmInv (w.send r ok) := by
  obtain ⟨hpos, htake, hvendor⟩ := take_armRequests hr
  have hnot : w.proc.pc.armed = false := by
    rw [hpc]
    rfl
  have hsent : (w.send r ok).vendor = w.vendor ++ [(.control r, ok)] := by
    rw [Program.vendor, Program.send, List.filter_append, Program.vendor]
    simp [Call.isVendor, hvendor]
  refine ⟨hpos, ?_, ?_, ?_, ?_, ?_⟩
  · intro _ hne
    exact absurd hpc hne
  · intro harmed
    exact absurd (hnot.symm.trans harmed) Bool.false_ne_true
  · rw [hsent, List.map_append, h.sent, Program.send, htake, List.map_append]
    rfl
  · rw [hsent, List.all_append, Program.send, h.ok]
    simp [Call.isWrite]
  · intro harmed
    exact absurd (hnot.symm.trans harmed) Bool.false_ne_true

/-- A step of the bridge that sends no request of `arm`. -/
theorem ArmInv.bridge {p : Proc} (h : ArmInv w) (hst : machine.Step w.proc e p)
    (hr : w.request e = none) : ArmInv
      { w with
        proc := p, calls := w.calls ++ bridgeCalls w.proc e, warned := w.warned || w.warns e } := by
  have hvendor := vendor_append (w := w) (bridgeCalls_vendor w.proc e)
  have hwarned : w.warned → (w.warned || w.warns e) = true := fun hw => by rw [hw, Bool.true_or]
  by_cases hmain : ∃ ok, e = .main ok
  · obtain ⟨ok, rfl⟩ := hmain
    obtain ⟨harmed, harm, _⟩ := mainStep_phase hst.2
    by_cases hpc : w.proc.pc = .arm
    · -- `arm` has sent all its requests, and returns
      have hdone : w.armPos = armRequests.length := by
        rw [Program.request, if_pos hpc, List.getElem?_eq_none_iff] at hr
        exact le_antisymm h.pos hr
      have hp : p.pc.armed = true := harmed.mpr (.inr hpc)
      refine ⟨h.pos, ?_, fun _ => hdone, ?_, ?_, ?_⟩
      · intro hnot
        exact absurd (hnot.symm.trans hp) Bool.false_ne_true
      · exact (congrArg (List.map Prod.fst) hvendor).trans h.sent
      · exact h.ok.trans (congrArg (List.all · _) hvendor).symm
      · intro _ hfailed
        have hfailed : w.armOk = false := hfailed
        simp [Program.warns, hpc, hfailed]
    · refine ⟨h.pos, ?_, ?_, ?_, ?_, ?_⟩
      · intro hnot _
        have hnot' : ¬ w.proc.pc.armed = true := fun hw => by
          rw [harmed.mpr (.inl hw)] at hnot
          exact absurd hnot.symm Bool.false_ne_true
        exact h.unsent (Bool.not_eq_true _ ▸ hnot') hpc
      · intro hp
        exact h.done ((harmed.mp hp).resolve_right hpc)
      · exact (congrArg (List.map Prod.fst) hvendor).trans h.sent
      · exact h.ok.trans (congrArg (List.all · _) hvendor).symm
      · intro hp hfailed
        exact hwarned (h.told ((harmed.mp hp).resolve_right hpc) hfailed)
  · have hkeep := callback_phase hst.2 fun ok heq => hmain ⟨ok, heq⟩
    exact h.same hkeep.1 hvendor rfl rfl hwarned

theorem ArmInv.move (h : ArmInv w) (hm : ProgramMove w e v) : ArmInv v := by
  cases hm with
  | boot ok hstage =>
    obtain ⟨calls, hcalls, hvendor, hpos, hok, hwarned⟩ := bootStep_calls w _ ok
    obtain ⟨audio, hproc⟩ := bootStep_proc w _ ok
    refine h.same (by rw [hproc]) ?_ hpos hok fun hw => by rw [hwarned, hw]
    rw [Program.vendor, hcalls]
    exact vendor_append hvendor
  | signal hstage => exact h.same rfl rfl rfl rfl id
  | request ok hstage hpc hr => exact h.send hpc hr ok
  | bridge hstage hst hr => exact h.bridge hst hr

end

/-! ## Starting up -/

/-- The code that `main` returns if the call fails. The claim of the HID interface may fail,
    and the other results are not looked at. -/
def Call.exitCode : Call → Option ℕ
  | .seqSetup | .libusbInit => some 1
  | .openDevice => some 2
  | .claim 0 | .altSetting _ _ => some 3
  | .claim 2 => some 4
  | .claim _ | .control _ | .submitAudio _ | .submitMidi | .submitHid => none

/-- No call has failed that ends the program, and to open the device may be tried again. -/
def NoneFatal (calls : List (Call × Bool)) : Prop :=
  ∀ c ∈ calls, c.1.exitCode.isSome → c.1 ≠ .openDevice → c.2

/-- The last call has failed, and `main` returns `code` for it; the device was tried twenty
    times. -/
def GaveUp (calls : List (Call × Bool)) (code : ℕ) : Prop :=
  ∃ before c, calls = before ++ [(c, false)] ∧ c.exitCode = some code ∧ NoneFatal before ∧
    (c = .openDevice → calls.count (.openDevice, false) = 20)

/-- The failed attempts to open the device, as long as it is not open. -/
def BootPc.tries : BootPc → Option ℕ
  | .seqSetup | .libusbInit => some 0
  | .openDevice tries => some tries
  | .waitDevice tries => some (tries + 1)
  | .claimAudio | .altAudio | .frequency | .submitAudio _ | .claimMidi => none

/-- The calls that have been made say where `main` is. -/
structure BootInv (w : Program) : Prop where
  fine : (∀ code, w.stage ≠ .failed code) → NoneFatal w.calls
  tries : ∀ pc n, w.stage = .boot pc → pc.tries = some n →
    w.calls.count (.openDevice, false) = n
  bound : ∀ n, w.stage = .boot (.openDevice n) ∨ w.stage = .boot (.waitDevice n) → n < 20
  last : ∀ n, w.stage = .boot (.waitDevice n) →
    ∃ before, w.calls = before ++ [(.openDevice, false)]
  failed : ∀ code, w.stage = .failed code → GaveUp w.calls code

section

variable {w v : Program} {e : Event}

theorem NoneFatal.concat {calls : List (Call × Bool)} (h : NoneFatal calls) {c : Call} {ok : Bool}
    (hc : c.exitCode = none ∨ c = .openDevice ∨ ok = true) : NoneFatal (calls ++ [(c, ok)]) := by
  refine List.forall_mem_append.mpr ⟨h, ?_⟩
  intro d hd hsome hne
  obtain rfl := List.mem_singleton.mp hd
  rcases hc with hnone | hopen | hok
  · rw [hnone] at hsome
    exact absurd hsome Bool.false_ne_true
  · exact absurd hopen hne
  · exact hok

/-- The device is open. -/
def Stage.opened : Stage → Bool
  | .boot pc => pc.tries = none
  | .bridge => true
  | .failed _ => false

theorem BootInv.opened (hstage : v.stage.opened) (h : NoneFatal v.calls) : BootInv v := by
  have hnone {pc : BootPc} (hpc : v.stage = .boot pc) : pc.tries = none := by
    rw [hpc] at hstage
    exact of_decide_eq_true hstage
  refine ⟨fun _ => h, fun pc n hpc hn => ?_, fun n hpc => ?_, fun n hpc => ?_, fun code hpc => ?_⟩
  · exact absurd (hn.symm.trans (hnone hpc)) (Option.some_ne_none n)
  · rcases hpc with hpc | hpc
    · exact absurd (hnone hpc) (Option.some_ne_none _)
    · exact absurd (hnone hpc) (Option.some_ne_none _)
  · exact absurd (hnone hpc) (Option.some_ne_none _)
  · rw [hpc] at hstage
    exact absurd hstage Bool.false_ne_true

theorem BootInv.gaveUp {code : ℕ} (hstage : v.stage = .failed code) (h : GaveUp v.calls code) :
    BootInv v := by
  have hnot {pc : BootPc} : v.stage ≠ .boot pc := by
    rw [hstage]
    exact Stage.noConfusion
  refine ⟨fun hne => absurd hstage (hne code), fun pc n hpc => absurd hpc hnot, fun n hpc => ?_,
    fun n hpc => absurd hpc hnot, fun code' hpc => ?_⟩
  · exact hpc.elim (absurd · hnot) (absurd · hnot)
  · obtain rfl := Stage.failed.inj (hstage.symm.trans hpc)
    exact h

/-- A call that has failed, and is not tried again. -/
theorem BootInv.fails {c : Call} {code : ℕ} (h : BootInv w) {pc : BootPc}
    (hstage : w.stage = .boot pc) (hcode : c.exitCode = some code) (hne : c ≠ .openDevice) :
    BootInv (w.log c false (.failed code)) :=
  .gaveUp rfl ⟨w.calls, c, rfl, hcode, h.fine fun _ => by rw [hstage]; exact Stage.noConfusion,
    fun heq => absurd heq hne⟩

/-- A call before the device is open. -/
theorem BootInv.closed {pc : BootPc} {n : ℕ} (hstage : v.stage = .boot pc) (h : NoneFatal v.calls)
    (hn : pc.tries = some n) (hcount : v.calls.count (.openDevice, false) = n) (hlt : n < 20)
    (hwait : ∀ m, pc ≠ .waitDevice m) : BootInv v := by
  refine ⟨fun _ => h, fun pc' m hpc hm => ?_, fun m hpc => ?_, fun m hpc => ?_, fun code hpc => ?_⟩
  · obtain rfl := Stage.boot.inj (hstage.symm.trans hpc)
    rw [hcount, Option.some.inj (hn.symm.trans hm)]
  · rcases hpc with hpc | hpc
    · obtain rfl := Stage.boot.inj (hstage.symm.trans hpc)
      rwa [← Option.some.inj hn] at hlt
    · exact absurd (Stage.boot.inj (hstage.symm.trans hpc)) (hwait m)
  · exact absurd (Stage.boot.inj (hstage.symm.trans hpc)) (hwait m)
  · exact absurd (hstage.symm.trans hpc) Stage.noConfusion

theorem BootInv.boot (h : BootInv w) {pc : BootPc} (hstage : w.stage = .boot pc) (ok : Bool) :
    BootInv (bootStep w pc ok) := by
  have hfine : NoneFatal w.calls := h.fine fun _ => by rw [hstage]; exact Stage.noConfusion
  have hcount {c : Call} {ok : Bool} (hne : c ≠ .openDevice) :
      (w.calls ++ [(c, ok)]).count (.openDevice, false) = w.calls.count (.openDevice, false) := by
    rw [List.count_append, List.count_singleton, if_neg (by simp [hne])]
    rfl
  cases pc with
  | seqSetup =>
    cases ok with
    | false => exact h.fails hstage rfl Call.noConfusion
    | true =>
      refine .closed rfl (hfine.concat (.inr (.inr rfl))) rfl ?_ (by decide)
        fun m => BootPc.noConfusion
      exact (hcount Call.noConfusion).trans (h.tries _ 0 hstage rfl)
  | libusbInit =>
    cases ok with
    | false => exact h.fails hstage rfl Call.noConfusion
    | true =>
      refine .closed rfl (hfine.concat (.inr (.inr rfl))) rfl ?_ (by decide)
        fun m => BootPc.noConfusion
      exact (hcount Call.noConfusion).trans (h.tries _ 0 hstage rfl)
  | openDevice n =>
    have hcalls : NoneFatal (w.calls ++ [(.openDevice, ok)]) := hfine.concat (.inr (.inl rfl))
    cases ok with
    | true =>
      refine .opened ?_ hcalls
      by_cases hon : w.proc.audioOn = true
      · simp [bootStep, Program.log, hon, Stage.opened, BootPc.tries]
      · simp [bootStep, Program.log, hon, Stage.opened, BootPc.tries]
    | false =>
      have hlt := h.bound n (.inl hstage)
      refine ⟨fun _ => hcalls, fun pc' m hpc hm => ?_, fun m hpc => ?_, fun m _ => ⟨w.calls, rfl⟩,
        fun code hpc => absurd hpc Stage.noConfusion⟩
      · obtain rfl := Stage.boot.inj hpc
        rw [← Option.some.inj hm, ← h.tries _ n hstage rfl]
        exact (List.count_append ..).trans (by rw [List.count_singleton_self])
      · rcases hpc with hpc | hpc
        · exact absurd (Stage.boot.inj hpc) BootPc.noConfusion
        · obtain rfl := BootPc.waitDevice.inj (Stage.boot.inj hpc)
          exact hlt
  | waitDevice n =>
    have htries := h.tries _ (n + 1) hstage rfl
    have hlt := h.bound n (.inr hstage)
    by_cases hmore : n + 1 < 20
    · have hnext : (bootStep w (.waitDevice n) ok).stage = .boot (.openDevice (n + 1)) :=
        if_pos hmore
      exact .closed hnext hfine rfl htries hmore fun m => BootPc.noConfusion
    · -- the twentieth attempt
      have hnext : (bootStep w (.waitDevice n) ok).stage = .failed 2 := if_neg hmore
      obtain ⟨before, hbefore⟩ := h.last n hstage
      refine .gaveUp hnext ⟨before, .openDevice, hbefore, rfl, fun c hc => ?_, fun _ => ?_⟩
      · exact hfine c (by rw [hbefore]; exact List.mem_append_left _ hc)
      · exact htries.trans (by omega)
  | claimAudio | altAudio | claimMidi =>
    cases ok with
    | false => exact h.fails hstage rfl Call.noConfusion
    | true => exact .opened rfl (hfine.concat (.inr (.inr rfl)))
  | frequency => exact .opened rfl (hfine.concat (.inl rfl))
  | submitAudio todo =>
    cases todo with
    | nil => exact .opened rfl hfine
    | cons x todo => exact .opened rfl (hfine.concat (.inl rfl))

/-- The bridge makes no call that ends the program. -/
theorem bridgeCalls_noneFatal (s : Proc) (e : Event) :
    ∀ c ∈ bridgeCalls s e, c.1.exitCode = none := by
  intro c hc
  rcases bridgeCalls_cases hc with h | h | h
  all_goals
    rw [h]
    rfl

theorem BootInv.move (h : BootInv w) (hm : ProgramMove w e v) : BootInv v := by
  cases hm with
  | boot ok hstage => exact h.boot hstage ok
  | signal hstage => exact ⟨h.fine, h.tries, h.bound, h.last, h.failed⟩
  | request ok hstage hpc hr =>
    have hfine := h.fine fun _ => by rw [hstage]; exact Stage.noConfusion
    refine .opened ?_ (hfine.concat (.inl rfl))
    rw [Program.send, hstage]
    rfl
  | bridge hstage hst hr =>
    have hfine := h.fine fun _ => by rw [hstage]; exact Stage.noConfusion
    refine .opened (by rw [hstage]; rfl) (List.forall_mem_append.mpr ⟨hfine, ?_⟩)
    intro c hc hsome
    rw [bridgeCalls_noneFatal w.proc _ c hc] at hsome
    exact absurd hsome Bool.false_ne_true

end

/-- From one step to every run. -/
theorem program_inv {args : List String} {I : Program → Prop} {w : Program}
    (h0 : I (programStart args)) (hs : ∀ {w v e}, I w → ProgramMove w e v → I v)
    (h : (programMachine args).Reach w) : I w :=
  h.invariant (fun _ hinit => hinit ▸ h0) fun _ _ _ _ hi hst _ => hs hi (step_programMove hst)

theorem armInv_start (args : List String) : ArmInv (programStart args) :=
  ⟨Nat.zero_le _, fun _ _ => rfl, fun h => absurd h Bool.false_ne_true, rfl, rfl,
    fun h => absurd h Bool.false_ne_true⟩

theorem bootInv_start (args : List String) : BootInv (programStart args) := by
  refine .closed rfl ?_ rfl rfl (by decide) fun m => BootPc.noConfusion
  exact fun c hc => absurd hc List.not_mem_nil

/-- **Starting up.** `djm_midi`, with any arguments and whatever its calls return. From the
    first submission on it runs as the bridge. The requests that it has sent to arm the
    mixer are the first of those of `arm`, in order, and before the bridge there are none.
    A program that gives up returns the code of its last call, which has failed; of the
    earlier calls none had failed that ends the program, but for attempts to open the
    device, and it gives up on these after the twentieth. -/
theorem startup {args : List String} {w : Program} (h : (programMachine args).Reach w) :
    machine.Reach w.proc ∧
      w.vendor.map Prod.fst = (armRequests.take w.armPos).map .control ∧
      (w.stage ≠ .bridge → w.vendor = []) ∧
      (w.stage = .bridge → NoneFatal w.calls) ∧
      ∀ code, w.stage = .failed code → GaveUp w.calls code := by
  obtain ⟨hproc, hwaits⟩ := program_proc (C := fun _ _ _ => True) (fun _ _ _ _ _ => trivial) h
  have harm := program_inv (armInv_start args) ArmInv.move h
  have hboot := program_inv (bootInv_start args) BootInv.move h
  refine ⟨hproc, harm.sent, fun hne => ?_, fun hstage => ?_, hboot.failed⟩
  · obtain ⟨⟨_, _, _, _, hpc⟩, _, _⟩ := hwaits hne
    have hzero : w.armPos = 0 :=
      harm.unsent (by rw [hpc]; rfl) (by rw [hpc]; exact MainPc.noConfusion)
    have hsent := harm.sent
    rw [hzero, List.take_zero, List.map_nil] at hsent
    exact List.map_eq_nil_iff.mp hsent
  · exact hboot.fine fun _ => by rw [hstage]; exact Stage.noConfusion

/-- Without audio; the device appears at the second attempt, and the MIDI interface is
    taken. -/
def busyRun : List Event :=
  [.main true, .main true, .main false, .main true, .main true, .main false]

theorem startup_busyRun : ∃ w,
    (programMachine ["--no-audio"]).play (programStart ["--no-audio"]) busyRun = some w ∧
      w.stage = .failed 4 ∧ w.vendor = [] ∧ GaveUp w.calls 4 := by
  have hrun : ∃ w,
      (programMachine ["--no-audio"]).play (programStart ["--no-audio"]) busyRun = some w ∧
        w.stage = .failed 4 := ⟨_, rfl, rfl⟩
  obtain ⟨w, hplay, hstage⟩ := hrun
  obtain ⟨_, _, hnone, _, hfailed⟩ := startup (Machine.play_reach rfl hplay)
  exact ⟨w, hplay, hstage, hnone (by rw [hstage]; exact Stage.noConfusion), hfailed 4 hstage⟩

end DjmMidi

end DjmT1.Midi
