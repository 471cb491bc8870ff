import DjmT1.Lib.Machine
import DjmT1.Tools.Aggregate

/-!
# The capture window

`do_capture` (tools/calibrate.py:449-474) looks at the events that the reader thread
appends, about eight times a second, until a key stops it; the record is made of what it
saw last. `captureMachine` interleaves its steps with those of the reader, which may append
an event at any time: `clear` and `snapshot` hold the reader's lock, and what follows a
snapshot up to `getch` touches nothing that is shared.

A run is followed by its window, the events appended since the last `clear` and before the
key that stopped the capture, and by those of them that are later than the last snapshot.

* `window_inv`: an aggregate is that of the events of the window up to the last snapshot.
* `capture_misses_last`: a last event that comes after the last snapshot is missing.
* `capture_complete`: a record is that of the window exactly if there is no such event.
-/

namespace DjmT1.Tools

open DjmT1.Lib

/-! ## `do_capture` and the reader -/

/-- `curses.KEY_ENTER` -/
abbrev keyEnter : ℤ := 343

/-- The keys that stop a capture (line 461). -/
def stopKeys : List ℤ := [32, 10, keyEnter, 10, 13]

/-- The keys that save a record under review (line 470). -/
def isSave (agg : List Entry) (ch : ℤ) : Bool :=
  ch ∈ [115, 83] || (!agg.isEmpty && ch ∈ [10, keyEnter, 10, 13])

/-- Where `do_capture` is. -/
inductive CapturePc
  /-- before `reader.clear()` -/
  | clear
  /-- before `aggregate(reader.snapshot())` -/
  | snapshot
  /-- in `stdscr.getch()` of the capture -/
  | key (agg : List Entry)
  /-- in `stdscr.getch()` of the review -/
  | review (agg : List Entry)
  | done (result : Option Record)

/-- The events of the reader, and `do_capture`. -/
structure Capture where
  events : List MidiEvent
  pc : CapturePc

/-- What happens next. -/
inductive CaptureLabel
  /-- the reader appends an event -/
  | append (e : MidiEvent)
  | clear
  | snapshot
  /-- `getch` returns `ch`, or -1 if no key was pressed, at the time `now` -/
  | key (ch : ℤ) (now : String)

/-- The state after a step, or `none` if it is not the next one of `do_capture`. -/
def captureExec (control : Control) (s : Capture) (l : CaptureLabel) : Option Capture :=
  match l, s.pc with
  | .append e, _ => some { s with events := s.events ++ [e] }
  | .clear, .clear => some ⟨[], .snapshot⟩
  | .snapshot, .snapshot => some { s with pc := .key (aggregate s.events) }
  | .key ch _, .key agg =>
    if ch ∈ stopKeys then some { s with pc := .review agg }
    else if ch = 27 then some { s with pc := .done none }
    else some { s with pc := .snapshot }
  | .key ch now, .review agg =>
    if isSave agg ch then some { s with pc := .done (some (buildRecord control agg now)) }
    else if ch ∈ [114, 82] then some { s with pc := .clear }
    else if ch ∈ [27, 99, 67, 113] then some { s with pc := .done none }
    else some s
  | _, _ => none

/-- `do_capture` for a control, and the reader. -/
def captureMachine (control : Control) : Machine Capture CaptureLabel where
  init s := s.pc = .clear
  enabled s l := (captureExec control s l).isSome
  exec := captureExec control

/-- The events appended since the last `clear` and before the key that stopped the capture,
    and those of them appended since the last snapshot. -/
structure Window where
  events : List MidiEvent
  unseen : List MidiEvent

/-- The window after a step. -/
def Window.next (g : Window) (s : Capture) (l : CaptureLabel) (_ : Capture) : Window :=
  match l, s.pc with
  | .clear, _ => ⟨[], []⟩
  | .snapshot, _ => { g with unseen := [] }
  | .append e, .snapshot | .append e, .key _ => ⟨g.events ++ [e], g.unseen ++ [e]⟩
  | _, _ => g

/-- A capture and its window. -/
def windowMachine (control : Control) : Machine (Capture × Window) CaptureLabel :=
  (captureMachine control).observe (fun _ => ⟨[], []⟩) Window.next

instance (control : Control) (s : Capture × Window) (l : CaptureLabel) :
    Decidable ((windowMachine control).enabled s l) :=
  inferInstanceAs (Decidable ((captureExec control s.1 l).isSome = true))

/-! ## What a step can do -/

variable {control : Control} {s t : Capture}

/-- What a step can do. -/
inductive CaptureMove (control : Control) (s : Capture) : CaptureLabel → Capture → Prop
  | append {e : MidiEvent} : CaptureMove control s (.append e) { s with events := s.events ++ [e] }
  | clear (hpc : s.pc = .clear) : CaptureMove control s .clear ⟨[], .snapshot⟩
  | snapshot (hpc : s.pc = .snapshot) :
    CaptureMove control s .snapshot { s with pc := .key (aggregate s.events) }
  | stop {ch : ℤ} {now : String} {agg : List Entry} (hpc : s.pc = .key agg) (hch : ch ∈ stopKeys) :
    CaptureMove control s (.key ch now) { s with pc := .review agg }
  | again {ch : ℤ} {now : String} {agg : List Entry} (hpc : s.pc = .key agg)
    (hch : ch ∉ stopKeys) : CaptureMove control s (.key ch now) { s with pc := .snapshot }
  | save {ch : ℤ} {now : String} {agg : List Entry} (hpc : s.pc = .review agg) :
    CaptureMove control s (.key ch now)
      { s with pc := .done (some (buildRecord control agg now)) }
  | redo {ch : ℤ} {now : String} {agg : List Entry} (hpc : s.pc = .review agg) :
    CaptureMove control s (.key ch now) { s with pc := .clear }
  | cancel {ch : ℤ} {now : String} {agg : List Entry}
    (hpc : s.pc = .key agg ∨ s.pc = .review agg) :
    CaptureMove control s (.key ch now) { s with pc := .done none }
  | stay {ch : ℤ} {now : String} {agg : List Entry} (hpc : s.pc = .review agg) :
    CaptureMove control s (.key ch now) s

theorem step_captureMove {l : CaptureLabel} (h : (captureMachine control).Step s l t) :
    CaptureMove control s l t := by
  have hst : captureExec control s l = some t := h.2
  unfold captureExec at hst
  split at hst
  case h_1 e =>
    obtain rfl := Option.some.inj hst
    exact .append
  case h_2 hpc =>
    obtain rfl := Option.some.inj hst
    exact .clear hpc
  case h_3 hpc =>
    obtain rfl := Option.some.inj hst
    exact .snapshot hpc
  case h_4 ch now agg hpc =>
    split_ifs at hst with hstop hcancel
    · obtain rfl := Option.some.inj hst
      exact .stop hpc hstop
    · obtain rfl := Option.some.inj hst
      exact .cancel (.inl hpc)
    · obtain rfl := Option.some.inj hst
      exact .again hpc hstop
  case h_5 ch now agg hpc =>
    split_ifs at hst
    · obtain rfl := Option.some.inj hst
      exact .save hpc
    · obtain rfl := Option.some.inj hst
      exact .redo hpc
    · obtain rfl := Option.some.inj hst
      exact .cancel (.inr hpc)
    · obtain rfl := Option.some.inj hst
      exact .stay hpc
  case h_6 => cases hst

/-! ## The window -/

/-- What an aggregate was made of: the events of the window but the unseen ones. -/
def Window.Seen (g : Window) (agg : List Entry) : Prop :=
  ∃ seen, g.events = seen ++ g.unseen ∧ agg = aggregate seen

/-- What holds at each point of `do_capture`. -/
def WindowInv (control : Control) (s : Capture) (g : Window) : Prop :=
  match s.pc with
  | .clear => True
  | .snapshot => s.events = g.events
  | .key agg => s.events = g.events ∧ g.Seen agg
  | .review agg => g.Seen agg
  | .done none => True
  | .done (some rec) => ∃ agg now, g.Seen agg ∧ rec = buildRecord control agg now

/-- An event that is appended is one more that has not been seen. -/
theorem Window.Seen.append {g : Window} {agg : List Entry} (h : g.Seen agg) (e : MidiEvent) :
    Window.Seen ⟨g.events ++ [e], g.unseen ++ [e]⟩ agg := by
  obtain ⟨seen, hevents, hagg⟩ := h
  refine ⟨seen, ?_, hagg⟩
  rw [hevents, List.append_assoc]

theorem WindowInv.step {g : Window} {l : CaptureLabel} (h : WindowInv control s g)
    (hst : (captureMachine control).Step s l t) : WindowInv control t (g.next s l t) := by
  obtain ⟨events, pc⟩ := s
  cases step_captureMove hst with
  | @append e =>
    cases pc with
    | clear => trivial
    | snapshot => exact congrArg (· ++ [e]) (show events = g.events from h)
    | key agg =>
      obtain ⟨hevents, hseen⟩ := h
      exact ⟨congrArg (· ++ [e]) hevents, hseen.append e⟩
    | review agg => exact h
    | done result =>
      cases result with
      | none => trivial
      | some rec => exact h
  | clear hpc => rfl
  | snapshot hpc =>
    obtain rfl : pc = .snapshot := hpc
    have hevents : events = g.events := h
    exact ⟨hevents, g.events, (List.append_nil _).symm, congrArg aggregate hevents⟩
  | @stop ch now agg hpc hch =>
    obtain rfl : pc = .key agg := hpc
    exact h.2
  | @again ch now agg hpc hch =>
    obtain rfl : pc = .key agg := hpc
    exact h.1
  | @save ch now agg hpc =>
    obtain rfl : pc = .review agg := hpc
    exact ⟨agg, now, h, rfl⟩
  | redo hpc => trivial
  | cancel hpc => trivial
  | @stay ch now agg hpc =>
    obtain rfl : pc = .review agg := hpc
    exact h

/-- In every run, the aggregate that `do_capture` works with is that of the events of the
    window up to the last snapshot. -/
theorem window_inv {e : Capture × Window} (h : (windowMachine control).Reach e) :
    WindowInv control e.1 e.2 := by
  apply Machine.ReachIf.observe (C := fun _ _ _ => True) (I := WindowInv control) h
  · intro s hs
    have hpc : s.pc = .clear := hs
    rw [WindowInv, hpc]
    trivial
  · intro s l t g _ hinv hst _
    exact hinv.step hst

/-! ## The record -/

/-- An aggregate determines how many events it is made of. -/
theorem length_of_aggregate {l l' : List MidiEvent} (h : aggregate l = aggregate l') :
    l.length = l'.length := by
  rw [← (aggregated l).total, ← (aggregated l').total, h]

/-- A fader is moved to 10 and seen there; it comes to rest at 66, and SPACE stops the
    capture before the next snapshot. -/
def lateEvent : List CaptureLabel :=
  [.clear, .append (.cc 0 23 10), .snapshot, .append (.cc 0 23 66), .key 32 "", .key 115 ""]

def crossfader : Control :=
  ⟨"crossfader", "Master", "Crossfader", "crossfader", true⟩

/-- The record says that the fader rests at 10. -/
theorem capture_misses_last : ∃ e rec,
    (windowMachine crossfader).play (⟨[], .clear⟩, ⟨[], []⟩) lateEvent = some e ∧
    e.1.pc = .done (some rec) ∧ e.2.events = [.cc 0 23 10, .cc 0 23 66] ∧
    rec.resting = some 10 ∧ ¬ ∃ now, rec = buildRecord crossfader (aggregate e.2.events) now := by
  have hrun : ∃ e rec,
      (windowMachine crossfader).play (⟨[], .clear⟩, ⟨[], []⟩) lateEvent = some e ∧
      e.1.pc = .done (some rec) ∧ e.2.events = [.cc 0 23 10, .cc 0 23 66] ∧
      rec.resting = some 10 := ⟨_, _, rfl, rfl, rfl, rfl⟩
  obtain ⟨e, rec, hplay, hpc, hevents, hresting⟩ := hrun
  refine ⟨e, rec, hplay, hpc, hevents, hresting, ?_⟩
  rintro ⟨now, hrec⟩
  have hlast : (buildRecord crossfader (aggregate [.cc 0 23 10, .cc 0 23 66]) now).resting =
      some 66 := rfl
  rw [hevents] at hrec
  rw [← hrec, hresting] at hlast
  exact absurd hlast (by decide)

/-- **Capture window.** In every run, a record that `do_capture` returns is that of the
    events of the window, exactly if none of them came after the last snapshot; it then
    says of each controller that is primary what its last value was. -/
theorem capture_complete {e : Capture × Window} (h : (windowMachine control).Reach e)
    {rec : Record} (hpc : e.1.pc = .done (some rec)) :
    ((∃ now, rec = buildRecord control (aggregate e.2.events) now) ↔ e.2.unseen = []) ∧
    (e.2.unseen = [] → ∀ a, primOf (aggregate e.2.events) = some a →
      rec.resting = (valuesOf e.2.events a.toKey).getLast?) := by
  have hinv := window_inv h
  rw [WindowInv, hpc] at hinv
  obtain ⟨_, now, ⟨seen, hevents, rfl⟩, rfl⟩ := hinv
  have hseen : e.2.unseen = [] → seen = e.2.events := by
    intro hnil
    rw [hevents, hnil, List.append_nil]
  refine ⟨⟨?_, fun hnil => ⟨now, by rw [hseen hnil]⟩⟩, fun hnil a ha => ?_⟩
  · rintro ⟨now', hrec⟩
    have hlen := length_of_aggregate (congrArg Record.events hrec)
    rw [hevents, List.length_append] at hlen
    exact List.eq_nil_of_length_eq_zero (by omega)
  · have hmem : a ∈ aggregate e.2.events := (mem_ccsOf.mp (List.argmax_mem ha)).1
    rw [hseen hnil, ← (aggregated e.2.events).last a hmem]
    simp only [buildRecord, ha, Option.bind_some]

/-- The same, with a snapshot before the key. -/
def seenEvent : List CaptureLabel :=
  [.clear, .append (.cc 0 23 10), .snapshot, .append (.cc 0 23 66), .key (-1) "", .snapshot,
    .key 32 "", .key 115 ""]

theorem capture_complete_seenEvent : ∃ e rec,
    (windowMachine crossfader).play (⟨[], .clear⟩, ⟨[], []⟩) seenEvent = some e ∧
    rec.resting = some 66 ∧
    ((∃ now, rec = buildRecord crossfader (aggregate e.2.events) now) ↔ e.2.unseen = []) ∧
    (e.2.unseen = [] → ∀ a, primOf (aggregate e.2.events) = some a →
      rec.resting = (valuesOf e.2.events a.toKey).getLast?) := by
  have hrun : ∃ e rec,
      (windowMachine crossfader).play (⟨[], .clear⟩, ⟨[], []⟩) seenEvent = some e ∧
      e.1.pc = .done (some rec) ∧ rec.resting = some 66 := ⟨_, _, rfl, rfl, rfl⟩
  obtain ⟨e, rec, hplay, hpc, hresting⟩ := hrun
  have hinit : (windowMachine crossfader).init (⟨[], .clear⟩, ⟨[], []⟩) := ⟨rfl, rfl⟩
  exact ⟨e, rec, hplay, hresting, capture_complete (Machine.play_reach hinit hplay) hpc⟩

end DjmT1.Tools
