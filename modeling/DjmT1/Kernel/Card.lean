import DjmT1.Kernel.Accounting
import DjmT1.Kernel.Probe

/-!
# A card from the probe to its end

`cardMachine` is the whole driver: the two streams of a card that `djmt1_probe` has set
up, each with its own ALSA calls, START loop and completion handler, and
`djmt1_disconnect`, which the USB core calls at any time on another processor. The steps
of a stream are those of `streamMachine`. In addition

* `djmt1_trigger(START)` reads `s->urb[u]` in one step and calls `usb_submit_urb` on what
  it has read in the next;
* `usb_kill_urb` waits until its URB is neither in flight nor in the hands of its handler,
  and has it refused by `usb_submit_urb` for as long;
* the ALSA core frees the card, and the `struct djmt1` in it, when
  `snd_card_free_when_closed` has been called and both streams are closed.

A step that touches an object which is not allocated is undefined. The objects are those
that the driver allocates: the card with its `struct djmt1`, the URBs and their buffers.
What the handlers use of the substream, `ss->runtime` and its `dma_area`, is the ALSA
core's, which frees it when the substream is closed; that is not followed here.
-/

namespace DjmT1.Kernel

open DjmT1.Lib

/-- Where `djmt1_free_urbs` is in the body of its loop (lines 186-189). -/
inductive FreePc
  /-- before `if (s->urb[u])` -/
  | test
  /-- in `usb_kill_urb` -/
  | kill
  /-- before `kfree` -/
  | buffer
  /-- before `usb_free_urb` -/
  | urb
  /-- before `s->urb[u] = NULL` -/
  | clear
  deriving DecidableEq, Repr

/-- Where `djmt1_disconnect` is (lines 328-340). The two calls of `djmt1_free_urbs` are
    one loop over the URBs of both streams. -/
inductive UnplugPc
  /-- not called yet -/
  | idle
  /-- before `atomic_set(&chip->.., 0)` -/
  | stop (d : Dir)
  | free (todo : List Slot) (pc : FreePc)
  /-- before `snd_card_free_when_closed` -/
  | card
  /-- before `usb_set_intfdata(intf, NULL)` -/
  | data
  /-- returned -/
  | done
  deriving DecidableEq, Repr

/-- The card, with its environment. -/
structure Card where
  stream : Dir → Stream
  live : Finset Obj
  /-- `s->urb[u]` is not null -/
  slot : Slot → Bool
  /-- START has read `s->urb[u]` of the URB it is at, and whether that is not null -/
  held : Dir → Option Bool
  opened : Dir → Bool
  /-- `snd_card_free_when_closed` has been called -/
  released : Bool
  intfdata : Bool
  unplug : UnplugPc

/-- The URBs in the order in which `djmt1_disconnect` frees them. -/
def allSlots : List Slot :=
  (List.finRange nurb).map (Dir.capture, ·) ++ (List.finRange nurb).map (Dir.playback, ·)

/-- The URB that the START loop is at. -/
def ControlPc.next : ControlPc → Option (Fin nurb)
  | .idle | .start [] => none
  | .start (u :: _) => some u

/-- `usb_kill_urb` is waiting for the URB. -/
def UnplugPc.rejects : UnplugPc → Slot → Bool
  | .free (y :: _) .kill, x => y = x
  | _, _ => false

/-- The URB is in flight, or its handler is executing. -/
def Stream.Uses (s : Stream) (u : Fin nurb) : Prop :=
  u ∈ s.flying ∨ s.handler.current = some u

instance (s : Stream) (u : Fin nurb) : Decidable (s.Uses u) :=
  inferInstanceAs (Decidable (_ ∨ _))

/-- START is about to call `usb_submit_urb` on the URB. -/
def Card.Holds (c : Card) (x : Slot) : Prop :=
  c.held x.1 = some true ∧ (c.stream x.1).control.next = some x.2

instance (c : Card) (x : Slot) : Decidable (c.Holds x) := inferInstanceAs (Decidable (_ ∧ _))

/-! ## The steps -/

/-- What happens next. -/
inductive CardLabel
  /-- an application opens or closes a stream (`djmt1_open`, `djmt1_close`) -/
  | opens (d : Dir)
  | closes (d : Dir)
  /-- a step of a stream -/
  | pcm (d : Dir) (l : StreamLabel)
  /-- START reads `s->urb[u]` -/
  | load (d : Dir)
  /-- the USB core calls `djmt1_disconnect` -/
  | disconnect
  /-- a step of `djmt1_disconnect` -/
  | unplug
  /-- the ALSA core frees the card -/
  | free

/-- The objects of the driver that a step of a stream touches. -/
def Card.touches (c : Card) (d : Dir) : StreamLabel → List Obj
  | .prepare | .start | .stop => [.card]
  | .trigger _ =>
    .card :: if c.held d = some true then
      ((c.stream d).control.next.map fun u => Obj.urb (d, u)).toList else []
  | .complete u _ => [.urb (d, u), .buffer (d, u)]
  | .handler _ =>
    .card :: match (c.stream d).handler.current with
      | some u => [.urb (d, u), .buffer (d, u)]
      | none => []
  | .app _ => []

/-- `usb_submit_urb(NULL)` fails. -/
def Card.pcmLabel (c : Card) (d : Dir) : StreamLabel → StreamLabel
  | .trigger ok => .trigger (ok && (c.held d).getD true)
  | l => l

/-- A step of a stream may be taken: the ALSA core calls the driver for an open stream,
    START has read the pointer it submits, and no URB is submitted that is being killed. -/
def Card.PcmEnabled (c : Card) (d : Dir) (l : StreamLabel) : Prop :=
  streamEnabled (c.stream d) l ∧
  match l with
  | .prepare | .start | .stop | .app _ => c.opened d = true
  | .trigger ok => ∀ u, (c.stream d).control.next = some u →
      c.held d ≠ none ∧ (ok → c.unplug.rejects (d, u) = false)
  | .complete _ _ => True
  | .handler ok => ok → ∀ u, (c.stream d).handler = .submit u → c.unplug.rejects (d, u) = false

/-- What START has read is used by the call of `usb_submit_urb`. -/
def Card.heldAfter (c : Card) (d : Dir) : StreamLabel → Dir → Option Bool
  | .trigger _ => Function.update c.held d none
  | _ => c.held

/-- A step of a stream of the card. -/
def pcmExec (hw : Dir → HwParams) (c : Card) (d : Dir) (l : StreamLabel) : Option Card :=
  if ∀ x ∈ c.touches d l, x ∈ c.live then do
    let s ← streamExec (hw d) d (c.stream d) (c.pcmLabel d l)
    return { c with
      stream := Function.update c.stream d s
      held := c.heldAfter d l }
  else none

/-- START reads `s->urb[u]` (line 230). -/
def loadUrb (c : Card) (d : Dir) : Option Card :=
  match (c.stream d).control.next with
  | none => none
  | some u =>
    if .card ∈ c.live then
      some { c with held := Function.update c.held d (some (c.slot (d, u))) }
    else none

/-- `atomic_set` of `running` to 0 in `djmt1_disconnect` (lines 334-335). -/
def stopRunning (c : Card) (d : Dir) (pc : UnplugPc) : Card :=
  { c with
    stream := Function.update c.stream d { c.stream d with running := false }
    unplug := pc }

/-- A step of `djmt1_disconnect` that reads the chip. -/
def unplugChip (c : Card) : Option Card :=
  match c.unplug with
  | .idle | .data | .done => none
  | .stop .capture => some (stopRunning c .capture (.stop .playback))
  | .stop .playback => some (stopRunning c .playback (.free allSlots .test))
  | .free [] _ => some { c with unplug := .card }
  | .free (x :: rest) .test =>
    some { c with unplug := if c.slot x then .free (x :: rest) .kill else .free rest .test }
  | .free (x :: rest) .kill =>
    if .urb x ∈ c.live then some { c with unplug := .free (x :: rest) .buffer } else none
  | .free (x :: rest) .buffer =>
    if .urb x ∈ c.live then do
      let live ← release c.live (.buffer x)
      return { c with live, unplug := .free (x :: rest) .urb }
    else none
  | .free (x :: rest) .urb => do
    let live ← release c.live (.urb x)
    return { c with live, unplug := .free (x :: rest) .clear }
  | .free (x :: rest) .clear =>
    some { c with slot := Function.update c.slot x false, unplug := .free rest .test }
  | .card => some { c with released := true, unplug := .data }

/-- A step of `djmt1_disconnect` (lines 328-340). -/
def djmt1Disconnect (c : Card) : Option Card :=
  if c.unplug = .data then some { c with intfdata := false, unplug := .done }
  else if .card ∈ c.live then unplugChip c
  else none

/-- `usb_kill_urb` returns when its URB is not in use; the other steps are always due. -/
def Card.KillReady (c : Card) : UnplugPc → Prop
  | .free (x :: _) .kill => ¬ (c.stream x.1).Uses x.2
  | _ => True

def cardEnabled (c : Card) : CardLabel → Prop
  | .opens d => c.opened d = false ∧ c.released = false
  | .closes d => c.opened d = true ∧ (c.stream d).control = .idle ∧ (c.stream d).state ≠ .running
  | .pcm d l => c.PcmEnabled d l
  | .load d => (c.stream d).control.next ≠ none ∧ c.held d = none
  | .disconnect => c.unplug = .idle ∨ c.unplug = .done
  | .unplug => c.unplug ≠ .idle ∧ c.unplug ≠ .done ∧ c.KillReady c.unplug
  | .free => c.released = true ∧ .card ∈ c.live ∧ ∀ d, c.opened d = false

def cardExec (hw : Dir → HwParams) (c : Card) : CardLabel → Option Card
  | .opens d => some { c with opened := Function.update c.opened d true }
  | .closes d => some { c with opened := Function.update c.opened d false }
  | .pcm d l => pcmExec hw c d l
  | .load d => loadUrb c d
  | .disconnect => if c.intfdata then some { c with unplug := .stop .capture } else some c
  | .unplug => djmt1Disconnect c
  | .free => do
    let live ← release c.live .card
    return { c with live }

/-- The URB as the stream has it. -/
def ChipUrb.urb (x : ChipUrb) : Urb where
  status := 0
  transferBuffer := x.transferBuffer.getD (Region.fill 0 0)
  isoFrameDesc := x.isoFrameDesc

/-- The card of a chip, with the ring memory ALSA has allocated. -/
def Chip.toCard (c : Chip) (dma : Dir → Region Byte) : Card where
  stream d := { probedStream (dma d) with urb := fun u => (c.urb (d, u)).elim allocUrb ChipUrb.urb }
  live := c.live
  slot x := (c.urb x).isSome
  held _ := none
  opened _ := false
  released := false
  intfdata := c.intfdata
  unplug := .idle

/-- The driver from a successful probe on, with the sizes `hw d` for the stream `d`. -/
def cardMachine (hw : Dir → HwParams) : Machine Card CardLabel where
  init c := ∃ o chip dma, djmt1Probe o = some (chip, 0) ∧
    (∀ d, (dma d).size = (hw d).bufferSize * frameBytes) ∧ c = chip.toCard dma
  enabled := cardEnabled
  exec := cardExec hw

instance decidableForallDir (p : Dir → Prop) [∀ d, Decidable (p d)] : Decidable (∀ d, p d) :=
  decidable_of_iff (p .capture ∧ p .playback) ⟨fun h d => by cases d; exacts [h.1, h.2],
    fun h => ⟨h .capture, h .playback⟩⟩

instance (c : Card) (d : Dir) : (l : StreamLabel) → Decidable (c.PcmEnabled d l)
  | .prepare | .start | .stop | .app _ =>
    inferInstanceAs (Decidable (streamEnabled _ _ ∧ c.opened d = true))
  | .trigger ok => inferInstanceAs (Decidable (streamEnabled _ _ ∧
      ∀ u, (c.stream d).control.next = some u →
        c.held d ≠ none ∧ (ok → c.unplug.rejects (d, u) = false)))
  | .complete u r => inferInstanceAs (Decidable (streamEnabled _ (.complete u r) ∧ True))
  | .handler ok => inferInstanceAs (Decidable (streamEnabled _ (.handler ok) ∧
      (ok → ∀ u, (c.stream d).handler = .submit u → c.unplug.rejects (d, u) = false)))

instance (c : Card) : (pc : UnplugPc) → Decidable (c.KillReady pc)
  | .idle | .stop _ | .card | .data | .done | .free [] _ | .free (_ :: _) .test
  | .free (_ :: _) .buffer | .free (_ :: _) .urb | .free (_ :: _) .clear =>
    inferInstanceAs (Decidable True)
  | .free (x :: _) .kill => inferInstanceAs (Decidable (¬ (c.stream x.1).Uses x.2))

instance (c : Card) : (l : CardLabel) → Decidable (cardEnabled c l)
  | .opens d => inferInstanceAs (Decidable (c.opened d = false ∧ c.released = false))
  | .closes d => inferInstanceAs (Decidable (c.opened d = true ∧ (c.stream d).control = .idle ∧
      (c.stream d).state ≠ .running))
  | .pcm d l => inferInstanceAs (Decidable (c.PcmEnabled d l))
  | .load d => inferInstanceAs (Decidable ((c.stream d).control.next ≠ none ∧ c.held d = none))
  | .disconnect => inferInstanceAs (Decidable (c.unplug = .idle ∨ c.unplug = .done))
  | .unplug => inferInstanceAs (Decidable (c.unplug ≠ .idle ∧ c.unplug ≠ .done ∧
      c.KillReady c.unplug))
  | .free => inferInstanceAs (Decidable (c.released = true ∧ .card ∈ c.live ∧
      ∀ d, c.opened d = false))

instance (hw : Dir → HwParams) (c : Card) (l : CardLabel) :
    Decidable ((cardMachine hw).enabled c l) :=
  inferInstanceAs (Decidable (cardEnabled c l))

end DjmT1.Kernel
