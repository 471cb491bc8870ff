import DjmT1.Kernel.Transfer
import DjmT1.Lib.Machine

/-!
# A PCM stream and its URBs

`streamMachine` is one direction of the kernel driver: ALSA calls `prepare` and
`trigger`, the USB core completes URBs, and the completion handler of the stream
(`djmt1_in_complete` or `djmt1_out_complete`) runs in between, one URB at a time.
The two sides interleave at every `atomic_read`, every `djmt1_transfer` and every
`usb_submit_urb`.

A URB is in flight from a successful `usb_submit_urb` until its handler is called,
at any later time. The USB core refuses a URB that is in flight. ALSA starts a
stream only when it is prepared and does not prepare one that is running.
-/

namespace DjmT1.Kernel

open DjmT1.Lib

/-- `struct usb_iso_packet_descriptor`. -/
structure IsoDesc where
  offset : ℕ
  length : ℕ
  actualLength : ℕ
  status : ℤ

/-- `struct urb`, as far as the driver reads and writes it. `number_of_packets` is
    `NPKT` (line 167). -/
structure Urb where
  status : ℤ
  transferBuffer : Region Byte
  isoFrameDesc : ℕ → IsoDesc

/-- `SNDRV_PCM_STREAM_CAPTURE` and `SNDRV_PCM_STREAM_PLAYBACK`. -/
inductive Dir
  | capture | playback
  deriving DecidableEq, Repr

/-- The `capture` argument of `djmt1_transfer` (lines 121 and 144). -/
def Dir.isCapture : Dir → Bool
  | .capture => true
  | .playback => false

/-- Where the completion handler of the stream is. -/
inductive HandlerPc
  | none
  /-- before the first `atomic_read(&s->running)` -/
  | test (u : Fin nurb)
  /-- at packet `i` of the loop -/
  | packet (u : Fin nurb) (i : ℕ)
  /-- at the label `resubmit` of `djmt1_in_complete` -/
  | resubmit (u : Fin nurb)
  /-- before `usb_submit_urb` -/
  | submit (u : Fin nurb)
  deriving DecidableEq, Repr

/-- The URB whose handler is executing. -/
def HandlerPc.current : HandlerPc → Option (Fin nurb)
  | .none => Option.none
  | .test u | .packet u _ | .resubmit u | .submit u => some u

/-- Where `djmt1_trigger` is: in the loop of START, with the URBs it has yet to
    submit, or not called. -/
inductive ControlPc
  | idle
  | start (rest : List (Fin nurb))
  deriving DecidableEq, Repr

/-- The state ALSA keeps of the stream. -/
inductive PcmState
  | setup | prepared | running
  deriving DecidableEq, Repr

/-- What has happened since the stream was last prepared. -/
structure StreamLog where
  /-- the frames `djmt1_transfer` has moved, in order -/
  moved : List (List Byte)
  /-- how many it had moved at each call of `snd_pcm_period_elapsed` -/
  marks : List ℕ
  /-- the frames of the URB buffers that it has copied from the PCM ring -/
  fresh : Fin nurb → ℕ → Bool

/-- `struct djmt1_stream` (lines 47-53) with its environment. -/
structure Stream where
  pcm : Pcm
  running : Bool
  urb : Fin nurb → Urb
  flying : Finset (Fin nurb)
  handler : HandlerPc
  control : ControlPc
  state : PcmState
  log : StreamLog

/-! ## The steps -/

/-- `usb_submit_urb`: the stream afterwards and whether it returns 0. `ok` is
    whether the USB core has room for it. -/
def usbSubmitUrb (s : Stream) (u : Fin nurb) (ok : Bool) : Stream × Bool :=
  if ok ∧ u ∉ s.flying then ({ s with flying := insert u s.flying }, true) else (s, false)

/-- `djmt1_prepare` (lines 206-217). -/
def djmt1Prepare (s : Stream) : Stream :=
  { s with
    pcm := { s.pcm with hwptr := 0, periodPos := 0 }
    state := .prepared
    log := ⟨[], [], fun _ _ => false⟩ }

/-- The beginning of `djmt1_trigger(START)` (line 228). -/
def triggerStart (s : Stream) : Stream :=
  { s with running := true, control := .start (List.finRange nurb) }

/-- A turn of the loop of `djmt1_trigger(START)`, or its return (lines 229-236). -/
def triggerStep (s : Stream) (ok : Bool) : Option Stream :=
  match s.control with
  | .idle => none
  | .start [] => some { s with control := .idle, state := .running }
  | .start (u :: rest) =>
    match usbSubmitUrb s u ok with
    | (s, true) => some { s with control := .start rest }
    | (s, false) => some { s with running := false, control := .idle }

/-- `djmt1_trigger(STOP)` (lines 237-239). -/
def triggerStop (s : Stream) : Stream :=
  { s with running := false, state := if s.state = .running then .setup else s.state }

/-- `djmt1_transfer` on `n` frames at offset `pkt` of the buffer of URB `u`. -/
def transferStep (hw : HwParams) (d : Dir) (s : Stream) (u : Fin nurb) (pkt n : ℕ) :
    Option Stream := do
  let (pcm, buf, elapsed) ← djmt1Transfer hw d.isCapture s.pcm (s.urb u).transferBuffer pkt n
  let moved := s.log.moved ++
    (List.range n).map fun i => buf.slice (pkt + i * frameBytes) frameBytes
  return { s with
    pcm
    urb := Function.update s.urb u { s.urb u with transferBuffer := buf }
    log := {
      moved
      marks := if elapsed then s.log.marks ++ [moved.length] else s.log.marks
      fresh := fun v k => s.log.fresh v k ||
        (!d.isCapture && v == u && pkt ≤ k * frameBytes &&
          k * frameBytes < pkt + n * frameBytes) } }

/-- `iso_frame_desc[i].offset = i * PKT_BYTES` and `.length = PKT_BYTES` (lines
    125-126 and 142-143). -/
def resetDesc (i : ℕ) (d : IsoDesc) : IsoDesc :=
  { d with offset := i * pktBytes, length := pktBytes }

/-- The descriptor of packet `i` is reset. -/
def Urb.resetPacket (x : Urb) (i : ℕ) : Urb :=
  { x with isoFrameDesc := Function.update x.isoFrameDesc i (resetDesc i (x.isoFrameDesc i)) }

/-- The descriptors of all packets are reset. -/
def Urb.resetPackets (x : Urb) : Urb :=
  { x with isoFrameDesc := fun i => if i < npkt then resetDesc i (x.isoFrameDesc i)
      else x.isoFrameDesc i }

/-- A step of `djmt1_in_complete` (lines 107-130). -/
def inComplete (hw : HwParams) (s : Stream) (ok : Bool) : Option Stream :=
  match s.handler with
  | .none => none
  | .test u =>
    if s.running = false ∨ (s.urb u).status ≠ 0 then some { s with handler := .resubmit u }
    else some { s with handler := .packet u 0 }
  | .packet u i =>
    if i < npkt then
      let d := (s.urb u).isoFrameDesc i
      if d.status ≠ 0 ∨ d.actualLength < frameBytes then
        some { s with handler := .packet u (i + 1) }
      else do
        let s ← transferStep hw .capture s u d.offset (d.actualLength / frameBytes)
        return { s with handler := .packet u (i + 1) }
    else some { s with handler := .resubmit u }
  | .resubmit u =>
    if s.running then
      some { s with
        urb := Function.update s.urb u (s.urb u).resetPackets, handler := .submit u }
    else some { s with handler := .none }
  | .submit u => some { (usbSubmitUrb s u ok).1 with handler := .none }

/-- A step of `djmt1_out_complete` (lines 132-147). -/
def outComplete (hw : HwParams) (s : Stream) (ok : Bool) : Option Stream :=
  match s.handler with
  | .none | .resubmit _ => none
  | .test u =>
    if s.running then some { s with handler := .packet u 0 } else some { s with handler := .none }
  | .packet u i =>
    if i < npkt then do
      let s := { s with urb := Function.update s.urb u ((s.urb u).resetPacket i) }
      let s ← transferStep hw .playback s u (i * pktBytes) framesPerPkt
      return { s with handler := .packet u (i + 1) }
    else some { s with handler := .submit u }
  | .submit u => some { (usbSubmitUrb s u ok).1 with handler := .none }

/-- A step of the completion handler of a stream. -/
def completeStep (hw : HwParams) (d : Dir) (s : Stream) (ok : Bool) : Option Stream :=
  match d with
  | .capture => inComplete hw s ok
  | .playback => outComplete hw s ok

/-! ## The machine -/

/-- What the USB core reports of a URB: its status, and for each packet the bytes
    transferred and the status. On capture it has also filled the buffer. -/
structure UrbResult where
  status : ℤ
  actualLength : ℕ → ℕ
  packetStatus : ℕ → ℤ
  data : Region Byte

/-- The URB as its handler finds it. -/
def Urb.report (x : Urb) (d : Dir) (r : UrbResult) : Urb where
  status := r.status
  transferBuffer := if d.isCapture then r.data else x.transferBuffer
  isoFrameDesc i :=
    { x.isoFrameDesc i with actualLength := r.actualLength i, status := r.packetStatus i }

/-- What happens next. -/
inductive StreamLabel
  /-- ALSA prepares, starts, stops the stream -/
  | prepare
  | start
  | stop
  /-- a step of the START in progress -/
  | trigger (ok : Bool)
  /-- the USB core completes a URB -/
  | complete (u : Fin nurb) (r : UrbResult)
  /-- a step of the completion handler -/
  | handler (ok : Bool)
  /-- the application writes to the PCM ring -/
  | app (dma : Region Byte)

def streamEnabled (s : Stream) : StreamLabel → Prop
  | .prepare => s.control = .idle ∧ s.state ≠ .running
  | .start => s.control = .idle ∧ s.state = .prepared
  | .stop => s.control = .idle
  | .trigger _ => s.control ≠ .idle
  | .complete u r => u ∈ s.flying ∧ s.handler = .none ∧
      r.data.size = (s.urb u).transferBuffer.size ∧
      ∀ i < npkt, r.actualLength i ≤ ((s.urb u).isoFrameDesc i).length
  | .handler _ => s.handler ≠ .none
  | .app dma => dma.size = s.pcm.dma.size

def streamExec (hw : HwParams) (d : Dir) (s : Stream) : StreamLabel → Option Stream
  | .prepare => some (djmt1Prepare s)
  | .start => some (triggerStart s)
  | .stop => some (triggerStop s)
  | .trigger ok => triggerStep s ok
  | .complete u r => some { s with
      flying := s.flying.erase u
      urb := Function.update s.urb u ((s.urb u).report d r)
      handler := .test u }
  | .handler ok => completeStep hw d s ok
  | .app dma => some { s with pcm := { s.pcm with dma } }

/-- A URB as `djmt1_alloc_urbs` sets it up (lines 149-179): a zeroed buffer. -/
def allocUrb : Urb where
  status := 0
  transferBuffer := Region.fill urbBytes 0
  isoFrameDesc i := ⟨i * pktBytes, pktBytes, 0, 0⟩

/-- The stream after `djmt1_probe`, with the ring memory ALSA has allocated. -/
def probedStream (dma : Region Byte) : Stream where
  pcm := ⟨0, 0, dma⟩
  running := false
  urb := fun _ => allocUrb
  flying := ∅
  handler := .none
  control := .idle
  state := .setup
  log := ⟨[], [], fun _ _ => false⟩

/-- A stream of direction `d` with the buffer and period sizes `hw`. -/
def streamMachine (hw : HwParams) (d : Dir) : Machine Stream StreamLabel where
  init s := ∃ dma : Region Byte, dma.size = hw.bufferSize * frameBytes ∧ s = probedStream dma
  enabled := streamEnabled
  exec := streamExec hw d

instance (s : Stream) : (l : StreamLabel) → Decidable (streamEnabled s l)
  | .prepare => inferInstanceAs (Decidable (s.control = .idle ∧ s.state ≠ .running))
  | .start => inferInstanceAs (Decidable (s.control = .idle ∧ s.state = .prepared))
  | .stop => inferInstanceAs (Decidable (s.control = .idle))
  | .trigger _ => inferInstanceAs (Decidable (s.control ≠ .idle))
  | .complete u r => inferInstanceAs (Decidable (u ∈ s.flying ∧ s.handler = .none ∧
      r.data.size = (s.urb u).transferBuffer.size ∧
      ∀ i < npkt, r.actualLength i ≤ ((s.urb u).isoFrameDesc i).length))
  | .handler _ => inferInstanceAs (Decidable (s.handler ≠ .none))
  | .app dma => inferInstanceAs (Decidable (dma.size = s.pcm.dma.size))

instance (hw : HwParams) (d : Dir) (s : Stream) (l : StreamLabel) :
    Decidable ((streamMachine hw d).enabled s l) :=
  inferInstanceAs (Decidable (streamEnabled s l))

end DjmT1.Kernel
