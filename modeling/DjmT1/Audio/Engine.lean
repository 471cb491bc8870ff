import DjmT1.Audio.Codec
import DjmT1.Lib.Libusb
import DjmT1.Lib.Machine

/-!
# The data path of the engine

`djmt1_iso.c` moves audio through two rings. The event thread runs `in_cb` and
`out_cb` for completed transfers, one at a time: it produces into the capture
ring and consumes from the playback ring. Callers consume the capture ring with
`djmt1_iso_read` and feed the playback ring with `djmt1_iso_write`.

`engineMachine` interleaves the event thread with one reading and one writing
thread at every access to a ring. What a callback does between two such accesses
touches only its own locals, the transfer and the counters, and is taken together
with the access before it. Which transfers complete, with what statuses and
contents, and whether a resubmission succeeds, is up to the labels.

The state keeps histories (`EngineLog`) of the packets seen, the frames the
callers exchanged and the OUT transfers filled and submitted.
-/

namespace DjmT1.Audio

open DjmT1.Lib

/-- `PKT_IN_MAX` (audio/djmt1_iso.c:17). -/
abbrev pktInMax : ℕ := 1024

/-- `PKT_OUT` (line 18). -/
abbrev pktOut : ℕ := 864

/-- `FRAMES_PER_PKT` (line 19). -/
abbrev framesPerPkt : ℕ := pktOut / (djmt1Ch * 3)

/-- `IN_MAX_FRAMES` (line 20). -/
abbrev inMaxFrames : ℕ := pktInMax / (djmt1Ch * 3)

/-- `NPKT` (line 21). -/
abbrev npkt : ℕ := 24

/-- `NXFR` (line 22). -/
abbrev nxfr : ℕ := 6

/-- A packet of a completed IN transfer. `data` holds the `actual_length` bytes
    the device sent, at most the `PKT_IN_MAX` requested; what follows them in the
    transfer buffer is not part of it. -/
structure IsoPacket where
  status : XferStatus
  data : Region Byte
  le : data.size ≤ pktInMax

/-- A completed IN transfer. -/
structure InTransfer where
  status : XferStatus
  packets : List IsoPacket

/-- A completed OUT transfer, with at most the `NPKT` packets it was allocated
    with, and a buffer for them. -/
structure OutTransfer where
  status : XferStatus
  numIsoPackets : ℕ
  buffer : Region Byte
  le : numIsoPackets ≤ npkt
  fits : numIsoPackets * pktOut ≤ buffer.size

/-- `(int)d->actual_length / (DJMT1_CH * 3)`, at most `IN_MAX_FRAMES`
    (lines 80-82). -/
def packetFrames (p : IsoPacket) : ℤ :=
  let nf : ℤ := p.data.size / (djmt1Ch * 3 : ℕ)
  if nf > inMaxFrames then inMaxFrames else nf

/-- The `memset` of `out_cb` (lines 101-104): zero frames after the `got` frames
    read, up to `total`. -/
def padFrames (tmp : Region ℚ) (got total : ℤ) : Option (Region ℚ) :=
  if got < total then tmp.memset (got * djmt1Ch) 0 ((total - got).toNat * djmt1Ch) else some tmp

/-- Lines 101-108 of `out_cb`: pad `tmp` and encode `total` frames into the
    transfer buffer. -/
def outFill (x : OutTransfer) (tmp : Region ℚ) (got total : ℤ) : Option (Region Byte) := do
  let tmp ← padFrames tmp got total
  encodeLoop roundFloat tmp total.toNat x.buffer

/-- `st != COMPLETED && st != CANCELLED` (lines 74 and 96). -/
def isError (st : XferStatus) : Bool := st ≠ .completed ∧ st ≠ .cancelled

/-- Where the event thread is. -/
inductive EvPc
  /-- between callbacks -/
  | idle
  /-- in `in_cb`, at the head of the packet loop -/
  | inCb (rest : List IsoPacket) (tmp : Region ℚ)
  /-- in `in_cb`, inside `ring_write(&e->cap_ring, tmp, nf)` for packet `p` -/
  | inWrite (p : IsoPacket) (rest : List IsoPacket) (nf : ℤ) (pc : WritePc ℚ)
  /-- in `out_cb`, inside `ring_read(&e->play_ring, tmp, total)` -/
  | outRead (x : OutTransfer) (total : ℤ) (pc : ReadPc ℚ)

/-- The event thread is not in a callback. -/
def EvPc.isIdle : EvPc → Bool
  | .idle => true
  | _ => false

/-- The packets of the current IN transfer that `in_cb` has yet to deal with. -/
def EvPc.pending : EvPc → List IsoPacket
  | .inCb rest _ => rest
  | .inWrite p rest _ _ => p :: rest
  | .idle | .outRead _ _ _ => []

/-! ## Histories -/

/-- An IN packet that `in_cb` has dealt with: the ring space `ring_write` found
    and the frames it accepted. -/
structure PacketRec where
  packet : IsoPacket
  room : ℤ
  wrote : ℤ

/-- An OUT transfer that `out_cb` has dealt with: its size in packets and frames,
    the frames `ring_read` found in the ring, those it returned, and whether the
    transfer was submitted again. -/
structure FillRec where
  numIsoPackets : ℕ
  total : ℤ
  held : ℤ
  frames : List (List ℚ)
  resubmitted : Bool

/-- What has happened so far. -/
structure EngineLog where
  /-- packets of completed IN transfers, in arrival order -/
  arrived : List IsoPacket
  /-- those that `in_cb` has dealt with -/
  packets : List PacketRec
  /-- frames returned by completed `djmt1_iso_read` calls -/
  returned : List (List ℚ)
  /-- frames accepted by completed `djmt1_iso_write` calls -/
  accepted : List (List ℚ)
  /-- frames offered to and accepted by each `djmt1_iso_write` call -/
  writes : List (ℤ × ℤ)
  /-- completed OUT transfers -/
  fills : List FillRec
  /-- payloads of the OUT transfers submitted, in submission order -/
  submitted : List (List Byte)

/-- The engine (audio/djmt1_iso.c:52-59), its three threads and the history. -/
structure EngineState where
  capRing : Ring ℚ
  playRing : Ring ℚ
  capOver : BitVec 32
  playUnder : BitVec 32
  xferErr : BitVec 32
  ev : EvPc
  rd : Option (ReadPc ℚ)
  wr : Option (ℤ × WritePc ℚ)
  log : EngineLog

/-! ## Steps -/

/-- A completed transfer is counted if its status is an error (lines 74-75 and
    96-97). -/
def countXfer (e : EngineState) (st : XferStatus) : EngineState :=
  if isError st then { e with xferErr := e.xferErr + 1 } else e

/-- The event thread moves on to `ev` after packet `p` without writing it. -/
def skipPacket (e : EngineState) (p : IsoPacket) (ev : EvPc) : EngineState :=
  { e with ev, log := { e.log with
      packets := e.log.packets ++ [⟨p, e.capRing.cap - 1 - e.capRing.used, 0⟩] } }

/-- `ring_write` has returned for packet `p` (lines 87-88). -/
def wrotePacket (e : EngineState) (p : IsoPacket) (nf wrote room : ℤ) (ev : EvPc) : EngineState :=
  { e with
    ev
    capOver := if wrote < nf then e.capOver + 1 else e.capOver
    log := { e.log with packets := e.log.packets ++ [⟨p, room, wrote⟩] } }

/-- `ring_read` has returned and the transfer has been filled with `payload`
    (lines 101-110). -/
def filledTransfer (e : EngineState) (x : OutTransfer) (total got held : ℤ) (fs : List (List ℚ))
    (payload : List Byte) (resub : Bool) : EngineState :=
  { e with
    ev := .idle
    playUnder := if got < total then e.playUnder + 1 else e.playUnder
    log := { e.log with
      fills := e.log.fills ++ [⟨x.numIsoPackets, total, held, fs, resub⟩]
      submitted := e.log.submitted ++ if resub then [payload] else [] } }

/-- A step of the event thread inside a callback. `resub` is the outcome of
    `atomic_load(&e->running) && libusb_submit_transfer(x) == 0` at the end of a
    callback; a transfer that is not submitted again is retired. -/
def evStep (e : EngineState) (resub : Bool) : Option EngineState :=
  match e.ev with
  | .idle => none
  | .inCb [] _ => some { e with ev := .idle }
  | .inCb (p :: rest) tmp =>
    if p.status ≠ .completed then some (skipPacket e p (.inCb rest tmp))
    else if packetFrames p ≤ 0 then some (skipPacket e p (.inCb rest tmp))
    else do
      let tmp ← decodeLoop p.data (packetFrames p).toNat tmp
      return { e with ev := .inWrite p rest (packetFrames p) (.availW tmp (packetFrames p)) }
  | .inWrite p rest nf pc => do
    match ← writeStep e.capRing pc with
    | (R, .inl pc) => return { e with capRing := R, ev := .inWrite p rest nf pc }
    | (R, .inr (wrote, sp)) =>
      return wrotePacket { e with capRing := R } p nf wrote sp (.inCb rest pc.src)
  | .outRead x total pc => do
    match ← readStep e.playRing pc with
    | (R, .inl pc) => return { e with playRing := R, ev := .outRead x total pc }
    | (R, .inr (tmp, got, av)) => do
      let b ← outFill x tmp got total
      return filledTransfer { e with playRing := R } x total got av (frames tmp got.toNat)
        (b.slice 0 (x.numIsoPackets * pktOut)) resub

/-- What happens next. `tmp` is the uninitialised local array of a callback. -/
inductive EngineLabel
  /-- libusb calls `in_cb` -/
  | inDone (x : InTransfer) (tmp : Region ℚ)
  /-- libusb calls `out_cb` -/
  | outDone (x : OutTransfer) (tmp : Region ℚ)
  /-- a step of the callback in progress -/
  | ev (resub : Bool)
  /-- a caller enters `djmt1_iso_read` (line 173), and a step of that call -/
  | callRead (dst : Region ℚ) (n : ℤ)
  | read
  /-- a caller enters `djmt1_iso_write` (line 174), and a step of that call -/
  | callWrite (src : Region ℚ) (n : ℤ)
  | write

def engineEnabled (e : EngineState) : EngineLabel → Prop
  | .inDone _ tmp => e.ev.isIdle ∧ tmp.size = inMaxFrames * djmt1Ch
  | .outDone _ tmp => e.ev.isIdle ∧ tmp.size = npkt * framesPerPkt * djmt1Ch
  | .ev _ => ¬ e.ev.isIdle
  | .callRead dst n => e.rd.isNone ∧ CallOk dst n
  | .read => e.rd.isSome
  | .callWrite src n => e.wr.isNone ∧ CallOk src n
  | .write => e.wr.isSome

def engineExec (e : EngineState) : EngineLabel → Option EngineState
  | .inDone x tmp => some { countXfer e x.status with
      ev := .inCb x.packets tmp, log := { e.log with arrived := e.log.arrived ++ x.packets } }
  | .outDone x tmp => do
    let total ← int32 (x.numIsoPackets * framesPerPkt)
    return { countXfer e x.status with ev := .outRead x total (.availW tmp total) }
  | .ev resub => evStep e resub
  | .callRead dst n => some { e with rd := some (.availW dst n) }
  | .read => do
    let pc ← e.rd
    match ← readStep e.capRing pc with
    | (R, .inl pc) => return { e with capRing := R, rd := some pc }
    | (R, .inr (dst, n, _)) =>
      return { e with capRing := R, rd := none, log := { e.log with
        returned := e.log.returned ++ frames dst n.toNat } }
  | .callWrite src n => some { e with wr := some (n, .availW src n) }
  | .write => do
    let (n₀, pc) ← e.wr
    match ← writeStep e.playRing pc with
    | (R, .inl pc) => return { e with playRing := R, wr := some (n₀, pc) }
    | (R, .inr (n, _)) =>
      return { e with playRing := R, wr := none, log := { e.log with
        accepted := e.log.accepted ++ frames pc.src n.toNat
        writes := e.log.writes ++ [(n₀, n)] } }

/-- The engine as `djmt1_iso_start` leaves it (lines 133-148): both rings empty,
    the counters zero, and `NXFR` zeroed OUT transfers submitted. -/
def engineStart (R : Ring ℚ) : EngineState where
  capRing := R
  playRing := R
  capOver := 0
  playUnder := 0
  xferErr := 0
  ev := .idle
  rd := none
  wr := none
  log := ⟨[], [], [], [], [], [], List.replicate nxfr (Region.fill (npkt * pktOut) 0).toList⟩

/-- The engine with rings of `ringFrames` frames. -/
def engineMachine (ringFrames : ℤ) : Machine EngineState EngineLabel where
  init e := ∃ R, ringInit 0 true ringFrames = some (R, 0) ∧ e = engineStart R
  enabled := engineEnabled
  exec := engineExec

instance (n : ℤ) (e : EngineState) : (l : EngineLabel) → Decidable ((engineMachine n).enabled e l)
  | .inDone _ tmp =>
    inferInstanceAs (Decidable (e.ev.isIdle ∧ tmp.size = inMaxFrames * djmt1Ch))
  | .outDone _ tmp =>
    inferInstanceAs (Decidable (e.ev.isIdle ∧ tmp.size = npkt * framesPerPkt * djmt1Ch))
  | .ev _ => inferInstanceAs (Decidable (¬ e.ev.isIdle = true))
  | .callRead dst n => inferInstanceAs (Decidable (e.rd.isNone ∧ CallOk dst n))
  | .read => inferInstanceAs (Decidable (e.rd.isSome = true))
  | .callWrite src n => inferInstanceAs (Decidable (e.wr.isNone ∧ CallOk src n))
  | .write => inferInstanceAs (Decidable (e.wr.isSome = true))

end DjmT1.Audio
