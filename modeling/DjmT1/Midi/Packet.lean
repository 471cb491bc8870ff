import DjmT1.Lib.Libusb
import DjmT1.Lib.Loop
import DjmT1.Lib.Region

/-!
# USB-MIDI packets and `midi_cb`

The mixer and the MIDI daemons exchange 4-byte USB-MIDI event packets: a header
with the cable number and the code index number (CIN), and up to three MIDI bytes.
`midi_cb` hands the MIDI bytes of each packet of a completed transfer to
`emit_midi`. `djm_midi` and `djm_full` have the same function but for the flags
that decide whether the transfer is submitted again.

* `midiPacket_spec`: a packet with CIN 0 or 1 is skipped, all others are counted
  and handed on.
* `midiCb_spec`: a completed transfer of whole packets is handed on packet by
  packet, and nothing outside it is read.
-/

namespace DjmT1.Midi

open DjmT1.Lib

/-- `MIDI_MAXPKT` and `HID_LEN` (midi/djm_midi.c:48 and 52, midi/djm_full.c:36 and 39). -/
abbrev midiMaxpkt : ℕ := 512

abbrev hidLen : ℕ := 16

/-- `cin_len` (midi/djm_midi.c:74, midi/djm_full.c:50). -/
def cinLen (cin : ℕ) : ℤ := [0, 0, 2, 3, 3, 1, 2, 3, 3, 3, 3, 3, 2, 2, 3, 1].getD cin 0

/-- What the MIDI side of a daemon keeps: `midi_msgs`, the flags `running` and
    `do_quit` (`g_stop` in `djm_full`), and the calls of `emit_midi` so far. -/
structure Bridge where
  midiMsgs : BitVec 64
  running : Bool
  quit : Bool
  emitted : List (List Byte)

/-- A completed bulk transfer, with `actual_length` bytes in its buffer. -/
structure BulkTransfer where
  status : XferStatus
  buffer : Region Byte
  actualLength : ℕ
  le : actualLength ≤ buffer.size

/-- `emit_midi(m, n)` reads `m[0], …, m[n-1]`, one after the other, into the ALSA
    encoder (lines 90-102). -/
def emitMidi (buf : Region Byte) (m : ℕ) (n : ℤ) (s : Bridge) : Option Bridge := do
  let bytes ← (List.range n.toNat).mapM fun (i : ℕ) => buf.load (m + i : ℕ)
  return { s with emitted := s.emitted ++ [bytes] }

/-- The body of the loop of `midi_cb` (lines 140-151). -/
def midiPacket (buf : Region Byte) (s : Bridge) (i : ℕ) : Option Bridge := do
  let p0 ← buf.load i
  let p1 ← buf.load (i + 1 : ℕ)
  let p2 ← buf.load (i + 2 : ℕ)
  let p3 ← buf.load (i + 3 : ℕ)
  if p0 = 0 ∧ p1 = 0 ∧ p2 = 0 ∧ p3 = 0 then return s
  let n := cinLen (p0 &&& 0x0f).toNat
  if n ≤ 0 then return s
  emitMidi buf (i + 1) n { s with midiMsgs := s.midiMsgs + 1 }

/-- `midi_cb` (lines 137-154): the bridge afterwards, and whether the transfer is
    submitted again. `go` is the test before `libusb_submit_transfer`. -/
def midiCb (go : Bridge → Bool) (s : Bridge) (t : BulkTransfer) : Option (Bridge × Bool) :=
  if t.status = .completed then do
    let s ← (List.range (t.actualLength / 4)).foldlM
      (fun s (k : ℕ) => midiPacket t.buffer s (k * 4)) s
    return (s, go s)
  else if t.status = .noDevice then some ({ s with quit := true }, false)
  else some (s, go s)

/-- `midi_cb` of `djm_midi` (midi/djm_midi.c:137-154). -/
def DjmMidi.midiCb : Bridge → BulkTransfer → Option (Bridge × Bool) :=
  Midi.midiCb fun s => s.running && !s.quit

/-- `midi_cb` of `djm_full` (midi/djm_full.c:103-116). -/
def DjmFull.midiCb : Bridge → BulkTransfer → Option (Bridge × Bool) := Midi.midiCb fun s => !s.quit

/-! ## Packets -/

/-- A USB-MIDI event packet. -/
structure Packet where
  header : Byte
  b1 : Byte
  b2 : Byte
  b3 : Byte
  deriving DecidableEq

namespace Packet

/-- The four bytes of a packet. -/
def bytes (p : Packet) : List Byte := [p.header, p.b1, p.b2, p.b3]

/-- The code index number. -/
def cin (p : Packet) : ℕ := (p.header &&& 0x0f).toNat

/-- The packet carries MIDI bytes: its CIN is not one of the reserved 0 and 1. -/
def Carries (p : Packet) : Prop := 2 ≤ p.cin

instance (p : Packet) : Decidable p.Carries := inferInstanceAs (Decidable (_ ≤ _))

/-- The MIDI bytes of the packet. -/
def payload (p : Packet) : List Byte := [p.b1, p.b2, p.b3].take (cinLen p.cin).toNat

@[simp] theorem length_bytes (p : Packet) : p.bytes.length = 4 := rfl

theorem cin_lt (p : Packet) : p.cin < 16 := by
  unfold cin
  rw [BitVec.toNat_and]
  exact Nat.and_lt_two_pow _ (n := 4) (by decide)

end Packet

/-- A packet carries between one and three MIDI bytes, or none. -/
theorem cinLen_range : ∀ c < 16, cinLen c ≤ 3 ∧ (0 < cinLen c ↔ 2 ≤ c) := by decide

theorem length_flatMap_bytes (ps : List Packet) :
    (ps.flatMap Packet.bytes).length = ps.length * 4 := by
  induction ps with
  | nil => rfl
  | cons p ps ih =>
    rw [List.flatMap_cons, List.length_append, ih, Packet.length_bytes, List.length_cons]
    ring

/-- The buffer holds packet `p` at index `i`. -/
def PacketAt (buf : Region Byte) (i : ℕ) (p : Packet) : Prop :=
  i + 4 ≤ buf.size ∧ buf.slice i 4 = p.bytes

/-- What one packet does to the bridge. -/
def deliver (s : Bridge) (p : Packet) : Bridge :=
  if p.Carries then
    { s with midiMsgs := s.midiMsgs + 1, emitted := s.emitted ++ [p.payload] }
  else s

theorem PacketAt.get {buf : Region Byte} {i : ℕ} {p : Packet} (h : PacketAt buf i p) :
    buf.get i = p.header ∧ buf.get (i + 1) = p.b1 ∧ buf.get (i + 2) = p.b2 ∧
      buf.get (i + 3) = p.b3 := by
  have hs := h.2
  simp only [Region.slice, Packet.bytes, List.range_succ, List.range_zero, List.nil_append,
    List.cons_append, List.map_cons, List.map_nil, List.cons.injEq, and_true] at hs
  exact hs

theorem emitMidi_eq {buf : Region Byte} {m n : ℕ} (s : Bridge) (h : m + n ≤ buf.size) :
    emitMidi buf m n s = some { s with emitted := s.emitted ++ [buf.slice m n] } := by
  simp only [emitMidi, Option.bind_eq_bind, Int.toNat_natCast, Region.mapM_load h, Option.bind_some,
    Option.pure_def]

/-- The body of the loop of `midi_cb`, on one packet. -/
theorem midiPacket_spec {buf : Region Byte} {i : ℕ} {p : Packet} (h : PacketAt buf i p)
    (s : Bridge) : midiPacket buf s i = some (deliver s p) := by
  obtain ⟨h0, h1, h2, h3⟩ := h.get
  have hsize := h.1
  obtain ⟨hle, hpos⟩ := cinLen_range p.cin p.cin_lt
  simp only [midiPacket, Option.bind_eq_bind, Option.pure_def]
  rw [Region.load_eq (by omega), Option.bind_some, Region.load_eq (by omega), Option.bind_some,
    Region.load_eq (by omega), Option.bind_some, Region.load_eq (by omega), Option.bind_some,
    h0, h1, h2, h3, show (p.header &&& 0x0f).toNat = p.cin from rfl]
  by_cases hzero : p.header = 0 ∧ p.b1 = 0 ∧ p.b2 = 0 ∧ p.b3 = 0
  · -- padding: its CIN is 0
    have hcin : p.cin = 0 := by
      unfold Packet.cin
      rw [hzero.1]
      rfl
    rw [if_pos hzero, deliver, if_neg (by unfold Packet.Carries; omega)]
  · rw [if_neg hzero]
    by_cases hn : cinLen p.cin ≤ 0
    · rw [if_pos hn, deliver, if_neg (by unfold Packet.Carries; omega)]
    · rw [if_neg hn, deliver, if_pos (by unfold Packet.Carries; omega)]
      obtain ⟨n, hnat⟩ := Int.eq_ofNat_of_zero_le (show 0 ≤ cinLen p.cin by omega)
      have hbytes : buf.slice (i + 1) 3 = [p.b1, p.b2, p.b3] := by
        simp [Region.slice, List.range_succ, h1, ← h2, ← h3, Nat.add_assoc]
      rw [Packet.payload, hnat, emitMidi_eq _ (by omega), Int.toNat_natCast, ← hbytes,
        Region.take_slice buf _ (by omega)]

/-! ## Transfers -/

/-- The transfer consists of the packets `ps`. -/
def BulkTransfer.Holds (t : BulkTransfer) (ps : List Packet) : Prop :=
  t.buffer.slice 0 t.actualLength = ps.flatMap Packet.bytes

/-- A completed transfer of the given bytes. -/
def bulkOf (bs : List Byte) : BulkTransfer where
  status := .completed
  buffer := Region.ofList bs 0
  actualLength := bs.length
  le := le_rfl

/-- A transfer that brings nothing, with a buffer of `n` bytes. -/
def emptyTransfer (status : XferStatus) (n : ℕ) : BulkTransfer where
  status := status
  buffer := Region.fill n 0
  actualLength := 0
  le := Nat.zero_le n

theorem bulkOf_holds (ps : List Packet) : (bulkOf (ps.flatMap Packet.bytes)).Holds ps :=
  Region.toList_ofList _ _

/-- Packets that lie back to back in a buffer. -/
theorem packetAt_of_slice {buf : Region Byte} {ps : List Packet} {off : ℕ}
    (hsize : off + ps.length * 4 ≤ buf.size)
    (h : buf.slice off (ps.length * 4) = ps.flatMap Packet.bytes) {k : ℕ} (hk : k < ps.length) :
    PacketAt buf (off + k * 4) ps[k] := by
  induction ps generalizing off k with
  | nil => exact absurd hk (Nat.not_lt_zero k)
  | cons p ps ih =>
    rw [List.length_cons] at hsize hk h
    rw [show (ps.length + 1) * 4 = 4 + ps.length * 4 by ring, Region.slice_add,
      List.flatMap_cons] at h
    obtain ⟨hhead, htail⟩ := List.append_inj h (by rw [Region.length_slice, Packet.length_bytes])
    cases k with
    | zero => exact ⟨by omega, by rw [Nat.zero_mul, Nat.add_zero]; exact hhead⟩
    | succ k =>
      have hat := ih (by omega) htail (k := k) (by omega)
      rw [show off + (k + 1) * 4 = off + 4 + k * 4 by ring]
      exact hat

/-- `midi_cb` on a completed transfer of whole packets. -/
theorem midiCb_spec (go : Bridge → Bool) {t : BulkTransfer} {ps : List Packet}
    (hst : t.status = .completed) (h : t.Holds ps) (s : Bridge) :
    midiCb go s t = some (ps.foldl deliver s, go (ps.foldl deliver s)) := by
  have hlen : t.actualLength = ps.length * 4 := by
    have := congrArg List.length h
    rwa [Region.length_slice, length_flatMap_bytes] at this
  have hle := t.le
  unfold BulkTransfer.Holds at h
  rw [hlen] at h hle
  obtain ⟨u, hu, rfl⟩ := loop_spec (s := s) (fun s (k : ℕ) => midiPacket t.buffer s (k * 4))
    (fun k u => u = (ps.take k).foldl deliver s) ps.length rfl (by
      rintro k _ hk rfl
      have hat := packetAt_of_slice (by omega) h hk
      rw [Nat.zero_add] at hat
      refine ⟨_, midiPacket_spec hat _, ?_⟩
      rw [List.take_add_one, List.getElem?_eq_getElem hk, Option.toList_some, List.foldl_append]
      rfl)
  rw [List.take_length] at hu
  simp only [midiCb, hst, if_true, hlen, Nat.mul_div_cancel _ (show 0 < 4 by decide),
    Option.bind_eq_bind, Option.pure_def, hu, Option.bind_some]

/-- `midi_cb` on a transfer of any status and contents: it sets the quit flag exactly if
    the device is gone, and else asks whether to submit the transfer again. -/
theorem midiCb_cases (go : Bridge → Bool) (s : Bridge) (t : BulkTransfer) :
    ∃ s' again, midiCb go s t = some (s', again) ∧ s'.running = s.running ∧
      (t.status = .noDevice ∧ s'.quit = true ∧ again = false ∨
        t.status ≠ .noDevice ∧ s'.quit = s.quit ∧ again = go s') := by
  by_cases hdone : t.status = .completed
  · have hle := t.le
    obtain ⟨u, hu, hrun, hquit⟩ := loop_spec (s := s)
      (fun s (k : ℕ) => midiPacket t.buffer s (k * 4))
      (fun _ u => u.running = s.running ∧ u.quit = s.quit) (t.actualLength / 4) ⟨rfl, rfl⟩ (by
        rintro k u hk ⟨hrun, hquit⟩
        obtain ⟨p, hp⟩ : ∃ p : Packet, PacketAt t.buffer (k * 4) p :=
          ⟨⟨t.buffer.get (k * 4), t.buffer.get (k * 4 + 1), t.buffer.get (k * 4 + 2),
            t.buffer.get (k * 4 + 3)⟩, by omega, by
            simp [Region.slice, List.range_succ, Packet.bytes]⟩
        refine ⟨_, midiPacket_spec hp u, ?_⟩
        rw [deliver]
        split_ifs
        · exact ⟨hrun, hquit⟩
        · exact ⟨hrun, hquit⟩)
    refine ⟨u, go u, ?_, hrun, .inr ⟨by simp [hdone], hquit, rfl⟩⟩
    simp only [midiCb, hdone, if_true, Option.bind_eq_bind, Option.pure_def, hu, Option.bind_some]
  · by_cases hgone : t.status = .noDevice
    · exact ⟨{ s with quit := true }, false, by simp [midiCb, hgone], rfl, .inl ⟨hgone, rfl, rfl⟩⟩
    · exact ⟨s, go s, by simp [midiCb, hdone, hgone], rfl, .inr ⟨hgone, rfl, rfl⟩⟩

/-- What a sequence of packets does to the bridge. -/
theorem foldl_deliver (ps : List Packet) (s : Bridge) : ps.foldl deliver s = { s with
      midiMsgs := s.midiMsgs + BitVec.ofNat 64 (ps.countP (Packet.Carries ·))
      emitted := s.emitted ++ (ps.filter (Packet.Carries ·)).map Packet.payload } := by
  induction ps generalizing s with
  | nil => simp
  | cons p ps ih =>
    rw [List.foldl_cons, ih, deliver]
    by_cases hp : p.Carries
    · simp [hp, BitVec.ofNat_add, BitVec.add_assoc, BitVec.add_comm]
    · simp [hp]

end DjmT1.Midi
