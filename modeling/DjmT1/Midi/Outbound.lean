import DjmT1.Lib.CInt
import DjmT1.Midi.Inbound

/-!
# MIDI to the mixer

`send_to_device` packs raw MIDI bytes into USB-MIDI packets, up to the 16 that its
64-byte buffer holds. It chooses the length of a message from the status nibble,
while `midi_cb` decodes by the CIN.

* `packLoop_spec`: the packets the loop writes, for any bytes.
* `cutPackets_flatMap`: on complete messages it writes one packet a message.
* `outbound_round_trip`: decoded as `midi_cb` decodes them, the packets are the
  first 16 messages; channel-voice messages of at most 32 bytes all come back.
-/

namespace DjmT1.Midi

open DjmT1.Lib

/-! ## The function -/

/-- The switch on the status nibble: `mlen` and `cin` (midi/djm_midi.c:113-117). -/
def msgShape (hi : Byte) : ℤ × Byte :=
  match hi.toNat with
  | 0x8 | 0x9 | 0xA | 0xB | 0xE => (3, hi)
  | 0xC | 0xD => (2, hi)
  | _ => (1, 0x0F)

theorem msgShape_pos (hi : Byte) : 0 < (msgShape hi).1 := by
  unfold msgShape
  split <;> norm_num

/-- `(mlen > k && i + k < len) ? midi[i + k] : 0` (lines 120-121). -/
def dataByte (midi : Region Byte) (len i mlen k : ℤ) : Option Byte :=
  if mlen > k then do
    let j ← int32 (i + k)
    if j < len then midi.load j else some 0
  else some 0

/-- The four stores of a packet (lines 118-121). -/
def storePacket (midi : Region Byte) (len i : ℤ) (status : Byte) (pn : ℕ) (pkt : Region Byte) :
    Option (Region Byte) := do
  let (mlen, cin) := msgShape (status >>> 4)
  let pkt ← pkt.store pn cin
  let pkt ← pkt.store (pn + 1 : ℕ) status
  let b1 ← dataByte midi len i mlen 1
  let pkt ← pkt.store (pn + 2 : ℕ) b1
  let b2 ← dataByte midi len i mlen 2
  pkt.store (pn + 3 : ℕ) b2

/-- The loop of `send_to_device` (lines 109-123): `pn` and the buffer at its end. -/
def packLoop (midi : Region Byte) (len i : ℤ) (pn : ℕ) (pkt : Region Byte) :
    Option (ℕ × Region Byte) :=
  if h : i < len ∧ pn + 4 ≤ 64 then do
    let status ← midi.load i
    if status.toNat < 0x80 then do
      -- a stray data byte is skipped
      let _ ← int32 (i + 1)
      packLoop midi len (i + 1) pn pkt
    else do
      let pkt ← storePacket midi len i status pn pkt
      let _ ← int32 (i + (msgShape (status >>> 4)).1)
      packLoop midi len (i + (msgShape (status >>> 4)).1) (pn + 4) pkt
  else some (pn, pkt)
termination_by (len - i).toNat
decreasing_by
  · omega
  · have := msgShape_pos (status >>> 4)
    omega

/-- `send_to_device` (midi/djm_midi.c:107-125, and midi/djm_full.c:76-93, the same but
    for the device handle): the bytes it passes to `libusb_bulk_transfer`, if it
    calls it. `pkt` is the uninitialised 64-byte buffer. -/
def sendToDevice (midi : Region Byte) (len : ℤ) (pkt : Region Byte) :
    Option (Option (List Byte)) := do
  let (pn, pkt) ← packLoop midi len 0 0 pkt
  return if pn > 0 then some (pkt.slice 0 pn) else none

/-- `sizeof(buf)` in `drain_seq_input` (midi/djm_midi.c:131, midi/djm_full.c:98): the
    most bytes it passes to `send_to_device`. -/
abbrev seqBufSize : ℕ := 32

/-! ## The packets of any bytes -/

/-- The packet of a status byte, with the data bytes from `rest`. -/
def outPacket (status : Byte) (rest : List Byte) : Packet :=
  let (mlen, cin) := msgShape (status >>> 4)
  ⟨cin, status, if mlen > 1 then rest.getD 0 0 else 0, if mlen > 2 then rest.getD 1 0 else 0⟩

/-- The packets the loop makes of the bytes of its input, if it has room for them. -/
def cutPackets : List Byte → List Packet
  | [] => []
  | b :: bs =>
    if b.toNat < 0x80 then cutPackets bs
    else outPacket b bs :: cutPackets (bs.drop ((msgShape (b >>> 4)).1.toNat - 1))
termination_by bs => bs.length
decreasing_by
  · exact Nat.lt_succ_self _
  · rw [List.length_drop]
    exact Nat.lt_succ_of_le (Nat.sub_le _ _)

/-- How far the loop goes for at most `n` packets. -/
def cutReach : ℕ → List Byte → ℕ
  | 0, _ => 0
  | _ + 1, [] => 0
  | n + 1, b :: bs =>
    if b.toNat < 0x80 then 1 + cutReach (n + 1) bs
    else (msgShape (b >>> 4)).1.toNat + cutReach n (bs.drop ((msgShape (b >>> 4)).1.toNat - 1))
termination_by _ bs => bs.length
decreasing_by
  · exact Nat.lt_succ_self _
  · rw [List.length_drop]
    exact Nat.lt_succ_of_le (Nat.sub_le _ _)

/-- The bytes `m` lie at index `i` of the input, within its first `len`. -/
def BytesAt (midi : Region Byte) (len i : ℕ) (m : List Byte) : Prop :=
  i + m.length ≤ len ∧ ∀ j (hj : j < m.length), midi.load (i + j : ℕ) = some m[j]

theorem bytesAt_ofList (bs : List Byte) : BytesAt (Region.ofList bs 0) bs.length 0 bs := by
  refine ⟨by omega, ?_⟩
  intro j hj
  rw [Nat.zero_add, Region.load_eq (by simpa using hj)]
  simp [Region.ofList, hj]

theorem BytesAt.load {midi : Region Byte} {bs : List Byte} (h : BytesAt midi bs.length 0 bs)
    {i : ℕ} (hi : i < bs.length) : midi.load i = some bs[i] := by
  have := h.2 i hi
  rwa [Nat.zero_add] at this

/-- A data byte is loaded, one past the end of the input is zero. -/
theorem dataByte_eq {midi : Region Byte} {bs : List Byte} {i k : ℕ} (mlen : ℤ)
    (h : BytesAt midi bs.length 0 bs) (hi : mlen > k → i + k < 2 ^ 31) :
    dataByte midi bs.length i mlen k = some (if mlen > k then bs.getD (i + k) 0 else 0) := by
  unfold dataByte
  by_cases hk : mlen > k
  · have hik := hi hk
    rw [if_pos hk, if_pos hk, int32_eq (by omega) (by omega), Option.bind_eq_bind, Option.bind_some,
      ← Nat.cast_add]
    by_cases hin : i + k < bs.length
    · rw [if_pos (by exact_mod_cast hin), h.load hin, List.getD_eq_getElem bs 0 hin]
    · rw [if_neg (by exact_mod_cast hin), List.getD_eq_default bs 0 (not_lt.mp hin)]
  · rw [if_neg hk, if_neg hk]

/-- Four stores one after the other. -/
theorem storePacket_spec {midi : Region Byte} {bs : List Byte} {i n : ℕ} (status : Byte)
    {pkt : Region Byte} (h : BytesAt midi bs.length 0 bs)
    (hi : i + (msgShape (status >>> 4)).1 < 2 ^ 31) (hn : n + 4 ≤ pkt.size) :
    ∃ pkt', storePacket midi bs.length i status n pkt = some pkt' ∧ pkt'.size = pkt.size ∧
      pkt'.slice 0 (n + 4) = pkt.slice 0 n ++ (outPacket status (bs.drop (i + 1))).bytes := by
  obtain ⟨p, hp⟩ : ∃ p, p = outPacket status (bs.drop (i + 1)) := ⟨_, rfl⟩
  rw [← hp]
  refine ⟨⟨pkt.size, Function.update (Function.update (Function.update (Function.update pkt.get n
    p.header) (n + 1) p.b1) (n + 2) p.b2) (n + 3) p.b3⟩, ?_, rfl, ?_⟩
  · have h1 := dataByte_eq (msgShape (status >>> 4)).1 h (i := i) (k := 1)
      (by omega)
    have h2 := dataByte_eq (msgShape (status >>> 4)).1 h (i := i) (k := 2)
      (by omega)
    rw [show ((1 : ℕ) : ℤ) = 1 from rfl] at h1
    rw [show ((2 : ℕ) : ℤ) = 2 from rfl] at h2
    have hget (k : ℕ) : (bs.drop (i + 1)).getD k 0 = bs.getD (i + (k + 1)) 0 := by
      rw [List.getD_eq_getElem?_getD, List.getD_eq_getElem?_getD, List.getElem?_drop]
      congr 2
      omega
    simp only [storePacket, Option.bind_eq_bind]
    rw [Region.store_eq (by omega), Option.bind_some, Region.store_eq (by simp only; omega),
      Option.bind_some, h1, Option.bind_some, Region.store_eq (by simp only; omega),
      Option.bind_some, h2, Option.bind_some, Region.store_eq (by simp only; omega), hp]
    simp only [outPacket, hget]
  · rw [Region.slice_add]
    refine congrArg₂ _ (Region.slice_congr fun j _ hj => ?_) ?_
    · simp only [Function.update_apply]
      rw [if_neg (by omega), if_neg (by omega), if_neg (by omega), if_neg (by omega)]
    · simp [Region.slice, List.range_succ, Function.update_apply, Packet.bytes]

section Iteration

variable {midi : Region Byte} {bs : List Byte} {i n : ℕ}

/-- An iteration that skips a stray data byte. -/
theorem packLoop_stray (h : BytesAt midi bs.length 0 bs) (hi : i < bs.length) (hn : n < 16)
    (hstray : (bs[i]).toNat < 0x80) (pkt : Region Byte) :
    packLoop midi bs.length i (n * 4) pkt =
      (int32 (i + 1 : ℕ)).bind fun _ => packLoop midi bs.length (i + 1 : ℕ) (n * 4) pkt := by
  rw [packLoop, dif_pos (by omega), h.load hi, Option.bind_eq_bind, Option.bind_some, if_pos hstray]
  rfl

/-- An iteration that writes a packet. -/
theorem packLoop_message (h : BytesAt midi bs.length 0 bs) (hi : i < bs.length) (hn : n < 16)
    (hstatus : ¬ (bs[i]).toNat < 0x80) (pkt : Region Byte) :
    packLoop midi bs.length i (n * 4) pkt =
      (storePacket midi bs.length i bs[i] (n * 4) pkt).bind fun pkt =>
        (int32 (i + (msgShape (bs[i] >>> 4)).1)).bind fun _ =>
          packLoop midi bs.length (i + (msgShape (bs[i] >>> 4)).1) ((n + 1) * 4) pkt := by
  rw [packLoop, dif_pos (by omega), h.load hi, Option.bind_eq_bind, Option.bind_some,
    if_neg hstatus, Nat.add_mul, Nat.one_mul]
  rfl

end Iteration

/-- The rest of the loop, from index `i` of the input on, with `ps` already written. -/
theorem packLoop_spec {midi : Region Byte} {bs : List Byte} (h : BytesAt midi bs.length 0 bs)
    {i : ℕ} {ps : List Packet} {pkt : Region Byte}
    (hreach : i + cutReach (16 - ps.length) (bs.drop i) < 2 ^ 31) (hsize : pkt.size = 64)
    (hps : ps.length ≤ 16) (hpkt : pkt.slice 0 (ps.length * 4) = ps.flatMap Packet.bytes) :
    ∃ qs pkt', qs = ps ++ (cutPackets (bs.drop i)).take (16 - ps.length) ∧
      packLoop midi bs.length i (ps.length * 4) pkt = some (qs.length * 4, pkt') ∧
      pkt'.slice 0 (qs.length * 4) = qs.flatMap Packet.bytes := by
  induction hm : bs.length - i using Nat.strong_induction_on generalizing i ps pkt with
  | _ m ih =>
    by_cases hfull : ps.length = 16
    · -- the buffer is full
      refine ⟨ps, pkt, by simp [hfull], ?_, hpkt⟩
      rw [packLoop, dif_neg (by omega)]
    by_cases hi : i < bs.length
    · rw [List.drop_eq_getElem_cons hi, show 16 - ps.length = 15 - ps.length + 1 by omega,
        cutReach] at hreach
      rw [List.drop_eq_getElem_cons hi, cutPackets]
      by_cases hstray : (bs[i]).toNat < 0x80
      · rw [if_pos hstray, show 15 - ps.length + 1 = 16 - ps.length by omega] at hreach
        obtain ⟨qs, pkt', hqs, hloop, hfinal⟩ := ih (bs.length - (i + 1)) (by omega)
          (show i + 1 + _ < _ by omega) hsize hps hpkt rfl
        refine ⟨qs, pkt', by rw [if_pos hstray, hqs], ?_, hfinal⟩
        rw [packLoop_stray h hi (by omega) hstray, int32_eq (by omega) (by omega),
          Option.bind_some, hloop]
      · have hpos := msgShape_pos (bs[i] >>> 4)
        obtain ⟨mlen, hmlen⟩ := Int.eq_ofNat_of_zero_le hpos.le
        rw [if_neg hstray, hmlen, Int.toNat_natCast, List.drop_drop,
          show i + 1 + (mlen - 1) = i + mlen by omega] at hreach
        obtain ⟨pkt₁, hstore, hsize₁, hslice⟩ := storePacket_spec (i := i) bs[i] h (by omega)
          (show ps.length * 4 + 4 ≤ pkt.size by omega)
        obtain ⟨qs, pkt', hqs, hloop, hfinal⟩ := ih (bs.length - (i + mlen)) (by omega)
          (show i + mlen + cutReach (16 - (ps ++ [outPacket bs[i] (bs.drop (i + 1))]).length)
            (bs.drop (i + mlen)) < 2 ^ 31 by
            rw [List.length_append, List.length_singleton,
              show 16 - (ps.length + 1) = 15 - ps.length by omega]
            omega) (hsize₁.trans hsize)
          (show (ps ++ [outPacket bs[i] (bs.drop (i + 1))]).length ≤ 16 by
            rw [List.length_append, List.length_singleton]; omega)
          (by rw [List.length_append, List.length_singleton, Nat.add_mul, Nat.one_mul, hslice, hpkt,
            List.flatMap_append, List.flatMap_singleton]) rfl
        rw [List.length_append, List.length_singleton] at hqs hloop
        refine ⟨qs, pkt', ?_, ?_, hfinal⟩
        · rw [if_neg hstray, hqs, hmlen, Int.toNat_natCast, List.drop_drop,
            show i + 1 + (mlen - 1) = i + mlen by omega,
            show 16 - ps.length = (16 - (ps.length + 1)) + 1 by omega, List.take_succ_cons,
            List.append_assoc, List.singleton_append]
        · rw [packLoop_message h hi (by omega) hstray, hstore, Option.bind_some, hmlen,
            int32_eq (by omega) (by omega), Option.bind_some]
          exact_mod_cast hloop
    · -- the input is used up
      refine ⟨ps, pkt, by simp [List.drop_eq_nil_of_le (not_lt.mp hi), cutPackets], ?_, hpkt⟩
      rw [packLoop, dif_neg (by omega)]

/-! ## One packet a message -/

namespace Message

/-- A channel-voice message. -/
def IsVoice : Message → Prop
  | .voice3 _ _ _ _ _ _ | .voice2 _ _ _ _ => True
  | .common3 _ _ _ _ | .common2 _ _ _ _ | .common1 _ _ | .realTime _ _ | .sysEx _ _ => False

/-- A channel-voice message or a system message of one byte. -/
def IsShort : Message → Prop
  | .voice3 _ _ _ _ _ _ | .voice2 _ _ _ _ | .common1 _ _ | .realTime _ _ => True
  | .common3 _ _ _ _ | .common2 _ _ _ _ | .sysEx _ _ => False

theorem IsVoice.isShort {m : Message} (h : m.IsVoice) : m.IsShort := by
  cases m <;> first | exact trivial | exact h.elim

theorem IsVoice.two_le {m : Message} (h : m.IsVoice) : 2 ≤ m.bytes.length := by
  cases m with
  | voice3 _ _ _ _ _ _ => simp [bytes]
  | voice2 _ _ _ _ => simp [bytes]
  | _ => exact h.elim

/-- The CIN `send_to_device` chooses. -/
def outCin : Message → BitVec 4
  | .voice3 status _ _ _ _ _ | .voice2 status _ _ _ => BitVec.ofNat 4 (status.toNat / 16)
  | .common3 _ _ _ _ | .common2 _ _ _ _ | .common1 _ _ | .realTime _ _ | .sysEx _ _ => 0xF

/-- The packet `send_to_device` writes. -/
def packet (m : Message) : Packet := .event 0 m.outCin m.bytes

theorem IsShort.outCin_mem {m : Message} (h : m.IsShort) : m.outCin ∈ m.cins := by
  cases m with
  | voice3 _ _ _ _ _ _ => exact List.mem_cons_self
  | voice2 _ _ _ _ => exact List.mem_cons_self
  | common1 _ _ => exact List.mem_cons_of_mem _ List.mem_cons_self
  | realTime _ _ => exact List.mem_cons_of_mem _ List.mem_cons_self
  | _ => exact h.elim

/-- The status nibble as a byte, and as the CIN of a packet on cable 0. -/
theorem nibble (status : Byte) : (status >>> 4).toNat = status.toNat / 16 ∧
    (status >>> 4 : Byte) = (0 : BitVec 4) ++ BitVec.ofNat 4 (status.toNat / 16) := by
  revert status
  decide

/-- The length and the CIN that the switch chooses for the status byte of a message
    are those of the message. -/
theorem IsShort.shape {m : Message} (h : m.IsShort) : ∃ status rest, m.bytes = status :: rest ∧
    0x80 ≤ status.toNat ∧ rest.length ≤ 2 ∧
    msgShape (status >>> 4) =
      (((rest.length + 1 : ℕ) : ℤ), ((0 : BitVec 4) ++ m.outCin : Byte)) := by
  cases m with
  | voice3 status d1 d2 hs h1 h2 =>
    obtain ⟨hn, hc⟩ := nibble status
    refine ⟨status, [d1, d2], rfl, ?_, le_rfl, ?_⟩
    · simp only [List.mem_cons, List.not_mem_nil, or_false] at hs
      omega
    · simp only [outCin, ← hc, msgShape, hn]
      simp only [List.mem_cons, List.not_mem_nil, or_false] at hs
      rcases hs with hs | hs | hs | hs | hs <;> (rw [hs]; rfl)
  | voice2 status d1 hs h1 =>
    obtain ⟨hn, hc⟩ := nibble status
    refine ⟨status, [d1], rfl, ?_, by simp, ?_⟩
    · simp only [List.mem_cons, List.not_mem_nil, or_false] at hs
      omega
    · simp only [outCin, ← hc, msgShape, hn]
      simp only [List.mem_cons, List.not_mem_nil, or_false] at hs
      rcases hs with hs | hs <;> (rw [hs]; rfl)
  | common1 status hs =>
    obtain ⟨hn, _⟩ := nibble status
    simp only [List.mem_cons, List.not_mem_nil, or_false] at hs
    refine ⟨status, [], rfl, by omega, by decide, ?_⟩
    simp only [msgShape, hn, show status.toNat / 16 = 0xF by omega]
    exact Prod.ext rfl (show (0x0F : Byte) = (0 : BitVec 4) ++ (0xF : BitVec 4) by decide)
  | realTime status hs =>
    obtain ⟨hn, _⟩ := nibble status
    have hlt := status.isLt
    refine ⟨status, [], rfl, by omega, by decide, ?_⟩
    simp only [msgShape, hn, show status.toNat / 16 = 0xF by omega]
    exact Prod.ext rfl (show (0x0F : Byte) = (0 : BitVec 4) ++ (0xF : BitVec 4) by decide)
  | _ => exact h.elim

end Message

/-! ## Complete messages -/

/-- The packet of a message begins its bytes. -/
theorem Message.IsShort.outPacket_eq {m : Message} (h : m.IsShort) (more : List Byte) :
    ∃ status rest, m.bytes = status :: rest ∧ 0x80 ≤ status.toNat ∧
      outPacket status (rest ++ more) = m.packet ∧
      (msgShape (status >>> 4)).1.toNat - 1 = rest.length := by
  obtain ⟨status, rest, hm, hst, hrest, hshape⟩ := h.shape
  refine ⟨status, rest, hm, hst, ?_, ?_⟩
  · rw [outPacket, hshape, packet, Packet.event, hm]
    rcases rest with _ | ⟨a, _ | ⟨b, _ | ⟨c, rest⟩⟩⟩
    · rfl
    · rfl
    · rfl
    · simp only [List.length_cons] at hrest
      omega
  · rw [hshape, Int.toNat_natCast, Nat.add_sub_cancel]

/-- Complete messages are cut into one packet each. -/
theorem cutPackets_flatMap {ms : List Message} (hms : ∀ m ∈ ms, m.IsShort) :
    cutPackets (ms.flatMap Message.bytes) = ms.map Message.packet := by
  induction ms with
  | nil => rw [List.flatMap_nil, cutPackets, List.map_nil]
  | cons m ms ih =>
    obtain ⟨status, rest, hm, hst, hpacket, hskip⟩ :=
      (hms m List.mem_cons_self).outPacket_eq (ms.flatMap Message.bytes)
    rw [List.flatMap_cons, hm, List.cons_append, cutPackets, if_neg (by omega), hpacket, hskip,
      List.drop_left, ih fun m' hm' => hms m' (List.mem_cons_of_mem m hm'), List.map_cons]

/-- It takes at most three bytes for each. -/
theorem cutReach_flatMap {ms : List Message} (hms : ∀ m ∈ ms, m.IsShort) (n : ℕ) :
    cutReach n (ms.flatMap Message.bytes) ≤ 3 * n := by
  induction ms generalizing n with
  | nil => cases n <;> simp [cutReach]
  | cons m ms ih =>
    cases n with
    | zero => simp [cutReach]
    | succ n =>
      obtain ⟨status, rest, hm, hst, hrest, hshape⟩ := (hms m List.mem_cons_self).shape
      have htail := ih (fun m' hm' => hms m' (List.mem_cons_of_mem m hm')) n
      rw [List.flatMap_cons, hm, List.cons_append, cutReach, if_neg (by omega), hshape,
        Int.toNat_natCast, Nat.add_sub_cancel, List.drop_left]
      omega

/-- `send_to_device` writes the first 16 packets, if there are any. -/
theorem sendToDevice_written {bs : List Byte} (hreach : cutReach 16 bs < 2 ^ 31)
    {pkt : Region Byte} (hpkt : pkt.size = 64) :
    sendToDevice (Region.ofList bs 0) bs.length pkt =
      some (if (cutPackets bs).take 16 = [] then none
        else some (((cutPackets bs).take 16).flatMap Packet.bytes)) := by
  obtain ⟨qs, pkt', hqs, hloop, hslice⟩ := packLoop_spec (bytesAt_ofList bs)
    (show 0 + cutReach (16 - ([] : List Packet).length) (bs.drop 0) < 2 ^ 31 by simpa using hreach)
    hpkt (Nat.zero_le 16) rfl
  rw [List.nil_append, List.length_nil, Nat.sub_zero, List.drop_zero] at hqs
  rw [List.length_nil, Nat.zero_mul, Nat.cast_zero] at hloop
  simp only [sendToDevice, Option.bind_eq_bind, hloop, Option.bind_some, Option.pure_def]
  rw [← hqs, ← hslice]
  by_cases hnil : qs = []
  · rw [if_pos hnil, if_neg (by simp [hnil])]
  · have hpos := List.length_pos_iff.mpr hnil
    rw [if_neg hnil, if_pos (by omega)]

theorem sendToDevice_eq {bs : List Byte} (hreach : cutReach 16 bs < 2 ^ 31) {pkt : Region Byte}
    (hpkt : pkt.size = 64) :
    ∃ w, sendToDevice (Region.ofList bs 0) bs.length pkt = some w ∧
      w.getD [] = ((cutPackets bs).take 16).flatMap Packet.bytes := by
  refine ⟨_, sendToDevice_written hreach hpkt, ?_⟩
  split_ifs with hnil
  · rw [hnil]
    rfl
  · rfl

/-! ## What comes back -/

/-- The calls of `emit_midi` that `midi_cb` makes on what `send_to_device` wrote. -/
def decodeWritten (w : Option (List Byte)) : Option (List (List Byte)) :=
  (DjmMidi.midiCb ⟨0, true, false, []⟩ (bulkOf (w.getD []))).map fun r => r.1.emitted

/-- The switch chooses a CIN that carries as many bytes as it has chosen. -/
theorem msgShape_cin : ∀ status : Byte, 0x80 ≤ status.toNat →
    2 ≤ ((msgShape (status >>> 4)).2 &&& 0x0f).toNat ∧
    cinLen ((msgShape (status >>> 4)).2 &&& 0x0f).toNat = (msgShape (status >>> 4)).1 := by
  decide

theorem mem_cutPackets {bs : List Byte} {p : Packet} (hp : p ∈ cutPackets bs) :
    ∃ status rest, 0x80 ≤ status.toNat ∧ p = outPacket status rest := by
  induction bs using cutPackets.induct with
  | case1 => simp [cutPackets] at hp
  | case2 b bs hb ih =>
    rw [cutPackets, if_pos hb] at hp
    exact ih hp
  | case3 b bs hb ih =>
    rw [cutPackets, if_neg hb, List.mem_cons] at hp
    rcases hp with rfl | hp
    · exact ⟨b, bs, by omega, rfl⟩
    · exact ih hp

/-- `midi_cb` hands on what each packet carries. -/
theorem sendToDevice_decode {bs : List Byte} (hreach : cutReach 16 bs < 2 ^ 31) {pkt : Region Byte}
    (hpkt : pkt.size = 64) :
    (sendToDevice (Region.ofList bs 0) bs.length pkt).bind decodeWritten =
      some (((cutPackets bs).take 16).map Packet.payload) := by
  obtain ⟨w, hw, hbytes⟩ := sendToDevice_eq hreach hpkt
  have hall : ((cutPackets bs).take 16).filter (Packet.Carries ·) = (cutPackets bs).take 16 := by
    rw [List.filter_eq_self]
    intro p hp
    obtain ⟨status, rest, hst, rfl⟩ := mem_cutPackets (List.mem_of_mem_take hp)
    rw [decide_eq_true_eq]
    exact (msgShape_cin status hst).1
  rw [hw, Option.bind_some, decodeWritten, DjmMidi.midiCb, hbytes,
    midiCb_spec _ rfl (bulkOf_holds _), Option.map_some, foldl_deliver, hall]
  rfl

/-! ## The round trip -/

/-- Messages of at least two bytes each. -/
theorem length_flatMap_ge {ms : List Message} (h : ∀ m ∈ ms, 2 ≤ m.bytes.length) :
    ms.length * 2 ≤ (ms.flatMap Message.bytes).length := by
  induction ms with
  | nil => exact le_rfl
  | cons m ms ih =>
    have hm := h m List.mem_cons_self
    have htail := ih fun m' hm' => h m' (List.mem_cons_of_mem m hm')
    rw [List.length_cons, List.flatMap_cons, List.length_append]
    omega

/-- What the packet of a message carries is the message. -/
theorem Message.IsShort.payload {m : Message} (h : m.IsShort) : m.packet.payload = m.bytes :=
  Packet.payload_event (Message.length_bytes_of_mem_cins h.outCin_mem).1

/-- **Round trip.** For every list of complete channel-voice messages and one-byte
    system messages, decoding what `send_to_device` writes with `midi_cb` gives the
    first 16 of them, byte for byte and in order; channel-voice messages that fit the
    buffer of `drain_seq_input` all come back. -/
theorem outbound_round_trip {ms : List Message} (hms : ∀ m ∈ ms, m.IsShort) {pkt : Region Byte}
    (hpkt : pkt.size = 64) {bs : List Byte} (hbs : bs = ms.flatMap Message.bytes) :
    (sendToDevice (Region.ofList bs 0) bs.length pkt).bind decodeWritten =
      some ((ms.take 16).map Message.bytes) ∧
    ((∀ m ∈ ms, m.IsVoice) → bs.length ≤ seqBufSize →
      (sendToDevice (Region.ofList bs 0) bs.length pkt).bind decodeWritten =
        some (ms.map Message.bytes)) := by
  have hfirst : (sendToDevice (Region.ofList bs 0) bs.length pkt).bind decodeWritten =
      some ((ms.take 16).map Message.bytes) := by
    have hreach := cutReach_flatMap hms 16
    rw [hbs, sendToDevice_decode (by omega) hpkt, cutPackets_flatMap hms, ← List.map_take,
      List.map_map]
    congr 1
    apply List.map_congr_left
    intro m hm
    exact (hms m (List.mem_of_mem_take hm)).payload
  refine ⟨hfirst, ?_⟩
  intro hvoice hlen
  have hcount : ms.length * 2 ≤ bs.length := by
    rw [hbs]
    exact length_flatMap_ge fun m hm => (hvoice m hm).two_le
  simp only [seqBufSize] at hlen
  rw [hfirst, List.take_of_length_le (by omega)]

/-- A note, a clock tick and a program change; the note and the program change. -/
theorem outbound_round_trip_mixed :
    (sendToDevice (Region.ofList [0x90, 60, 127, 0xF8, 0xC1, 5] 0) 6
      (Region.fill 64 0xAA)).bind decodeWritten = some [[0x90, 60, 127], [0xF8], [0xC1, 5]] ∧
    (sendToDevice (Region.ofList [0x90, 60, 127, 0xC1, 5] 0) 5
      (Region.fill 64 0xAA)).bind decodeWritten = some [[0x90, 60, 127], [0xC1, 5]] := by
  let note : Message := .voice3 0x90 60 127 (by decide) (by decide) (by decide)
  let clock : Message := .realTime 0xF8 (by decide)
  let program : Message := .voice2 0xC1 5 (by decide) (by decide)
  have hmixed : ∀ m ∈ [note, clock, program], m.IsShort := by
    simp [note, clock, program, Message.IsShort]
  have hvoice : ∀ m ∈ [note, program], m.IsVoice := by simp [note, program, Message.IsVoice]
  have hpkt : (Region.fill 64 0xAA : Region Byte).size = 64 := rfl
  constructor
  · exact (outbound_round_trip hmixed hpkt rfl).1
  · exact (outbound_round_trip (fun m hm => (hvoice m hm).isShort) hpkt rfl).2 hvoice (by decide)

end DjmT1.Midi
