import DjmT1.Midi.SystemOut

/-!
# Any bytes to the mixer

`send_to_device` is given bytes that need not be messages: stray data bytes, messages cut
short, status bytes where data is expected. `msgStarts` are the indices at which it starts a
packet.

* `cutPackets_eq`: the packets are those of the bytes at these indices.
* `cutReach_lt_iff`: the index of the loop stays an `int` if it does for each packet.
* `packLoop_overflows`: else the loop is undefined.
* `malformed_out`: for all bytes, `send_to_device` is defined and writes well-formed packets
  exactly if none of the first 16 of them reaches past the largest `int`.
-/

namespace DjmT1.Midi

open DjmT1.Lib

/-- `mlen` for a status byte. -/
def msgLen (status : Byte) : ℕ := (msgShape (status >>> 4)).1.toNat

theorem msgShape_eq_msgLen (status : Byte) : (msgShape (status >>> 4)).1 = (msgLen status : ℤ) :=
  (Int.toNat_of_nonneg (msgShape_pos _).le).symm

theorem msgLen_pos (status : Byte) : 0 < msgLen status := by
  have hpos := msgShape_pos (status >>> 4)
  rw [msgShape_eq_msgLen] at hpos
  omega

/-- The indices at which a packet starts, from index `i` on. -/
def msgStarts : ℕ → List Byte → List ℕ
  | _, [] => []
  | i, b :: bs =>
    if b.toNat < 0x80 then msgStarts (i + 1) bs
    else i :: msgStarts (i + msgLen b) (bs.drop (msgLen b - 1))
termination_by _ bs => bs.length
decreasing_by
  · exact Nat.lt_succ_self _
  · rw [List.length_drop]
    exact Nat.lt_succ_of_le (Nat.sub_le _ _)

/-- The packet that starts at index `i`. -/
def packetOf (bs : List Byte) (i : ℕ) : Packet := outPacket (bs.getD i 0) (bs.drop (i + 1))

/-! ## The packets and where they start -/

/-- The bytes from a status byte at index `i` on. -/
theorem drop_msgLen {bs : List Byte} {i : ℕ} (status : Byte) :
    (bs.drop (i + 1)).drop (msgLen status - 1) = bs.drop (i + msgLen status) := by
  have hpos := msgLen_pos status
  rw [List.drop_drop, show i + 1 + (msgLen status - 1) = i + msgLen status by omega]

theorem cutPackets_eq (bs : List Byte) (i : ℕ) :
    cutPackets (bs.drop i) = (msgStarts i (bs.drop i)).map (packetOf bs) := by
  induction hm : bs.length - i using Nat.strong_induction_on generalizing i with
  | _ m ih =>
    by_cases hi : i < bs.length
    · have hpos := msgLen_pos bs[i]
      rw [List.drop_eq_getElem_cons hi, cutPackets, msgStarts]
      by_cases hstray : (bs[i]).toNat < 0x80
      · rw [if_pos hstray, if_pos hstray, ih (bs.length - (i + 1)) (by omega) (i + 1) rfl]
      · rw [if_neg hstray, if_neg hstray, ← msgLen, drop_msgLen,
          ih (bs.length - (i + msgLen bs[i])) (by omega) (i + msgLen bs[i]) rfl, List.map_cons,
          packetOf, List.getD_eq_getElem bs 0 hi]
    · rw [List.drop_eq_nil_of_le (not_lt.mp hi), cutPackets, msgStarts, List.map_nil]

/-- A packet starts at a status byte. -/
theorem mem_msgStarts {bs : List Byte} {i k : ℕ} (h : k ∈ msgStarts i (bs.drop i)) :
    ∃ hk : k < bs.length, IsStatus bs[k] := by
  induction hm : bs.length - i using Nat.strong_induction_on generalizing i with
  | _ m ih =>
    by_cases hi : i < bs.length
    · have hpos := msgLen_pos bs[i]
      rw [List.drop_eq_getElem_cons hi, msgStarts] at h
      by_cases hstray : (bs[i]).toNat < 0x80
      · rw [if_pos hstray] at h
        exact ih (bs.length - (i + 1)) (by omega) h rfl
      · rw [if_neg hstray, drop_msgLen, List.mem_cons] at h
        rcases h with rfl | h
        · exact ⟨hi, not_lt.mp hstray⟩
        · exact ih (bs.length - (i + msgLen bs[i])) (by omega) h rfl
    · rw [List.drop_eq_nil_of_le (not_lt.mp hi), msgStarts] at h
      exact absurd h List.not_mem_nil

/-- No packet starts exactly if there is no status byte. -/
theorem msgStarts_eq_nil_iff (i : ℕ) (bs : List Byte) :
    msgStarts i bs = [] ↔ ∀ b ∈ bs, b.toNat < 0x80 := by
  induction i, bs using msgStarts.induct with
  | case1 i => simp [msgStarts]
  | case2 i b bs hb ih => rw [msgStarts, if_pos hb, ih, List.forall_mem_cons, and_iff_right hb]
  | case3 i b bs hb ih =>
    rw [msgStarts, if_neg hb, List.forall_mem_cons]
    exact iff_of_false (List.cons_ne_nil _ _) fun h => hb h.1

/-- Stray bytes before the first packet. -/
theorem msgStarts_stray {strays : List Byte} (h : ∀ b ∈ strays, b.toNat < 0x80) (i : ℕ)
    (bs : List Byte) : msgStarts i (strays ++ bs) = msgStarts (i + strays.length) bs := by
  induction strays generalizing i with
  | nil => rfl
  | cons b strays ih =>
    rw [List.cons_append, msgStarts, if_pos (h b List.mem_cons_self),
      ih (fun c hc => h c (List.mem_cons_of_mem b hc)), List.length_cons]
    congr 1
    omega

/-! ## The index of the loop -/

/-- The packet at index `k` ends where an `int` can go. -/
def EndsInRange (bs : List Byte) (k : ℕ) : Prop := k + msgLen (bs.getD k 0) < 2 ^ 31

/-- The index of the loop stays in range if it does for each packet; stray bytes are inside
    the input. -/
theorem cutReach_lt_iff {bs : List Byte} (hlen : bs.length < 2 ^ 31) {i : ℕ} (hi : i < 2 ^ 31)
    (n : ℕ) : i + cutReach n (bs.drop i) < 2 ^ 31 ↔
      ∀ k ∈ (msgStarts i (bs.drop i)).take n, EndsInRange bs k := by
  induction hm : bs.length - i using Nat.strong_induction_on generalizing i n with
  | _ m ih =>
    cases n with
    | zero => simpa [cutReach] using hi
    | succ n =>
      by_cases hin : i < bs.length
      · have hpos := msgLen_pos bs[i]
        rw [List.drop_eq_getElem_cons hin, cutReach, msgStarts]
        by_cases hstray : (bs[i]).toNat < 0x80
        · rw [if_pos hstray, if_pos hstray, ← Nat.add_assoc]
          exact ih (bs.length - (i + 1)) (by omega) (by omega) (n + 1) rfl
        · rw [if_neg hstray, if_neg hstray, ← msgLen, drop_msgLen, List.take_succ_cons,
            List.forall_mem_cons, EndsInRange, List.getD_eq_getElem bs 0 hin, ← Nat.add_assoc]
          by_cases hend : i + msgLen bs[i] < 2 ^ 31
          · rw [ih (bs.length - (i + msgLen bs[i])) (by omega) hend n rfl, and_iff_right hend]
          · exact iff_of_false (by omega) fun h => hend h.1
      · simpa [List.drop_eq_nil_of_le (not_lt.mp hin), cutReach, msgStarts] using hi

/-- If the index leaves its range, the loop is undefined. -/
theorem packLoop_overflows {midi : Region Byte} {bs : List Byte}
    (h : BytesAt midi bs.length 0 bs) {i n : ℕ} {pkt : Region Byte} (hi : i < 2 ^ 31)
    (hreach : 2 ^ 31 ≤ i + cutReach (16 - n) (bs.drop i)) (hsize : pkt.size = 64) :
    packLoop midi bs.length i (n * 4) pkt = none := by
  induction hm : bs.length - i using Nat.strong_induction_on generalizing i n pkt with
  | _ m ih =>
    by_cases hin : i < bs.length
    · by_cases hfull : n < 16
      · have hpos := msgLen_pos bs[i]
        rw [List.drop_eq_getElem_cons hin, show 16 - n = 15 - n + 1 by omega, cutReach] at hreach
        by_cases hstray : (bs[i]).toNat < 0x80
        · rw [if_pos hstray, show 15 - n + 1 = 16 - n by omega] at hreach
          rw [packLoop_stray h hin hfull hstray]
          by_cases hend : i + 1 < 2 ^ 31
          · rw [int32_eq (by omega) (by omega), Option.bind_some]
            exact ih (bs.length - (i + 1)) (by omega) hend (n := n) (by omega) hsize rfl
          · rw [int32, if_neg (by omega), Option.bind_none]
        · rw [if_neg hstray, ← msgLen, drop_msgLen] at hreach
          rw [packLoop_message h hin hfull hstray, msgShape_eq_msgLen]
          by_cases hend : i + msgLen bs[i] < 2 ^ 31
          · obtain ⟨pkt', hstore, hsize', _⟩ := storePacket_spec (i := i) (n := n * 4) bs[i] h
              (by rw [msgShape_eq_msgLen]; omega) (show n * 4 + 4 ≤ pkt.size by omega)
            have hrest := ih (bs.length - (i + msgLen bs[i])) (by omega) hend (n := n + 1)
              (by rw [show 16 - (n + 1) = 15 - n by omega]; omega) (hsize'.trans hsize) rfl
            rw [hstore, Option.bind_some, int32_eq (by omega) (by omega), Option.bind_some]
            exact_mod_cast hrest
          · have hover : int32 (i + (msgLen bs[i] : ℤ)) = none := if_neg (by omega)
            rw [hover]
            cases storePacket midi bs.length i bs[i] (n * 4) pkt <;> rfl
      · rw [show 16 - n = 0 by omega, cutReach] at hreach
        omega
    · rw [List.drop_eq_nil_of_le (not_lt.mp hin), cutReach_nil] at hreach
      omega

/-! ## What is written -/

/-- The bytes of a message of `n` bytes at index `i`, with zeros after the end of the
    input. -/
def bytesFrom (bs : List Byte) (i n : ℕ) : List Byte :=
  (List.range n).map fun k => bs.getD (i + k) 0

/-- The CIN for a status byte: its high nibble from 8 to 14, and 15 for 15. -/
def cinOf (status : Byte) : Byte := if status.toNat < 0xF0 then status >>> 4 else 0x0F

/-- The packet has the status byte at index `i`, the CIN for it, and carries the bytes of
    its message. -/
structure WellFormed (bs : List Byte) (i : ℕ) (p : Packet) : Prop where
  status : i < bs.length ∧ IsStatus p.b1 ∧ p.b1 = bs.getD i 0
  header : p.header = cinOf p.b1
  payload : p.payload = bytesFrom bs i (msgLen p.b1)

theorem msgShape_header : ∀ status : Byte, IsStatus status →
    (msgShape (status >>> 4)).2 = cinOf status := by decide

/-- For the packets of all bytes. -/
theorem packetOf_wellFormed {bs : List Byte} {i : ℕ} (hi : i < bs.length)
    (hst : IsStatus bs[i]) : WellFormed bs i (packetOf bs i) := by
  have hget : bs.getD i 0 = bs[i] := List.getD_eq_getElem bs 0 hi
  have hb1 : (packetOf bs i).b1 = bs[i] := hget
  have hheader : (packetOf bs i).header = (msgShape (bs[i] >>> 4)).2 := by
    rw [packetOf, outPacket, hget]
  refine ⟨⟨hi, hb1 ▸ hst, by rw [hb1, hget]⟩, ?_, ?_⟩
  · rw [hheader, hb1, msgShape_header _ hst]
  · obtain ⟨_, hcin⟩ := msgShape_cin bs[i] hst
    have hlen : (cinLen (packetOf bs i).cin).toNat = msgLen bs[i] := by
      rw [Packet.cin, hheader, hcin, msgLen]
    have hdata (k : ℕ) : (bs.drop (i + 1)).getD k 0 = bs.getD (i + (k + 1)) 0 := by
      rw [List.getD_eq_getElem?_getD, List.getD_eq_getElem?_getD, List.getElem?_drop]
      congr 2
      omega
    have hle : msgLen bs[i] ≤ 3 := by
      rw [← hlen]
      have := (cinLen_range _ (packetOf bs i).cin_lt).1
      omega
    have hpos := msgLen_pos bs[i]
    have hb2 : (packetOf bs i).b2 = if (msgLen bs[i] : ℤ) > 1 then bs.getD (i + 1) 0 else 0 := by
      rw [packetOf, outPacket, hget, ← msgShape_eq_msgLen, hdata 0]
    have hb3 : (packetOf bs i).b3 = if (msgLen bs[i] : ℤ) > 2 then bs.getD (i + 2) 0 else 0 := by
      rw [packetOf, outPacket, hget, ← msgShape_eq_msgLen, hdata 1]
    rw [Packet.payload, hlen, hb1, hb2, hb3, bytesFrom]
    obtain h | h | h : msgLen bs[i] = 1 ∨ msgLen bs[i] = 2 ∨ msgLen bs[i] = 3 := by omega
    · simp [h, hi]
    · simp [h, List.range_succ, hi]
    · simp [h, List.range_succ, hi]

/-- What `send_to_device` writes: whole packets, at most 64 bytes, one for each of the first
    16 messages, well formed and decoded by `midi_cb` to the bytes of the message; nothing
    if there is no status byte. -/
structure Packed (bs : List Byte) (w : Option (List Byte)) : Prop where
  whole : ∀ l ∈ w, 4 ∣ l.length ∧ l.length ≤ 64
  packets : w.getD [] = ((msgStarts 0 bs).take 16).flatMap fun i => (packetOf bs i).bytes
  wellFormed : ∀ i ∈ (msgStarts 0 bs).take 16, WellFormed bs i (packetOf bs i)
  decoded : decodeWritten w =
    some (((msgStarts 0 bs).take 16).map fun i => bytesFrom bs i (msgLen (bs.getD i 0)))
  nothing : w = none ↔ ∀ b ∈ bs, b.toNat < 0x80

/-- The call is defined: no read outside the `len` bytes, no write outside the buffer, no
    overflow, and the loop ends. -/
def SendsPacked (bs : List Byte) (pkt : Region Byte) : Prop :=
  ∃ w, sendToDevice (Region.ofList bs 0) bs.length pkt = some w ∧ Packed bs w

theorem sendToDevice_packed {bs : List Byte} (hreach : cutReach 16 bs < 2 ^ 31)
    {pkt : Region Byte} (hpkt : pkt.size = 64) : SendsPacked bs pkt := by
  have hcut : cutPackets bs = (msgStarts 0 bs).map (packetOf bs) := cutPackets_eq bs 0
  have hwf : ∀ i ∈ (msgStarts 0 bs).take 16, WellFormed bs i (packetOf bs i) := by
    intro i hi
    obtain ⟨hlt, hst⟩ := mem_msgStarts (i := 0) (List.mem_of_mem_take hi)
    exact packetOf_wellFormed hlt hst
  have hwrite := sendToDevice_written hreach hpkt
  have hdecode := sendToDevice_decode hreach hpkt
  rw [hwrite, Option.bind_some, hcut, ← List.map_take, List.map_map] at hdecode
  refine ⟨_, hwrite, ?_, ?_, hwf, ?_, ?_⟩
  · intro l hl
    split_ifs at hl with hnil
    · exact absurd hl (Option.not_mem_none l)
    · obtain rfl := Option.some.inj hl
      have hle := List.length_take_le 16 (cutPackets bs)
      rw [length_flatMap_bytes]
      omega
  · rw [hcut, ← List.map_take]
    split_ifs with hnil
    · rw [List.map_eq_nil_iff.mp hnil]
      rfl
    · rw [Option.getD_some, List.flatMap_map]
  · rw [hcut, ← List.map_take, hdecode]
    refine congrArg some (List.map_congr_left fun i hi => ?_)
    have hi' := hwf i hi
    rw [Function.comp_apply, hi'.payload, hi'.status.2.2]
  · rw [← msgStarts_eq_nil_iff 0 bs, hcut]
    simp

/-! ## Any bytes -/

/-- Zeros, and a status byte without its data. -/
def cutShort (n : ℕ) : List Byte := List.replicate n 0 ++ [0x90]

theorem msgStarts_cutShort (n : ℕ) : msgStarts 0 (cutShort n) = [n] := by
  have hstray : ∀ b ∈ List.replicate n (0 : Byte), b.toNat < 0x80 := by
    intro b hb
    rw [List.eq_of_mem_replicate hb]
    decide
  have hone : msgStarts n [0x90] = [n] := by
    rw [msgStarts, if_neg (by decide), List.drop_nil, msgStarts]
  rw [cutShort, msgStarts_stray hstray, List.length_replicate, Nat.zero_add, hone]

theorem sendToDevice_overflows {bs : List Byte} (hreach : 2 ^ 31 ≤ cutReach 16 bs)
    {pkt : Region Byte} (hpkt : pkt.size = 64) :
    sendToDevice (Region.ofList bs 0) bs.length pkt = none := by
  have hloop := packLoop_overflows (bytesAt_ofList bs) (i := 0) (n := 0) (by norm_num)
    (by simpa using hreach) hpkt
  rw [Nat.zero_mul, Nat.cast_zero] at hloop
  rw [sendToDevice, hloop]
  rfl

/-- The packets of an input of at most `INT_MAX - 2` bytes end in range. -/
theorem endsInRange_of_length {bs : List Byte} (h : bs.length + 2 < 2 ^ 31) :
    ∀ i ∈ (msgStarts 0 bs).take 16, EndsInRange bs i := by
  have hreach := cutReach_le 16 bs
  exact (cutReach_lt_iff (i := 0) (by omega) (by norm_num) 16).mp
    (by rw [List.drop_zero]; omega)

theorem length_cutShort (n : ℕ) : (cutShort n).length = n + 1 := by simp [cutShort]

/-- `INT_MAX` bytes, the last of which is the status byte of a message of three: `i + 2`
    overflows. -/
theorem out_overflows : (cutShort (2 ^ 31 - 2)).length = 2 ^ 31 - 1 ∧
    ¬ SendsPacked (cutShort (2 ^ 31 - 2)) (Region.fill 64 0) := by
  have hlen := length_cutShort (2 ^ 31 - 2)
  have hlast : (cutShort (2 ^ 31 - 2)).getD (2 ^ 31 - 2) 0 = 0x90 := by
    rw [cutShort, List.getD_append_right _ _ _ _ (by rw [List.length_replicate]),
      List.length_replicate, Nat.sub_self]
    rfl
  have hrange : ¬ EndsInRange (cutShort (2 ^ 31 - 2)) (2 ^ 31 - 2) := by
    have h90 : msgLen 0x90 = 3 := by decide
    rw [EndsInRange, hlast, h90]
    omega
  have hreach : ¬ 0 + cutReach 16 ((cutShort (2 ^ 31 - 2)).drop 0) < 2 ^ 31 := by
    rw [cutReach_lt_iff (by omega) (by norm_num), List.drop_zero, msgStarts_cutShort]
    exact fun h => hrange (h _ List.mem_cons_self)
  refine ⟨by omega, fun h => ?_⟩
  obtain ⟨w, hw, _⟩ := h
  rw [sendToDevice_overflows (by rw [List.drop_zero] at hreach; omega) rfl] at hw
  exact Option.some_ne_none w hw.symm

/-- **Any bytes.** For every string of at most `INT_MAX` bytes, `send_to_device` is defined
    and writes what it should exactly if each of the first 16 messages ends where an `int`
    can go, as they all do in a string of at most `INT_MAX - 2` bytes. -/
theorem malformed_out {bs : List Byte} (hlen : bs.length < 2 ^ 31) {pkt : Region Byte}
    (hpkt : pkt.size = 64) :
    (SendsPacked bs pkt ↔ ∀ i ∈ (msgStarts 0 bs).take 16, EndsInRange bs i) ∧
    (bs.length + 2 < 2 ^ 31 → SendsPacked bs pkt) := by
  have hreach := cutReach_lt_iff hlen (i := 0) (by norm_num) 16
  rw [Nat.zero_add, List.drop_zero] at hreach
  have hiff : SendsPacked bs pkt ↔ ∀ i ∈ (msgStarts 0 bs).take 16, EndsInRange bs i := by
    rw [← hreach]
    constructor
    · rintro ⟨w, hw, _⟩
      by_contra hover
      rw [sendToDevice_overflows (not_lt.mp hover) hpkt] at hw
      exact Option.some_ne_none w hw.symm
    · exact fun h => sendToDevice_packed h hpkt
  exact ⟨hiff, fun hshort => hiff.mpr (endsInRange_of_length hshort)⟩

/-- A stray byte, a note whose second data byte is a status byte, and a program change
    without its data. -/
theorem malformed_out_mixed :
    SendsPacked [60, 0x90, 61, 0x80, 0xC1] (Region.fill 64 0) :=
  (malformed_out (by decide) rfl).2 (by decide)

end DjmT1.Midi
