import DjmT1.Midi.Outbound

/-!
# System messages to the mixer

`send_to_device` takes every status byte from 0xF0 on for a message of one byte, and
skips the data bytes after it as strays. `midi_cb` knows the system messages with data
(CIN 2 and 3) and system exclusive ones (CIN 4 to 7).

* `system_out_loses_data`: messages that arrive without their data.
* `system_out`: what arrives of a system message are its status bytes, one a packet; so
  it arrives whole exactly if it has no data bytes.
-/

namespace DjmT1.Midi

open DjmT1.Lib

/-- A status byte. -/
def IsStatus (b : Byte) : Prop := 0x80 ≤ b.toNat

instance (b : Byte) : Decidable (IsStatus b) := inferInstanceAs (Decidable (_ ≤ _))

namespace Message

/-- A system-common message with data, or a system exclusive one. -/
def IsLong : Message → Prop
  | .common3 _ _ _ _ | .common2 _ _ _ _ | .sysEx _ _ => True
  | .voice3 _ _ _ _ _ _ | .voice2 _ _ _ _ | .common1 _ _ | .realTime _ _ => False

/-- The data bytes of a message. -/
def data : Message → List Byte
  | .voice3 _ d1 d2 _ _ _ | .common3 d1 d2 _ _ => [d1, d2]
  | .voice2 _ d1 _ _ | .common2 _ d1 _ _ => [d1]
  | .common1 _ _ | .realTime _ _ => []
  | .sysEx data _ => data

/-- The bytes of a system message are system status bytes and data bytes. -/
theorem IsLong.status {m : Message} (h : m.IsLong) :
    ∀ b ∈ m.bytes, IsStatus b → 0xF0 ≤ b.toNat := by
  intro b hb hst
  unfold IsStatus at hst
  cases m with
  | common3 d1 d2 h1 h2 =>
    simp only [bytes, List.mem_cons, List.not_mem_nil, or_false] at hb
    rcases hb with rfl | rfl | rfl
    · decide
    · omega
    · omega
  | common2 status d1 hs h1 =>
    simp only [bytes, List.mem_cons, List.not_mem_nil, or_false] at hb hs
    rcases hb with rfl | rfl <;> omega
  | sysEx data hd =>
    simp only [bytes, List.mem_cons, List.mem_append, List.not_mem_nil, or_false] at hb
    rcases hb with rfl | hb | rfl
    · decide
    · have := hd b hb
      omega
    · decide
  | _ => exact h.elim

/-- A system message without data has only status bytes. -/
theorem IsLong.all_status_iff {m : Message} (h : m.IsLong) :
    (∀ b ∈ m.bytes, IsStatus b) ↔ m.data = [] := by
  unfold IsStatus
  cases m with
  | common3 d1 d2 h1 h2 =>
    refine iff_of_false (fun hall => ?_) (List.cons_ne_nil _ _)
    have := hall d1 (by simp [bytes])
    omega
  | common2 status d1 hs h1 =>
    refine iff_of_false (fun hall => ?_) (List.cons_ne_nil _ _)
    have := hall d1 (by simp [bytes])
    omega
  | sysEx data hd =>
    rcases data with _ | ⟨d, data⟩
    · refine iff_of_true (fun b hb => ?_) rfl
      simp only [bytes, List.nil_append, List.mem_cons, List.not_mem_nil, or_false] at hb
      rcases hb with rfl | rfl <;> decide
    · refine iff_of_false (fun hall => ?_) (List.cons_ne_nil _ _)
      have := hall d (by simp [bytes])
      have := hd d List.mem_cons_self
      omega
  | _ => exact h.elim

/-- A system message has at most three status bytes. -/
theorem IsLong.length_filter {m : Message} (h : m.IsLong) :
    (m.bytes.filter (IsStatus ·)).length ≤ 3 := by
  cases m with
  | common3 d1 d2 h1 h2 => exact List.length_filter_le _ _
  | common2 status d1 hs h1 => exact (List.length_filter_le _ _).trans (by simp [bytes])
  | sysEx data hd =>
    have hnone : data.filter (IsStatus ·) = [] := by
      rw [List.filter_eq_nil_iff]
      intro b hb
      rw [decide_eq_true_eq]
      exact not_le.mpr (hd b hb)
    rw [bytes, List.filter_cons, List.filter_append, hnone]
    decide
  | _ => exact h.elim

end Message

/-! ## What is sent -/

theorem cutReach_nil (n : ℕ) : cutReach n [] = 0 := by
  cases n <;> rw [cutReach]

/-- The loop goes at most two bytes past the end of the input. -/
theorem cutReach_le (n : ℕ) (bs : List Byte) : cutReach n bs ≤ bs.length + 2 := by
  induction n, bs using cutReach.induct with
  | case1 bs => simp [cutReach]
  | case2 n => simp [cutReach]
  | case3 n b bs hb ih =>
    rw [cutReach, if_pos hb, List.length_cons]
    omega
  | case4 n b bs hb ih =>
    have hle : (msgShape (b >>> 4)).1 ≤ 3 := by
      unfold msgShape
      split <;> norm_num
    rw [cutReach, if_neg hb, List.length_cons]
    rw [List.length_drop] at ih
    by_cases hend : bs.length < (msgShape (b >>> 4)).1.toNat - 1
    · rw [List.drop_eq_nil_of_le hend.le, cutReach_nil]
      omega
    · omega

/-- The switch takes a system status byte for a message of one byte. -/
theorem msgShape_system : ∀ b : Byte, 0xF0 ≤ b.toNat → msgShape (b >>> 4) = (1, 0x0F) := by
  decide

theorem outPacket_system {b : Byte} (hb : 0xF0 ≤ b.toNat) (rest : List Byte) :
    (outPacket b rest).payload = [b] := by
  have hone : ∀ p : Packet, p.header = 0x0F → p.payload = [p.b1] := by
    intro p hp
    rw [Packet.payload, Packet.cin, hp]
    rfl
  rw [outPacket, msgShape_system b hb, hone _ rfl]

/-- Of system messages the packets carry the status bytes. -/
theorem cutPackets_system {bs : List Byte} (h : ∀ b ∈ bs, IsStatus b → 0xF0 ≤ b.toNat) :
    (cutPackets bs).map Packet.payload = (bs.filter (IsStatus ·)).map fun b => [b] := by
  induction bs with
  | nil => simp [cutPackets]
  | cons b bs ih =>
    have htail := ih fun b' hb' => h b' (List.mem_cons_of_mem b hb')
    rw [cutPackets]
    by_cases hb : b.toNat < 0x80
    · rw [if_pos hb, htail, List.filter_cons, if_neg]
      exact fun hst => absurd (of_decide_eq_true hst) (not_le.mpr hb)
    · have hst : IsStatus b := not_lt.mp hb
      have hsys := h b List.mem_cons_self hst
      rw [if_neg hb, List.map_cons, outPacket_system hsys, msgShape_system b hsys,
        List.filter_cons, if_pos (by simpa using hst), List.map_cons, ← htail]
      rfl

/-- A status byte each. -/
theorem flatten_filter_status (bs : List Byte) :
    ((bs.filter (IsStatus ·)).map fun b => [b]).flatten = bs ↔ ∀ b ∈ bs, IsStatus b := by
  have hflat (l : List Byte) : (l.map fun b => [b]).flatten = l := by
    induction l with
    | nil => rfl
    | cons b l ih => rw [List.map_cons, List.flatten_cons, ih, List.singleton_append]
  rw [hflat, List.filter_eq_self]
  simp

/-! ## What arrives -/

/-- The loop on a system message of a few bytes. -/
theorem sendToDevice_system {bs : List Byte} (hbs : ∀ b ∈ bs, IsStatus b → 0xF0 ≤ b.toNat)
    (hlen : bs.length ≤ seqBufSize) (hcount : (bs.filter (IsStatus ·)).length ≤ 16)
    {pkt : Region Byte} (hpkt : pkt.size = 64) :
    (sendToDevice (Region.ofList bs 0) bs.length pkt).bind decodeWritten =
      some ((bs.filter (IsStatus ·)).map fun b => [b]) := by
  have hreach := cutReach_le 16 bs
  simp only [seqBufSize] at hlen
  rw [sendToDevice_decode (by omega) hpkt, List.map_take, cutPackets_system hbs,
    List.take_of_length_le (by rwa [List.length_map])]

/-- A quarter frame, a song position and a system exclusive message arrive without their
    data bytes. -/
theorem system_out_loses_data :
    ((sendToDevice (Region.ofList [0xF1, 5] 0) 2 (Region.fill 64 0xAA)).bind decodeWritten =
      some [[0xF1]] ∧ [[0xF1]].flatten ≠ ([0xF1, 5] : List Byte)) ∧
    ((sendToDevice (Region.ofList [0xF2, 5, 6] 0) 3 (Region.fill 64 0xAA)).bind decodeWritten =
      some [[0xF2]] ∧ [[0xF2]].flatten ≠ ([0xF2, 5, 6] : List Byte)) ∧
    (sendToDevice (Region.ofList [0xF0, 1, 0xF7] 0) 3 (Region.fill 64 0xAA)).bind decodeWritten =
      some [[0xF0], [0xF7]] ∧ [[0xF0], [0xF7]].flatten ≠ ([0xF0, 1, 0xF7] : List Byte) := by
  refine ⟨⟨?_, by decide⟩, ⟨?_, by decide⟩, ?_, by decide⟩
  · exact sendToDevice_system (by decide) (by decide) (by decide) rfl
  · exact sendToDevice_system (by decide) (by decide) (by decide) rfl
  · exact sendToDevice_system (by decide) (by decide) (by decide) rfl

/-- **Outbound system messages.** For every system message with data, or system exclusive
    message, that fits the buffer of `drain_seq_input`: decoding what `send_to_device`
    writes gives its status bytes one by one, and so the whole message if and only if it
    has no data bytes. -/
theorem system_out {m : Message} (hm : m.IsLong) (hlen : m.bytes.length ≤ seqBufSize)
    {pkt : Region Byte} (hpkt : pkt.size = 64) : ∃ out,
    (sendToDevice (Region.ofList m.bytes 0) m.bytes.length pkt).bind decodeWritten = some out ∧
    out = (m.bytes.filter (IsStatus ·)).map (fun b => [b]) ∧
    (out.flatten = m.bytes ↔ m.data = []) := by
  have hcount := hm.length_filter
  refine ⟨_, sendToDevice_system hm.status hlen (by omega) hpkt, rfl, ?_⟩
  exact (flatten_filter_status m.bytes).trans hm.all_status_iff

/-- A system exclusive message without data arrives whole. -/
theorem system_out_empty : ∃ out,
    (sendToDevice (Region.ofList [0xF0, 0xF7] 0) 2 (Region.fill 64 0xAA)).bind decodeWritten =
      some out ∧
    out = ([0xF0, 0xF7].filter (IsStatus ·)).map (fun b => [b]) ∧
    (out.flatten = [0xF0, 0xF7] ↔ ([] : List Byte) = []) :=
  system_out (m := .sysEx [] fun _ h => absurd h List.not_mem_nil) trivial (by decide) rfl

end DjmT1.Midi
