import DjmT1.Midi.Packet

/-!
# MIDI from the mixer

A list of MIDI messages is cut into USB-MIDI packets by the rule of the USB-MIDI
specification (`Packetizes`), packets that carry nothing may be inserted anywhere
(`Padded`), and the stream of packets arrives in transfers of whole packets.
`midi_inbound`: `midi_cb` hands exactly the bytes of the messages to `emit_midi`,
in order, and counts the packets that carry MIDI.
-/

namespace DjmT1.Midi

open DjmT1.Lib

/-! ## Messages -/

/-- A complete MIDI message. -/
inductive Message
  /-- note off, note on, key pressure, control change and pitch bend -/
  | voice3 (status d1 d2 : Byte) (h : status.toNat / 16 ∈ [0x8, 0x9, 0xA, 0xB, 0xE])
      (h1 : d1.toNat < 0x80) (h2 : d2.toNat < 0x80)
  /-- program change and channel pressure -/
  | voice2 (status d1 : Byte) (h : status.toNat / 16 ∈ [0xC, 0xD]) (h1 : d1.toNat < 0x80)
  /-- song position pointer -/
  | common3 (d1 d2 : Byte) (h1 : d1.toNat < 0x80) (h2 : d2.toNat < 0x80)
  /-- time code quarter frame and song select -/
  | common2 (status d1 : Byte) (h : status.toNat ∈ [0xF1, 0xF3]) (h1 : d1.toNat < 0x80)
  /-- tune request and the two undefined ones -/
  | common1 (status : Byte) (h : status.toNat ∈ [0xF4, 0xF5, 0xF6])
  /-- system real-time -/
  | realTime (status : Byte) (h : 0xF8 ≤ status.toNat)
  /-- system exclusive, of any length -/
  | sysEx (data : List Byte) (h : ∀ b ∈ data, b.toNat < 0x80)

namespace Message

/-- The bytes of a message. -/
def bytes : Message → List Byte
  | .voice3 status d1 d2 _ _ _ => [status, d1, d2]
  | .voice2 status d1 _ _ => [status, d1]
  | .common3 d1 d2 _ _ => [0xF2, d1, d2]
  | .common2 status d1 _ _ => [status, d1]
  | .common1 status _ | .realTime status _ => [status]
  | .sysEx data _ => 0xF0 :: (data ++ [0xF7])

/-- The CINs of a packet that carries a whole message. -/
def cins : Message → List (BitVec 4)
  | .voice3 status _ _ _ _ _ | .voice2 status _ _ _ => [BitVec.ofNat 4 (status.toNat / 16)]
  | .common3 _ _ _ _ => [0x3]
  | .common2 _ _ _ _ => [0x2]
  | .common1 _ _ | .realTime _ _ => [0x5, 0xF]
  | .sysEx _ _ => []

/-- The length of a message is what `cin_len` says of its CIN. -/
theorem length_bytes_of_mem_cins {m : Message} {cin : BitVec 4} (h : cin ∈ m.cins) :
    (m.bytes.length : ℤ) = cinLen cin.toNat ∧ 2 ≤ cin.toNat := by
  cases m with
  | voice3 status d1 d2 hs h1 h2 =>
    rw [List.mem_singleton.mp h]
    simp only [List.mem_cons, List.not_mem_nil, or_false] at hs
    rcases hs with hs | hs | hs | hs | hs <;> (rw [hs]; exact ⟨rfl, by decide⟩)
  | voice2 status d1 hs h1 =>
    rw [List.mem_singleton.mp h]
    simp only [List.mem_cons, List.not_mem_nil, or_false] at hs
    rcases hs with hs | hs <;> (rw [hs]; exact ⟨rfl, by decide⟩)
  | common3 d1 d2 h1 h2 => rw [List.mem_singleton.mp h]; exact ⟨rfl, by decide⟩
  | common2 status d1 hs h1 => rw [List.mem_singleton.mp h]; exact ⟨rfl, by decide⟩
  | common1 status hs =>
    simp only [cins, List.mem_cons, List.not_mem_nil, or_false] at h
    rcases h with rfl | rfl <;> exact ⟨rfl, by decide⟩
  | realTime status hs =>
    simp only [cins, List.mem_cons, List.not_mem_nil, or_false] at h
    rcases h with rfl | rfl <;> exact ⟨rfl, by decide⟩
  | sysEx data hd => exact absurd h List.not_mem_nil

end Message

/-! ## Packets of messages -/

/-- The packet with the given cable number, CIN and MIDI bytes, unused bytes zero. -/
def Packet.event (cable cin : BitVec 4) (m : List Byte) : Packet :=
  ⟨cable ++ cin, m.getD 0 0, m.getD 1 0, m.getD 2 0⟩

theorem Packet.cin_event (cable cin : BitVec 4) (m : List Byte) :
    (Packet.event cable cin m).cin = cin.toNat := by
  have h : ∀ cable cin : BitVec 4, ((cable ++ cin : Byte) &&& 0x0f).toNat = cin.toNat := by decide
  exact h cable cin

/-- A packet whose CIN fits its bytes carries them. -/
theorem Packet.payload_event {cable cin : BitVec 4} {m : List Byte}
    (h : (m.length : ℤ) = cinLen cin.toNat) : (Packet.event cable cin m).payload = m := by
  obtain ⟨hle, _⟩ := cinLen_range cin.toNat cin.isLt
  rw [Packet.payload, Packet.cin_event, ← h, Int.toNat_natCast]
  rcases m with _ | ⟨_, _ | ⟨_, _ | ⟨_, _ | ⟨_, m⟩⟩⟩⟩
  · rfl
  · rfl
  · rfl
  · rfl
  · simp only [List.length_cons] at h
    omega

/-- The packets of a system exclusive message: groups of three bytes with CIN 4, and
    the last one to three bytes with CIN 5, 6 or 7. -/
inductive SysExPackets : List Byte → List Packet → Prop
  | more (cable : BitVec 4) (a b c : Byte) {rest : List Byte} {ps : List Packet} (h : rest ≠ []) :
      SysExPackets rest ps →
        SysExPackets (a :: b :: c :: rest) (Packet.event cable 0x4 [a, b, c] :: ps)
  | end1 (cable : BitVec 4) (a : Byte) : SysExPackets [a] [Packet.event cable 0x5 [a]]
  | end2 (cable : BitVec 4) (a b : Byte) : SysExPackets [a, b] [Packet.event cable 0x6 [a, b]]
  | end3 (cable : BitVec 4) (a b c : Byte) :
      SysExPackets [a, b, c] [Packet.event cable 0x7 [a, b, c]]

/-- The packets of a message, on any cable. -/
inductive Packetizes : Message → List Packet → Prop
  | whole (m : Message) (cable : BitVec 4) {cin : BitVec 4} (h : cin ∈ m.cins) :
      Packetizes m [Packet.event cable cin m.bytes]
  | sysEx (data : List Byte) {ps : List Packet} (hd : ∀ b ∈ data, b.toNat < 0x80)
      (h : SysExPackets (0xF0 :: (data ++ [0xF7])) ps) : Packetizes (.sysEx data hd) ps

/-- `qs` is `ps` with packets of CIN 0 or 1 (all-zero ones among them) inserted. -/
inductive Padded : List Packet → List Packet → Prop
  | nil : Padded [] []
  | keep (p : Packet) {ps qs : List Packet} : Padded ps qs → Padded (p :: ps) (p :: qs)
  | pad {q : Packet} (hq : ¬ q.Carries) {ps qs : List Packet} : Padded ps qs → Padded ps (q :: qs)

/-- The packets carry the bytes, and nothing else. -/
def Spells (ps : List Packet) (bs : List Byte) : Prop :=
  (∀ p ∈ ps, p.Carries) ∧ ps.flatMap Packet.payload = bs

theorem Spells.single {cable cin : BitVec 4} {m : List Byte} (h : (m.length : ℤ) = cinLen cin.toNat)
    (hc : 2 ≤ cin.toNat) : Spells [Packet.event cable cin m] m := by
  constructor
  · intro p hp
    rw [List.mem_singleton.mp hp, Packet.Carries, Packet.cin_event]
    exact hc
  · rw [List.flatMap_singleton, Packet.payload_event h]

theorem Spells.append {ps qs : List Packet} {bs cs : List Byte} (h : Spells ps bs)
    (h' : Spells qs cs) : Spells (ps ++ qs) (bs ++ cs) := by
  refine ⟨List.forall_mem_append.mpr ⟨h.1, h'.1⟩, ?_⟩
  rw [List.flatMap_append, h.2, h'.2]

theorem SysExPackets.spells {bs : List Byte} {ps : List Packet} (h : SysExPackets bs ps) :
    Spells ps bs := by
  induction h with
  | more cable a b c _ _ ih => exact (Spells.single (m := [a, b, c]) rfl (by decide)).append ih
  | end1 cable a => exact .single rfl (by decide)
  | end2 cable a b => exact .single rfl (by decide)
  | end3 cable a b c => exact .single rfl (by decide)

theorem Packetizes.spells {m : Message} {ps : List Packet} (h : Packetizes m ps) :
    Spells ps m.bytes := by
  cases h with
  | whole m cable h =>
    obtain ⟨hlen, hc⟩ := Message.length_bytes_of_mem_cins h
    exact .single hlen hc
  | sysEx data hd h => exact h.spells

/-- The packets of a list of messages spell their bytes. -/
theorem spells_of_forall₂ {ms : List Message} {pss : List (List Packet)}
    (h : List.Forall₂ Packetizes ms pss) : Spells pss.flatten (ms.flatMap Message.bytes) := by
  induction h with
  | nil => exact ⟨fun p hp => absurd hp List.not_mem_nil, rfl⟩
  | cons hm _ ih => exact hm.spells.append ih

/-- Padding is dropped. -/
theorem Padded.filter_eq {ps qs : List Packet} (h : Padded ps qs) (hps : ∀ p ∈ ps, p.Carries) :
    qs.filter (Packet.Carries ·) = ps := by
  induction h with
  | nil => rfl
  | keep p _ ih =>
    have hp : p.Carries := hps p List.mem_cons_self
    rw [List.filter_cons, if_pos (by simpa using hp),
      ih fun p' hp' => hps p' (List.mem_cons_of_mem p hp')]
  | pad hq _ ih =>
    rw [List.filter_cons, if_neg (by simpa using hq), ih hps]

/-! ## A run of `midi_cb` -/

/-- The callback on one transfer after the other. -/
def runCb (cb : Bridge → BulkTransfer → Option (Bridge × Bool)) (s : Bridge)
    (ts : List BulkTransfer) : Option Bridge :=
  ts.foldlM (fun s t => (cb s t).map Prod.fst) s

/-- However the packets are cut into transfers, the callback takes one after the
    other. -/
theorem runCb_spec (go : Bridge → Bool) {ts : List BulkTransfer} {cut : List (List Packet)}
    (h : List.Forall₂ (fun t ps => t.status = .completed ∧ t.Holds ps) ts cut) (s : Bridge) :
    runCb (midiCb go) s ts = some (cut.flatten.foldl deliver s) := by
  induction h generalizing s with
  | nil => rfl
  | cons hhead _ ih =>
    obtain ⟨hst, hholds⟩ := hhead
    rw [runCb, List.foldlM_cons, midiCb_spec go hst hholds, List.flatten_cons, List.foldl_append]
    exact ih _

/-- **Inbound decoding.** For every list of messages, packetized on any cables, with
    any padding inserted and cut in any way into completed transfers of whole
    packets: `midi_cb` of either daemon calls `emit_midi` once for each packet of the
    messages, which hands over the bytes of the messages in order and nothing else,
    and `midi_msgs` grows by the number of packets with a CIN of at least 2. -/
theorem midi_inbound {cb : Bridge → BulkTransfer → Option (Bridge × Bool)}
    (hcb : cb = DjmMidi.midiCb ∨ cb = DjmFull.midiCb) {ms : List Message}
    {pss : List (List Packet)} (hms : List.Forall₂ Packetizes ms pss) {qs : List Packet}
    (hqs : Padded pss.flatten qs) {ts : List BulkTransfer} {cut : List (List Packet)}
    (hcut : cut.flatten = qs)
    (hts : List.Forall₂ (fun t ps => t.status = .completed ∧ t.Holds ps) ts cut) (s : Bridge) :
    ∃ s', runCb cb s ts = some s' ∧
      s'.emitted = s.emitted ++ pss.flatten.map Packet.payload ∧
      s'.emitted.flatten = s.emitted.flatten ++ ms.flatMap Message.bytes ∧
      s'.midiMsgs = s.midiMsgs + BitVec.ofNat 64 (qs.countP fun p => 2 ≤ p.cin) := by
  obtain ⟨hcarries, hbytes⟩ := spells_of_forall₂ hms
  have hrun : runCb cb s ts = some (qs.foldl deliver s) := by
    rw [← hcut]
    rcases hcb with rfl | rfl
    · exact runCb_spec _ hts s
    · exact runCb_spec _ hts s
  refine ⟨_, hrun, ?_, ?_, ?_⟩
  · rw [foldl_deliver, hqs.filter_eq hcarries]
  · rw [foldl_deliver, hqs.filter_eq hcarries]
    simp only [List.flatten_append]
    rw [← hbytes, List.flatMap_def]
  · rw [foldl_deliver]
    rfl

/-- A note on cable 1 and a system exclusive message on cable 0 around a clock tick,
    with padding, in two transfers that cut the system exclusive message. -/
theorem midi_inbound_mixed :
    ∃ s', runCb DjmMidi.midiCb ⟨0, true, false, []⟩
        [bulkOf ([⟨0, 0, 0, 0⟩, ⟨0x19, 0x90, 60, 127⟩, ⟨0x0F, 0xF8, 0, 0⟩,
            ⟨0x04, 0xF0, 1, 2⟩].flatMap Packet.bytes),
          bulkOf ([⟨0x21, 7, 7, 7⟩, ⟨0x06, 3, 0xF7, 0⟩].flatMap Packet.bytes)] = some s' ∧
      s'.emitted = [] ++ [[0x90, 60, 127], [0xF8], [0xF0, 1, 2], [3, 0xF7]] ∧
      s'.emitted.flatten = [] ++ [0x90, 60, 127, 0xF8, 0xF0, 1, 2, 3, 0xF7] ∧
      s'.midiMsgs = 0 + BitVec.ofNat 64 4 := by
  have hms : List.Forall₂ Packetizes
      [.voice3 0x90 60 127 (by decide) (by decide) (by decide), .realTime 0xF8 (by decide),
        .sysEx [1, 2, 3] (by decide)]
      [[.event 1 0x9 [0x90, 60, 127]], [.event 0 0xF [0xF8]],
        [.event 0 0x4 [0xF0, 1, 2], .event 0 0x6 [3, 0xF7]]] :=
    .cons (.whole _ 1 List.mem_cons_self)
      (.cons (.whole _ 0 (List.mem_cons_of_mem _ List.mem_cons_self))
        (.cons (.sysEx _ _ (.more 0 0xF0 1 2 (List.cons_ne_nil _ _) (.end2 0 3 0xF7))) .nil))
  have hqs : Padded
      [⟨0x19, 0x90, 60, 127⟩, ⟨0x0F, 0xF8, 0, 0⟩, ⟨0x04, 0xF0, 1, 2⟩, ⟨0x06, 3, 0xF7, 0⟩]
      [⟨0, 0, 0, 0⟩, ⟨0x19, 0x90, 60, 127⟩, ⟨0x0F, 0xF8, 0, 0⟩, ⟨0x04, 0xF0, 1, 2⟩,
        ⟨0x21, 7, 7, 7⟩, ⟨0x06, 3, 0xF7, 0⟩] :=
    .pad (by decide) (.keep _ (.keep _ (.keep _ (.pad (by decide) (.keep _ .nil)))))
  exact midi_inbound (.inl rfl) hms hqs rfl
    (.cons ⟨rfl, bulkOf_holds _⟩ (.cons ⟨rfl, bulkOf_holds _⟩ .nil)) _

end DjmT1.Midi
