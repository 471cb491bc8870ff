import DjmT1.Audio.RawCapture
import DjmT1.Lib.Streaming

/-!
# A run of `djmt1-capture`

The program (audio/djmt1-capture.c:60-147) streams through `NXFR` transfers of `NPKT`
packets until its time is up or the user interrupts it, and then reports what it has
counted.

* `cb_eq`: the callback is what it does with the packets, and then the resubmission.
* `capture_counts`: in every state of every run, each counter of the report is the count
  of the packets that have come back it is about, the histogram adds up to the packets and
  the bytes, and no packet is left out.
-/

namespace DjmT1.Audio

open DjmT1.Lib

/-- `NXFR` (line 26). -/
abbrev captureXfrs : ℕ := 8

/-- `cb` before the resubmission (lines 61-72). -/
def cbReceive (s : Capture) (x : InTransfer) : Option Capture :=
  x.packets.foldlM cbPacket
    (if isError x.status then { s with xfrErrs := s.xfrErrs + 1 } else s)

/-- The callback is `cbReceive`, and then line 73 or 74. -/
theorem cb_eq (s : Capture) (x : InTransfer) (resub : Bool) : cb s x resub =
    (cbReceive s x).map fun s => if resub then s else { s with inflight := s.inflight - 1 } := by
  rw [Option.map_eq_bind]
  rfl

/-- The program. Nothing is done to a transfer before it is submitted. -/
def captureProgram : Streaming.Program Capture InTransfer captureXfrs where
  prepare s _ := some s
  receive s _ x := cbReceive s x
  refill s _ := some s

/-- The counters, and the file of `-o` if there is one. -/
def captureBegin (file : Bool) : Capture :=
  { captureStart 0 with rawf := if file then some [] else none }

/-! ## Packets that are counted -/

/-- A good packet with data. -/
def IsoPacket.Counted (p : IsoPacket) : Prop := p.status = .completed ∧ p.data.size ≠ 0

instance (p : IsoPacket) : Decidable p.Counted := inferInstanceAs (Decidable (_ ∧ _))

/-- The packets of the counted kind with `n` bytes. -/
def countOf (ps : List IsoPacket) (n : ℕ) : ℕ :=
  ps.countP fun p => p.Counted ∧ p.data.size = n

/-- The bytes of the good packets. -/
def bytesOf (ps : List IsoPacket) : ℕ := ((ps.filter (·.Counted)).map (·.data.size)).sum

/-- Each counter is about the packets `ps` and the transfers `xs`. -/
structure CaptureCounts (s : Capture) (ps : List IsoPacket) (xs : List InTransfer) : Prop where
  totalPkts : s.totalPkts = (ps.countP (·.Counted) : ℕ)
  totalBytes : s.totalBytes = (bytesOf ps : ℕ)
  errPkts : s.errPkts = (ps.countP (·.status ≠ .completed) : ℕ)
  xfrErrs : s.xfrErrs = (xs.countP (isError ·.status) : ℕ)
  pktlenHist : ∀ n ≤ pktInMax, s.pktlenHist.get n = (countOf ps n : ℕ)

/-- The packets are bad, empty or counted. -/
theorem packets_add_up (ps : List IsoPacket) :
    ps.countP (·.Counted) + ps.countP (·.status ≠ .completed) +
      ps.countP (fun p => p.status = .completed ∧ p.data.size = 0) = ps.length := by
  induction ps with
  | nil => rfl
  | cons p ps ih =>
    by_cases hst : p.status = .completed
    · by_cases hsize : p.data.size = 0
      · simp [IsoPacket.Counted, hst, hsize] at ih ⊢
        omega
      · simp [IsoPacket.Counted, hst, hsize] at ih ⊢
        omega
    · simp [IsoPacket.Counted, hst] at ih ⊢
      omega

theorem countOf_cons (p : IsoPacket) (ps : List IsoPacket) (n : ℕ) :
    countOf (p :: ps) n = countOf ps n + if p.Counted ∧ p.data.size = n then 1 else 0 := by
  simp [countOf, List.countP_cons]

/-- A packet is in one place of the histogram. -/
theorem sum_countOf (ps : List IsoPacket) (w : ℕ → ℕ) :
    ∑ n ∈ Finset.range (pktInMax + 1), w n * countOf ps n =
      ((ps.filter (·.Counted)).map fun p => w p.data.size).sum := by
  induction ps with
  | nil => simp [countOf]
  | cons p ps ih =>
    simp only [countOf_cons, Nat.mul_add, Finset.sum_add_distrib, ih]
    by_cases hp : p.Counted
    · have hin : p.data.size ∈ Finset.range (pktInMax + 1) :=
        Finset.mem_range.mpr (Nat.lt_succ_of_le p.le)
      simp only [hp, true_and, List.filter_cons, decide_true, if_true, List.map_cons, List.sum_cons,
        mul_ite, mul_one, mul_zero]
      rw [Finset.sum_ite_eq, if_pos hin]
      ring
    · simp [hp]

/-! ## What the callback counts -/

/-- The counters of packets, and what is in flight, are the same. -/
structure SameCounts (s t : Capture) : Prop where
  totalPkts : t.totalPkts = s.totalPkts
  totalBytes : t.totalBytes = s.totalBytes
  errPkts : t.errPkts = s.errPkts
  xfrErrs : t.xfrErrs = s.xfrErrs
  pktlenHist : t.pktlenHist = s.pktlenHist

theorem SameCounts.refl (s : Capture) : SameCounts s s := ⟨rfl, rfl, rfl, rfl, rfl⟩

theorem SameCounts.trans {s t u : Capture} (h : SameCounts s t) (h' : SameCounts t u) :
    SameCounts s u :=
  ⟨h'.totalPkts.trans h.totalPkts, h'.totalBytes.trans h.totalBytes, h'.errPkts.trans h.errPkts,
    h'.xfrErrs.trans h.xfrErrs, h'.pktlenHist.trans h.pktlenHist⟩

/-- Frames are not packets. -/
theorem analyseFrame_counts {d : Region Byte} {s t : Capture} {f : ℕ}
    (h : analyseFrame d s f = some t) : SameCounts s t := by
  obtain ⟨⟨u, row⟩, hloop, ht⟩ := Option.bind_eq_some_iff.mp h
  obtain rfl := Option.some.inj ht
  have hu : SameCounts s u := by
    apply loop_keeps (I := fun e : Capture × List ℤ => SameCounts s e.1) hloop (.refl s)
    rintro c ⟨v, row⟩ e _ he hv
    obtain ⟨x, _, he⟩ := Option.bind_eq_some_iff.mp he
    obtain ⟨peaks, _, he⟩ := Option.bind_eq_some_iff.mp he
    obtain ⟨q, _, he⟩ := Option.bind_eq_some_iff.mp he
    obtain ⟨sums, _, he⟩ := Option.bind_eq_some_iff.mp he
    obtain rfl := Option.some.inj he
    exact hv.trans ⟨rfl, rfl, rfl, rfl, rfl⟩
  exact hu.trans ⟨rfl, rfl, rfl, rfl, rfl⟩

theorem processPacket_counts {d : Region Byte} {s t : Capture} {len : ℕ}
    (h : processPacket s d len = some t) : SameCounts s t := by
  obtain ⟨u, hwrite, hloop⟩ := Option.bind_eq_some_iff.mp h
  have hu : SameCounts s u := by
    unfold writeRaw at hwrite
    split at hwrite
    · obtain rfl := Option.some.inj hwrite
      exact .refl s
    · obtain ⟨bytes, _, hwrite⟩ := Option.bind_eq_some_iff.mp hwrite
      obtain rfl := Option.some.inj hwrite
      exact ⟨rfl, rfl, rfl, rfl, rfl⟩
  apply loop_keeps (I := SameCounts s) hloop hu
  intro f v w _ hw hv
  exact hv.trans (analyseFrame_counts hw)

theorem countOf_concat (ps : List IsoPacket) (p : IsoPacket) (n : ℕ) :
    countOf (ps ++ [p]) n = countOf ps n + if p.Counted ∧ p.data.size = n then 1 else 0 := by
  simp [countOf, List.countP_append, List.countP_cons]

/-- A packet is counted where it belongs. -/
theorem cbPacket_counts {s t : Capture} {ps : List IsoPacket} {xs : List InTransfer} {p : IsoPacket}
    (h : CaptureCounts s ps xs) (hsize : s.pktlenHist.size = 1025) (ht : cbPacket s p = some t) :
    CaptureCounts t (ps ++ [p]) xs := by
  unfold cbPacket at ht
  by_cases hst : p.status = .completed
  · rw [if_neg (not_not.mpr hst)] at ht
    by_cases h0 : p.data.size = 0
    · -- an empty packet leaves no trace
      have hno : ¬ p.Counted := fun hc => hc.2 h0
      simp only [if_pos h0] at ht
      obtain rfl := Option.some.inj ht
      refine ⟨?_, ?_, ?_, h.xfrErrs, ?_⟩
      · simp [h.totalPkts, hno]
      · simp [h.totalBytes, bytesOf, hno]
      · simp [h.errPkts, hst]
      · intro n hn
        rw [h.pktlenHist n hn, countOf_concat, if_neg fun hc => hno hc.1]
        rfl
    · have hyes : p.Counted := ⟨hst, h0⟩
      have hin : p.data.size < s.pktlenHist.size := by
        have hle := p.le
        simp only [pktInMax] at hle
        omega
      simp only [if_neg h0, countLength, if_pos p.le, Region.load_eq hin, Region.store_eq hin,
        Option.bind_eq_bind, Option.bind_some] at ht
      have hsame := processPacket_counts ht
      refine ⟨?_, ?_, ?_, ?_, ?_⟩
      · rw [hsame.totalPkts, h.totalPkts]
        simp [hyes]
      · rw [hsame.totalBytes, h.totalBytes]
        simp [bytesOf, hyes]
      · rw [hsame.errPkts, h.errPkts]
        simp [hst]
      · rw [hsame.xfrErrs, h.xfrErrs]
      · intro n hn
        rw [hsame.pktlenHist, countOf_concat]
        show Function.update s.pktlenHist.get p.data.size _ n = _
        by_cases hnp : p.data.size = n
        · subst hnp
          rw [if_pos ⟨hyes, rfl⟩, Function.update_self, h.pktlenHist _ hn]
          simp
        · rw [if_neg fun hc => hnp hc.2, Function.update_of_ne (Ne.symm hnp), h.pktlenHist n hn]
          rfl
  · have hno : ¬ p.Counted := fun hc => hst hc.1
    rw [if_pos hst] at ht
    obtain rfl := Option.some.inj ht
    refine ⟨?_, ?_, ?_, h.xfrErrs, ?_⟩
    · simp [h.totalPkts, hno]
    · simp [h.totalBytes, bytesOf, hno]
    · simp [h.errPkts, hst]
    · intro n hn
      rw [h.pktlenHist n hn, countOf_concat, if_neg fun hc => hno hc.1]
      rfl

/-- A transfer that has come back adds its packets, and is itself counted. -/
theorem cbReceive_adds {s : Capture} (h : CaptureInv s) (x : InTransfer) :
    ∃ t, cbReceive s x = some t ∧
      Adds (x.packets.flatMap packetValues) (x.packets.flatMap payload) s t := by
  obtain ⟨t, ht, hadd⟩ := cb_adds h x true
  rw [cb_eq] at ht
  obtain ⟨u, hu, rfl⟩ := Option.map_eq_some_iff.mp ht
  exact ⟨u, hu, hadd⟩

theorem foldlM_counts {s t : Capture} {ps qs : List IsoPacket} {xs : List InTransfer}
    (hinv : CaptureInv s) (h : CaptureCounts s ps xs) (ht : qs.foldlM cbPacket s = some t) :
    CaptureCounts t (ps ++ qs) xs := by
  induction qs generalizing s ps with
  | nil =>
    obtain rfl := Option.some.inj ht
    rwa [List.append_nil]
  | cons p qs ih =>
    obtain ⟨u, hu, ht⟩ := Option.bind_eq_some_iff.mp ht
    obtain ⟨u', hu', hadd⟩ := cbPacket_adds hinv p
    obtain rfl : u' = u := Option.some.inj (hu'.symm.trans hu)
    have hrest := ih hadd.inv (cbPacket_counts h hinv.hist hu) ht
    rwa [List.append_assoc] at hrest

theorem cbReceive_counts {s t : Capture} {ps : List IsoPacket} {xs : List InTransfer}
    {x : InTransfer} (hinv : CaptureInv s) (h : CaptureCounts s ps xs)
    (ht : cbReceive s x = some t) : CaptureCounts t (ps ++ x.packets) (xs ++ [x]) := by
  unfold cbReceive at ht
  by_cases herr : isError x.status
  · rw [if_pos herr] at ht
    have hinv' : CaptureInv { s with xfrErrs := s.xfrErrs + 1 } :=
      ⟨hinv.hist, hinv.peakSize, hinv.sumsqSize, hinv.counted, hinv.peak, hinv.sumsq⟩
    refine foldlM_counts hinv' ⟨h.totalPkts, h.totalBytes, h.errPkts, ?_, h.pktlenHist⟩ ht
    simp [h.xfrErrs, herr]
  · rw [if_neg herr] at ht
    refine foldlM_counts hinv ⟨h.totalPkts, h.totalBytes, h.errPkts, ?_, h.pktlenHist⟩ ht
    simp [h.xfrErrs, herr]

/-! ## Runs -/

theorem captureBegin_inv (file : Bool) : CaptureInv (captureBegin file) :=
  ⟨rfl, rfl, rfl, rfl, fun _ _ => rfl, fun _ _ => rfl⟩

theorem captureBegin_counts (file : Bool) : CaptureCounts (captureBegin file) [] [] :=
  ⟨rfl, rfl, rfl, rfl, fun _ _ => rfl⟩

/-- The functions of the program are defined. -/
theorem captureProgram_keeps : captureProgram.Keeps CaptureInv where
  prepare s _ h := ⟨s, rfl, h⟩
  refill s _ h := ⟨s, rfl, h⟩
  receive s _ x h := by
    obtain ⟨t, ht, hadd⟩ := cbReceive_adds h x
    exact ⟨t, ht, hadd.inv⟩

/-- The transfers that have come back. -/
def receivedOf : List (Streaming.Event InTransfer captureXfrs) → List InTransfer
  | [] => []
  | .came _ x :: log => x :: receivedOf log
  | .sent _ _ _ :: log => receivedOf log

/-- The program's state after its events. -/
theorem replay_counts {log : List (Streaming.Event InTransfer captureXfrs)} {s t : Capture}
    {ps : List IsoPacket} {xs : List InTransfer} (hinv : CaptureInv s) (h : CaptureCounts s ps xs)
    (ht : log.foldlM captureProgram.apply s = some t) :
    CaptureCounts t (ps ++ (receivedOf log).flatMap (·.packets)) (xs ++ receivedOf log) ∧
    Adds ((receivedOf log).flatMap fun x => x.packets.flatMap packetValues)
      ((receivedOf log).flatMap fun x => x.packets.flatMap payload) s t := by
  induction log generalizing s ps xs with
  | nil =>
    obtain rfl := Option.some.inj ht
    refine ⟨?_, .nil hinv rfl rfl⟩
    simpa [receivedOf] using h
  | cons e log ih =>
    obtain ⟨u, hu, ht⟩ := Option.bind_eq_some_iff.mp ht
    cases e with
    | sent i again ok =>
      obtain rfl : s = u := by cases again <;> exact Option.some.inj hu
      exact ih hinv h ht
    | came i x =>
      have hu : cbReceive s x = some u := hu
      obtain ⟨u', hu', hadd⟩ := cbReceive_adds hinv x
      obtain rfl : u' = u := Option.some.inj (hu'.symm.trans hu)
      obtain ⟨hcounts, hadds⟩ := ih hadd.inv (cbReceive_counts hinv h hu) ht
      refine ⟨?_, hadd.trans hadds⟩
      simpa [receivedOf] using hcounts

/-- **The report.** In every state of every run of the program, when the transfers `xs` have
    come back: each counter is, modulo 2^64, the number of packets of `xs` it is about; the
    packets are those counted, the bad and the empty ones; the histogram adds up to the
    packets counted and, weighted with the lengths, to their bytes; and the file and the
    frames analysed are those of all good packets, in order. -/
theorem capture_counts (file : Bool) {s : Streaming.Proc Capture InTransfer captureXfrs}
    {log : List (Streaming.Event InTransfer captureXfrs)}
    (h : (Streaming.logMachine captureProgram (captureBegin file)).Reach (s, log)) :
    let xs := receivedOf log
    let ps := xs.flatMap (·.packets)
    CaptureCounts s.app ps xs ∧
    ps.countP (·.Counted) + ps.countP (·.status ≠ .completed) +
      ps.countP (fun p => p.status = .completed ∧ p.data.size = 0) = ps.length ∧
    ∑ n ∈ Finset.range (pktInMax + 1), s.app.pktlenHist.get n = s.app.totalPkts ∧
    ∑ n ∈ Finset.range (pktInMax + 1), (n : BitVec 64) * s.app.pktlenHist.get n =
      s.app.totalBytes ∧
    s.app.analysed = ps.flatMap packetValues ∧
    s.app.frames = BitVec.ofNat 64 s.app.analysed.length ∧
    s.app.rawf = if file then some (ps.flatMap payload) else none := by
  intro xs ps
  obtain ⟨hcounts, hadds⟩ := replay_counts (captureBegin_inv file) (captureBegin_counts file)
    (Streaming.log_replay h)
  have hcounts : CaptureCounts s.app ps xs := by simpa using hcounts
  have hhist : ∀ n ∈ Finset.range (pktInMax + 1), s.app.pktlenHist.get n = (countOf ps n : ℕ) :=
    fun n hn => hcounts.pktlenHist n (Nat.lt_succ_iff.mp (Finset.mem_range.mp hn))
  refine ⟨hcounts, packets_add_up ps, ?_, ?_, ?_, hadds.inv.counted, ?_⟩
  · have hsum : ∑ n ∈ Finset.range (pktInMax + 1), countOf ps n = ps.countP (·.Counted) := by
      have hone := sum_countOf ps fun _ => 1
      simp only [one_mul, List.map_const', List.sum_replicate, smul_eq_mul, mul_one] at hone
      rw [hone, List.countP_eq_length_filter]
    rw [Finset.sum_congr rfl hhist, ← Nat.cast_sum, hsum, hcounts.totalPkts]
  · have hsum := sum_countOf ps fun n => n
    have hweight : ∀ n ∈ Finset.range (pktInMax + 1),
        (n : BitVec 64) * s.app.pktlenHist.get n = ((n * countOf ps n : ℕ) : BitVec 64) := by
      intro n hn
      rw [hhist n hn, Nat.cast_mul]
    rw [Finset.sum_congr rfl hweight, ← Nat.cast_sum, hsum, hcounts.totalBytes]
    rfl
  · rw [hadds.analysed, List.flatMap_assoc]
    rfl
  · rw [hadds.rawf, List.flatMap_assoc]
    cases file with
    | false => rfl
    | true => rfl

/-- A transfer with a short packet, an empty one and a bad one. -/
def mixedTransfer : InTransfer :=
  ⟨.completed, [
    ⟨.completed, Region.fill 17 1, by decide⟩,
    ⟨.completed, Region.ofList [] 0, by decide⟩,
    ⟨.error, Region.fill 5 2, by decide⟩]⟩

/-- The program submits its transfers, and the first comes back. -/
def mixedRun : List (Streaming.Label InTransfer captureXfrs) :=
  List.replicate 10 (.main true) ++ .complete 0 mixedTransfer :: List.replicate 3 (.callback true)

theorem capture_counts_mixedRun : ∃ s log,
    (Streaming.logMachine captureProgram (captureBegin true)).play
      (Streaming.start (captureBegin true), []) mixedRun = some (s, log) ∧
    receivedOf log = [mixedTransfer] ∧
    CaptureCounts s.app mixedTransfer.packets [mixedTransfer] := by
  obtain ⟨s, log, hplay, hlog⟩ : ∃ s log,
      (Streaming.logMachine captureProgram (captureBegin true)).play
        (Streaming.start (captureBegin true), []) mixedRun = some (s, log) ∧
      receivedOf log = [mixedTransfer] := by
    refine ⟨_, _, rfl, ?_⟩
    rfl
  have hcounts := (capture_counts true (Machine.play_reach
    (s := (Streaming.start (captureBegin true), [])) ⟨rfl, rfl⟩ hplay)).1
  rw [hlog] at hcounts
  exact ⟨s, log, hplay, hlog, hcounts⟩

end DjmT1.Audio
