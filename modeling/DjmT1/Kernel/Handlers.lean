import DjmT1.Kernel.Stream

/-!
# What a step of a completion handler can do

Every step of `djmt1_in_complete` is an `InMove` and every step of
`djmt1_out_complete` an `OutMove`: one constructor for each line of the source at
which the handler may be interrupted.

* `inComplete_move`, `outComplete_move`: the case analyses.
-/

namespace DjmT1.Kernel

open DjmT1.Lib

variable {hw : HwParams} {s t : Stream} {ok : Bool}

/-- A handler that executes has a URB. -/
theorem HandlerPc.exists_current {pc : HandlerPc} : (∃ u, pc.current = some u) ↔ pc ≠ .none := by
  cases pc with
  | none => exact ⟨fun ⟨_, hu⟩ => absurd hu (Option.not_mem_none _), fun hne => absurd rfl hne⟩
  | test u | packet u | resubmit u | submit u =>
    exact ⟨fun _ => HandlerPc.noConfusion, fun _ => ⟨u, rfl⟩⟩

/-- Packet `i` of a URB is one that `djmt1_in_complete` passes over (line 119). -/
def Urb.Skips (x : Urb) (i : ℕ) : Prop :=
  (x.isoFrameDesc i).status ≠ 0 ∨ (x.isoFrameDesc i).actualLength < frameBytes

instance (x : Urb) (i : ℕ) : Decidable (x.Skips i) :=
  inferInstanceAs (Decidable (_ ∨ _))

/-- The frames that packet `i` of a URB brings. -/
def Urb.packetFrames (x : Urb) (i : ℕ) : ℕ := (x.isoFrameDesc i).actualLength / frameBytes

/-- What a step of `djmt1_in_complete` can do (lines 112-129). -/
inductive InMove (hw : HwParams) (s : Stream) (ok : Bool) : Stream → Prop
  | leave {u : Fin nurb} (h : s.handler = .test u)
    (hbad : s.running = false ∨ (s.urb u).status ≠ 0) :
    InMove hw s ok { s with handler := .resubmit u }
  | enter {u : Fin nurb} (h : s.handler = .test u) (hrun : s.running)
    (hstatus : (s.urb u).status = 0) : InMove hw s ok { s with handler := .packet u 0 }
  | skip {u : Fin nurb} {i : ℕ} (h : s.handler = .packet u i) (hi : i < npkt)
    (hskip : (s.urb u).Skips i) : InMove hw s ok { s with handler := .packet u (i + 1) }
  | transfer {u : Fin nurb} {i : ℕ} {t : Stream} (h : s.handler = .packet u i) (hi : i < npkt)
    (hskip : ¬ (s.urb u).Skips i)
    (ht : transferStep hw .capture s u ((s.urb u).isoFrameDesc i).offset
      ((s.urb u).packetFrames i) = some t) :
    InMove hw s ok { t with handler := .packet u (i + 1) }
  | finish {u : Fin nurb} {i : ℕ} (h : s.handler = .packet u i) (hi : npkt ≤ i) :
    InMove hw s ok { s with handler := .resubmit u }
  | reset {u : Fin nurb} (h : s.handler = .resubmit u) (hrun : s.running) :
    InMove hw s ok { s with
      urb := Function.update s.urb u (s.urb u).resetPackets, handler := .submit u }
  | stop {u : Fin nurb} (h : s.handler = .resubmit u) (hrun : s.running = false) :
    InMove hw s ok { s with handler := .none }
  | submit {u : Fin nurb} (h : s.handler = .submit u) :
    InMove hw s ok { (usbSubmitUrb s u ok).1 with handler := .none }

theorem inComplete_move (h : inComplete hw s ok = some t) : InMove hw s ok t := by
  unfold inComplete at h
  cases hh : s.handler with
  | none => simp [hh] at h
  | test u =>
    simp only [hh] at h
    split_ifs at h with hbad
    · obtain rfl := Option.some.inj h
      exact .leave hh hbad
    · obtain rfl := Option.some.inj h
      obtain ⟨hrun, hstatus⟩ := not_or.mp hbad
      exact .enter hh (by simpa using hrun) (not_not.mp hstatus)
  | packet u i =>
    simp only [hh] at h
    split_ifs at h with hi hskip
    · obtain rfl := Option.some.inj h
      exact .skip hh hi hskip
    · obtain ⟨s', hs', h⟩ := Option.bind_eq_some_iff.mp h
      obtain rfl := Option.some.inj h
      exact .transfer hh hi hskip hs'
    · obtain rfl := Option.some.inj h
      exact .finish hh (not_lt.mp hi)
  | resubmit u =>
    simp only [hh] at h
    split_ifs at h with hrun
    · obtain rfl := Option.some.inj h
      exact .reset hh hrun
    · obtain rfl := Option.some.inj h
      exact .stop hh (by simpa using hrun)
  | submit u =>
    simp only [hh] at h
    obtain rfl := Option.some.inj h
    exact .submit hh

/-- What a step of `djmt1_out_complete` can do (lines 137-146). -/
inductive OutMove (hw : HwParams) (s : Stream) (ok : Bool) : Stream → Prop
  | leave {u : Fin nurb} (h : s.handler = .test u) (hrun : s.running = false) :
    OutMove hw s ok { s with handler := .none }
  | enter {u : Fin nurb} (h : s.handler = .test u) (hrun : s.running) :
    OutMove hw s ok { s with handler := .packet u 0 }
  | transfer {u : Fin nurb} {i : ℕ} {t : Stream} (h : s.handler = .packet u i) (hi : i < npkt)
    (ht : transferStep hw .playback
      { s with urb := Function.update s.urb u ((s.urb u).resetPacket i) } u (i * pktBytes)
      framesPerPkt = some t) :
    OutMove hw s ok { t with handler := .packet u (i + 1) }
  | finish {u : Fin nurb} {i : ℕ} (h : s.handler = .packet u i) (hi : npkt ≤ i) :
    OutMove hw s ok { s with handler := .submit u }
  | submit {u : Fin nurb} (h : s.handler = .submit u) :
    OutMove hw s ok { (usbSubmitUrb s u ok).1 with handler := .none }

theorem outComplete_move (h : outComplete hw s ok = some t) : OutMove hw s ok t := by
  unfold outComplete at h
  cases hh : s.handler with
  | none => simp [hh] at h
  | resubmit u => simp [hh] at h
  | test u =>
    simp only [hh] at h
    split_ifs at h with hrun
    · obtain rfl := Option.some.inj h
      exact .enter hh hrun
    · obtain rfl := Option.some.inj h
      exact .leave hh (by simpa using hrun)
  | packet u i =>
    simp only [hh] at h
    split_ifs at h with hi
    · obtain ⟨s', hs', h⟩ := Option.bind_eq_some_iff.mp h
      obtain rfl := Option.some.inj h
      refine .transfer hh hi ?_
      rwa [hh]
    · obtain rfl := Option.some.inj h
      exact .finish hh (not_lt.mp hi)
  | submit u =>
    simp only [hh] at h
    obtain rfl := Option.some.inj h
    exact .submit hh

end DjmT1.Kernel
