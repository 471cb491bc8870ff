import DjmT1.Lib.Overlay
import DjmT1.Midi.Liveness

/-!
# What `--hid-probe` prints

`djm_midi --hid-probe` prints a HID report when it differs from `last_hid`, compared over
the length of the report, and then copies it there. `last_hid` is an image that the
reports are written over, and what is printed are the changes of it.

* `report_spec`: one report.
* `hid_probe`: over a whole run, `last_hid` holds at each offset the latest byte received
  there; printed are the first report and those that change it, so that the printed ones
  alone lead to the same image; and reports of one length are printed whenever they
  differ from the one before.
-/

namespace DjmT1.Midi

open DjmT1.Lib

namespace DjmMidi

/-- The report that an event brings: the bytes of a HID transfer that completes with any. -/
def Event.report : Event → Option (List Byte)
  | .hid t _ =>
    if t.status = .completed ∧ 0 < t.actualLength then some (t.buffer.slice 0 t.actualLength)
    else none
  | .main _ | .signal | .midi _ _ | .audio _ _ _ => none

/-- `djm_midi`, and the reports it has received. -/
def reportMachine : Machine (Proc × List (List Byte)) Event :=
  machine.observe (fun _ => []) fun reports _ e _ => reports ++ e.report.toList

instance (r : Proc × List (List Byte)) (e : Event) : Decidable (reportMachine.enabled r e) :=
  inferInstanceAs (Decidable (machine.enabled r.1 e))

/-- The zeroes that `last_hid` starts with. -/
def blank : List Byte := List.replicate hidLen 0

/-- What is to be shown of a sequence of reports: the first in any case (`have_last_hid`),
    and each later one that changes the image. -/
def shown : List (List Byte) → List (List Byte)
  | [] => []
  | r :: rs => r :: changes (overlay blank r) rs

theorem shown_concat (rs : List (List Byte)) (r : List Byte) :
    shown (rs ++ [r]) =
      if rs = [] ∨ overlay (rs.foldl overlay blank) r ≠ rs.foldl overlay blank then shown rs ++ [r]
      else shown rs := by
  cases rs with
  | nil => rfl
  | cons q rs =>
    rw [List.cons_append, shown, changes_append, ← List.foldl_cons (f := overlay)]
    by_cases hsame : overlay ((q :: rs).foldl overlay blank) r = (q :: rs).foldl overlay blank
    · have hshown : ¬ (q :: rs = [] ∨ overlay ((q :: rs).foldl overlay blank) r ≠
          (q :: rs).foldl overlay blank) := not_or.mpr ⟨List.cons_ne_nil _ _, not_not.mpr hsame⟩
      rw [changes, if_pos hsame, changes, if_neg hshown, List.append_nil, shown]
    · rw [changes, if_neg hsame, changes, if_pos (.inr hsame), shown, List.cons_append]

/-! ## One report -/

theorem drop_toList {b : Region Byte} {n : ℕ} (h : n ≤ b.size) :
    b.toList.drop n = b.slice n (b.size - n) := by
  have hsplit := b.slice_add 0 n (b.size - n)
  rw [Nat.add_sub_cancel' h, Nat.zero_add] at hsplit
  rw [Region.toList, hsplit, List.drop_left' (b.length_slice 0 n)]

/-- A copy to the front of a buffer. -/
theorem toList_memcpy {dst src c : Region Byte} {n : ℕ} (hd : n ≤ dst.size) (hs : n ≤ src.size)
    (h : dst.memcpy (0 : ℕ) src (0 : ℕ) n = some c) :
    c.toList = overlay dst.toList (src.slice 0 n) := by
  have hsize : c.size = dst.size := Region.size_of_memcpy h
  have hfront : c.slice 0 n = src.slice 0 n := by
    rw [Region.memcpy_eq (by omega) (by omega)] at h
    obtain rfl := Option.some.inj h
    refine List.map_congr_left fun j hj => ?_
    rw [List.mem_range] at hj
    simp [hj]
  have hback : c.slice n (c.size - n) = dst.slice n (dst.size - n) := by
    rw [hsize]
    exact Region.slice_congr fun j hj _ => Region.get_of_memcpy h (by simpa using hj)
  rw [overlay, Region.length_slice, drop_toList hd, ← hback, ← drop_toList (by omega), ← hfront,
    Region.toList, ← c.take_slice 0 (by omega : n ≤ c.size), List.take_append_drop]

theorem changed_eq {p : HidProbe} {t : BulkTransfer} (hlast : p.lastHid.size = hidLen)
    (hsize : t.buffer.size = hidLen) :
    p.changed t = some (decide (p.haveLastHid = false ∨
      p.lastHid.slice 0 t.actualLength ≠ t.buffer.slice 0 t.actualLength)) := by
  have hle := t.le
  unfold HidProbe.changed
  cases hhave : p.haveLastHid with
  | false => simp
  | true =>
    rw [if_pos rfl, if_pos (by omega)]
    simp

/-- The probe keeps up with one report. -/
theorem report_spec {p : HidProbe} {t : BulkTransfer} (hprobe : p.hidProbe)
    (hlast : p.lastHid.size = hidLen) (hsize : t.buffer.size = hidLen)
    (hdone : t.status = .completed ∧ 0 < t.actualLength) :
    ∃ p', p.report t = some p' ∧ p'.hidProbe = true ∧ p'.haveLastHid = true ∧
      p'.lastHid.toList = overlay p.lastHid.toList (t.buffer.slice 0 t.actualLength) ∧
      p'.printed =
        if p.haveLastHid = false ∨ p'.lastHid.toList ≠ p.lastHid.toList then
          p.printed ++ [t.buffer.slice 0 t.actualLength]
        else p.printed := by
  have hle := t.le
  -- the comparison sees exactly the part of the image that the report would change
  have hsame : p.lastHid.slice 0 t.actualLength = t.buffer.slice 0 t.actualLength ↔
      overlay p.lastHid.toList (t.buffer.slice 0 t.actualLength) = p.lastHid.toList := by
    rw [overlay_eq_self_iff, List.prefix_iff_eq_take, Region.length_slice, Region.toList,
      Region.take_slice _ _ (by omega)]
    exact eq_comm
  unfold HidProbe.report
  rw [if_pos ⟨hprobe, hdone⟩, changed_eq hlast hsize, Option.bind_eq_bind, Option.bind_some]
  by_cases hchanged : p.haveLastHid = false ∨
      p.lastHid.slice 0 t.actualLength ≠ t.buffer.slice 0 t.actualLength
  · obtain ⟨last, hmem⟩ : ∃ last, p.lastHid.memcpy (0 : ℕ) t.buffer (0 : ℕ) t.actualLength =
      some last := ⟨_, Region.memcpy_eq (by omega) (by omega)⟩
    have himage := toList_memcpy (by omega) (by omega) hmem
    rw [if_pos (decide_eq_true hchanged), if_neg (show ¬ t.actualLength > hidLen by omega)]
    simp only [hmem, Option.bind_eq_bind, Option.bind_some, Option.pure_def]
    refine ⟨_, rfl, hprobe, rfl, himage, ?_⟩
    rw [if_pos]
    exact hchanged.imp_right fun hne heq => hne (hsame.mpr (himage.symm.trans heq))
  · rw [if_neg (by simpa using hchanged)]
    rw [not_or, not_not] at hchanged
    refine ⟨p, rfl, hprobe, Bool.eq_true_of_not_eq_false hchanged.1, (hsame.mp hchanged.2).symm, ?_⟩
    rw [if_neg]
    simp [hchanged.1]

/-! ## The whole run -/

/-- The probe after the reports of a run. -/
structure ProbeInv (p : HidProbe) (reports : List (List Byte)) : Prop where
  size : p.lastHid.size = hidLen
  have_iff : p.hidProbe → (p.haveLastHid = false ↔ reports = [])
  image : p.hidProbe → p.lastHid.toList = reports.foldl overlay blank
  printed : p.hidProbe → p.printed = shown reports
  off : p.hidProbe = false → p.printed = []

/-- A report that the probe keeps up with. -/
theorem ProbeInv.concat {p p' : HidProbe} {reports : List (List Byte)} {q : List Byte}
    (hi : ProbeInv p reports) (hon : p.hidProbe) (hon' : p'.hidProbe) (hhave : p'.haveLastHid)
    (hsize : p'.lastHid.size = hidLen) (himage : p'.lastHid.toList = overlay p.lastHid.toList q)
    (hprinted : p'.printed =
      if p.haveLastHid = false ∨ p'.lastHid.toList ≠ p.lastHid.toList then p.printed ++ [q]
      else p.printed) : ProbeInv p' (reports ++ [q]) := by
  refine ⟨hsize, fun _ => ?_, fun _ => ?_, fun _ => ?_, fun hoff => ?_⟩
  · simp [hhave]
  · rw [himage, hi.image hon, List.foldl_concat]
  · rw [hprinted, himage, hi.image hon, hi.printed hon, shown_concat]
    simp only [hi.have_iff hon]
  · exact absurd (hon'.symm.trans hoff) Bool.noConfusion

theorem probeInv_step {s t : Proc} {e : Event} {reports : List (List Byte)}
    (hi : ProbeInv s.probe reports) (hst : machine.Step s e t) :
    ProbeInv t.probe (reports ++ e.report.toList) := by
  obtain ⟨hen, hst⟩ := hst
  cases e with
  | main ok =>
    obtain ⟨t', ht', hprobe⟩ := mainStep_defined ok hen
    obtain rfl := Option.some.inj (hst.symm.trans ht')
    rw [hprobe, Event.report, Option.toList_none, List.append_nil]
    exact hi
  | signal =>
    obtain rfl := Option.some.inj hst
    rw [Event.report, Option.toList_none, List.append_nil]
    exact hi
  | midi x ok =>
    obtain ⟨⟨b, again⟩, hcb, hst⟩ := Option.bind_eq_some_iff.mp hst
    obtain rfl := Option.some.inj hst
    rw [Event.report, Option.toList_none, List.append_nil]
    exact hi
  | audio x status ok =>
    obtain ⟨quit, again, hcb, _⟩ := audioCb_cases s status
    simp only [machine, exec, hcb] at hst
    obtain rfl := Option.some.inj hst
    rw [Event.report, Option.toList_none, List.append_nil]
    exact hi
  | hid x ok =>
    have hsize : x.buffer.size = hidLen := hen.2.2
    obtain ⟨⟨u, again⟩, hcb, hst⟩ := Option.bind_eq_some_iff.mp hst
    obtain rfl := Option.some.inj hst
    change ProbeInv u.probe _
    rcases hidCb_eq_some hcb with ⟨hgone, rfl, -⟩ | ⟨-, ⟨probe, hprobe, rfl⟩, -⟩
    · -- the device is gone: no report
      rw [Event.report, if_neg (by simp [hgone]), Option.toList_none, List.append_nil]
      exact hi
    · change ProbeInv probe _
      by_cases hdone : x.status = .completed ∧ 0 < x.actualLength
      · rw [Event.report, if_pos hdone, Option.toList_some]
        cases hon : s.probe.hidProbe with
        | false =>
          obtain rfl : s.probe = probe := by
            rw [HidProbe.report, if_neg (by simp [hon])] at hprobe
            exact Option.some.inj hprobe
          have hno : ¬ s.probe.hidProbe = true := by simp [hon]
          exact ⟨hi.size, fun h => absurd h hno, fun h => absurd h hno, fun h => absurd h hno,
            hi.off⟩
        | true =>
          obtain ⟨p', hp', hon', hhave, himage, hprinted⟩ := report_spec hon hi.size hsize hdone
          obtain rfl := Option.some.inj (hprobe.symm.trans hp')
          obtain ⟨p'', hp'', hsize'⟩ := s.probe.report_defined x hi.size hsize
          obtain rfl := Option.some.inj (hprobe.symm.trans hp'')
          exact hi.concat hon hon' hhave hsize' himage hprinted
      · obtain rfl : s.probe = probe := by
          rw [HidProbe.report, if_neg fun h => hdone h.2] at hprobe
          exact Option.some.inj hprobe
        rw [Event.report, if_neg hdone, Option.toList_none, List.append_nil]
        exact hi

theorem probeInv {r : Proc × List (List Byte)} (hr : reportMachine.Reach r) :
    ProbeInv r.1.probe r.2 := by
  refine Machine.ReachIf.observe (C := fun _ _ _ => True) (I := fun s reports =>
    ProbeInv s.probe reports) hr ?_ ?_
  · rintro s ⟨_, hprobe, _⟩
    rw [hprobe]
    exact ⟨rfl, fun _ => by simp, fun _ => Region.slice_fill _ _ _ _, fun _ => rfl, fun _ => rfl⟩
  · intro s e t reports _ hi hst _
    exact probeInv_step hi hst

theorem shown_foldl (rs : List (List Byte)) :
    (shown rs).foldl overlay blank = rs.foldl overlay blank := by
  cases rs with
  | nil => rfl
  | cons r rs => rw [shown, List.foldl_cons, foldl_changes, List.foldl_cons]

theorem shown_eq_destutter {n : ℕ} {rs : List (List Byte)} (hlen : ∀ r ∈ rs, r.length = n) :
    shown rs = rs.destutter (· ≠ ·) := by
  cases rs with
  | nil => rfl
  | cons r rs => exact cons_changes_eq_destutter blank r hlen

/-- With `--hid-probe`, in every state of every run: `last_hid` is what the reports
    received leave when they are written over it one after the other, and so are the
    printed ones alone; a report is printed exactly if it is the first or changes
    `last_hid`; and if the reports are of one length, those printed are the ones that
    differ from the one before. Without the flag nothing is printed. -/
theorem hid_probe {r : Proc × List (List Byte)} (hr : reportMachine.Reach r) :
    (r.1.probe.hidProbe →
      r.1.probe.lastHid.toList = r.2.foldl overlay blank ∧
      r.1.probe.printed.foldl overlay blank = r.2.foldl overlay blank ∧
      r.1.probe.printed = shown r.2 ∧
      ∀ n, (∀ q ∈ r.2, q.length = n) → r.1.probe.printed = r.2.destutter (· ≠ ·)) ∧
    (r.1.probe.hidProbe = false → r.1.probe.printed = []) := by
  have hi := probeInv hr
  refine ⟨fun hprobe => ?_, hi.off⟩
  rw [hi.printed hprobe]
  exact ⟨hi.image hprobe, shown_foldl r.2, rfl, fun n hlen => shown_eq_destutter hlen⟩

/-- A HID report that holds `b` in each of its 16 bytes. -/
def plainReport (b : Byte) : BulkTransfer where
  status := .completed
  buffer := Region.fill hidLen b
  actualLength := hidLen
  le := le_refl hidLen

/-- `djm_midi --hid-probe` up to its settling loop, and three reports, of which the second
    repeats the first. -/
def probeRun : List Event :=
  List.replicate 4 (.main true) ++
    [.hid (plainReport 5) true, .hid (plainReport 5) true, .hid (plainReport 7) true]

/-- `djm_midi --no-audio --hid-probe`. -/
def probeStart : Proc :=
  { serviceStart with probe := ⟨true, Region.fill hidLen 0, false, []⟩ }

theorem hid_probe_probeRun : ∃ r, reportMachine.play (probeStart, []) probeRun = some r ∧
    r.1.probe.printed = [List.replicate hidLen 5, List.replicate hidLen 5,
      List.replicate hidLen 7].destutter (· ≠ ·) := by
  have hrun : ∃ r, reportMachine.play (probeStart, []) probeRun = some r ∧
      r.1.probe.hidProbe = true ∧
      r.2 = [List.replicate hidLen 5, List.replicate hidLen 5, List.replicate hidLen 7] :=
    ⟨_, rfl, rfl, rfl⟩
  obtain ⟨r, hplay, hprobe, hreports⟩ := hrun
  have hr := Machine.play_reach (M := reportMachine) ⟨⟨rfl, rfl, rfl, rfl, rfl⟩, rfl⟩ hplay
  obtain ⟨_, _, _, hsame⟩ := (hid_probe hr).1 hprobe
  refine ⟨r, hplay, ?_⟩
  rw [← hreports]
  refine hsame hidLen ?_
  rw [hreports]
  simp

end DjmMidi

end DjmT1.Midi
