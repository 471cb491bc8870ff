import DjmT1.Tools.Aggregate

/-!
# The quick calibration tool

`summarize` (tools/cal-quick.sh:64-103) counts the messages of each controller in an awk
program. Its arrays are functions from indices, and the order in which `for (cc in cnt)`
visits the indices is left open, as POSIX leaves it: any list that has each index once
(`Traverses`), and another one for each loop.

* `foldl_awkStep`: the arrays hold what `aggregate` holds.
* `bestOf_eq`: the first loop chooses the first of the greatest count on its way.
* `mirrored_crossfader`: two controllers of one count, of which the two tools choose
  different ones.
* `tools_agree`: the tools agree in every order exactly if there are no two such controllers.
-/

namespace DjmT1.Tools

open DjmT1.Lib DjmT1.Lib.Tally

/-! ## The awk program -/

/-- The arrays `cnt`, `mn`, `mx` and `last` (lines 79-82). -/
structure Awk where
  cnt : ℕ → Option ℕ
  mn : ℕ → Option ℤ
  mx : ℕ → Option ℤ
  last : ℕ → Option ℤ

/-- The arrays before the first line. -/
def Awk.empty : Awk := ⟨fun _ => none, fun _ => none, fun _ => none, fun _ => none⟩

/-- Lines 79-82, for a controller and its value. -/
def awkStep (a : Awk) (p : ℕ × ℕ) : Awk :=
  let cc := p.1
  let v : ℤ := p.2
  { cnt := Function.update a.cnt cc (some ((a.cnt cc).getD 0 + 1))
    mn := if (a.mn cc).all fun m => v < m then Function.update a.mn cc (some v) else a.mn
    mx := if (a.mx cc).all fun m => v > m then Function.update a.mx cc (some v) else a.mx
    last := Function.update a.last cc (some v) }

/-- `for (cc in cnt) { if (cnt[cc] > bc) { bc = cnt[cc]; best = cc } }` (line 84). -/
def bestOf (cnt : ℕ → Option ℕ) (order : List ℕ) : Option ℕ :=
  (order.foldl (fun (s : Option ℕ × ℤ) cc =>
    if ((cnt cc).getD 0 : ℕ) > s.2 then (some cc, ((cnt cc).getD 0 : ℕ)) else s) (none, -1)).1

/-- A line of the summary (lines 85-92). -/
structure Line where
  cc : ℕ
  count : ℕ
  min : Option ℤ
  max : Option ℤ
  resting : Option ℤ
  primary : Bool
  deriving DecidableEq

/-- What is printed. -/
structure Summary where
  lines : List Line
  /-- the resting value of `best` and its offset from 64 (lines 93-97) -/
  center : Option (ℤ × ℤ)

/-- `summarize` of messages of controllers, with the orders of the two loops; `none` is
    `NONE captured`. -/
def summarize (detent : Bool) (pairs : List (ℕ × ℕ)) (first second : List ℕ) : Option Summary :=
  if pairs = [] then none
  else
    let a := pairs.foldl awkStep Awk.empty
    let best := bestOf a.cnt first
    some {
      lines := second.map fun cc =>
        ⟨cc, (a.cnt cc).getD 0, a.mn cc, a.mx cc, a.last cc, some cc = best⟩
      center := if detent then (best.bind a.last).map fun r => (r, r - 64) else none }

/-- An order in which `for (cc in arr)` may visit the indices. -/
def Traverses (arr : ℕ → Option ℕ) (order : List ℕ) : Prop :=
  order.Nodup ∧ ∀ cc, cc ∈ order ↔ (arr cc).isSome

/-! ## The arrays -/

/-- A message as a keyed reading. -/
def reading (p : ℕ × ℕ) : ℕ × Option ℤ := (p.1, some (p.2 : ℤ))

/-- `if (!(cc in mn) || v < mn[cc]) mn[cc] = v` keeps the smaller value. -/
theorem update_min (mn : ℕ → Option ℤ) (cc : ℕ) (v : ℤ) :
    (if (mn cc).all fun m => v < m then Function.update mn cc (some v) else mn) =
      Function.update mn cc (some ((mn cc).elim v fun m => min m v)) := by
  cases hm : mn cc with
  | none => simp
  | some m =>
    by_cases hlt : v < m
    · simp [hlt, min_eq_right hlt.le]
    · have hself : Function.update mn cc (some m) = mn := by rw [← hm, Function.update_eq_self]
      simp [hlt, min_eq_left (not_lt.mp hlt), hself]

/-- `if (!(cc in mx) || v > mx[cc]) mx[cc] = v` keeps the greater value. -/
theorem update_max (mx : ℕ → Option ℤ) (cc : ℕ) (v : ℤ) :
    (if (mx cc).all fun m => v > m then Function.update mx cc (some v) else mx) =
      Function.update mx cc (some ((mx cc).elim v fun m => max m v)) := by
  cases hm : mx cc with
  | none => simp
  | some m =>
    by_cases hlt : m < v
    · simp [hlt, max_eq_right hlt.le]
    · have hself : Function.update mx cc (some m) = mx := by rw [← hm, Function.update_eq_self]
      simp [hlt, max_eq_left (not_lt.mp hlt), hself]

/-- The count of a controller, if it has sent a message. -/
def countOf (pairs : List (ℕ × ℕ)) (cc : ℕ) : ℕ := (readings (pairs.map reading) cc).length

theorem countOf_pos {pairs : List (ℕ × ℕ)} {cc : ℕ} :
    0 < countOf pairs cc ↔ cc ∈ pairs.map Prod.fst := by
  have hkeys : (pairs.map reading).map Prod.fst = pairs.map Prod.fst := by simp [reading]
  rw [countOf, length_readings, hkeys, List.count_pos_iff]

/-- The arrays hold the count, the smallest, the greatest and the last value of each
    controller. -/
theorem foldl_awkStep (pairs : List (ℕ × ℕ)) : pairs.foldl awkStep Awk.empty =
    ⟨fun cc => if countOf pairs cc = 0 then none else some (countOf pairs cc),
      fun cc => (values (pairs.map reading) cc).min?,
      fun cc => (values (pairs.map reading) cc).max?,
      fun cc => (values (pairs.map reading) cc).getLast?⟩ := by
  induction pairs using List.reverseRecOn with
  | nil => rfl
  | append_singleton pairs p ih =>
    have hread : (reading p).1 = p.1 ∧ (reading p).2.toList = [(p.2 : ℤ)] := ⟨rfl, rfl⟩
    rw [List.foldl_append, ih, List.foldl_cons, List.foldl_nil, awkStep, update_min, update_max]
    simp only [List.map_append, List.map_singleton, countOf, readings_append, values_append,
      hread.1, hread.2]
    congr 1
    · refine Function.update_eq_iff.mpr ⟨?_, fun cc hcc => by simp [Ne.symm hcc]⟩
      by_cases h0 : (readings (pairs.map reading) p.1).length = 0 <;> simp [h0]
    · refine Function.update_eq_iff.mpr ⟨?_, fun cc hcc => by simp [Ne.symm hcc]⟩
      simp [min?_append_singleton]
    · refine Function.update_eq_iff.mpr ⟨?_, fun cc hcc => by simp [Ne.symm hcc]⟩
      simp [max?_append_singleton]
    · refine Function.update_eq_iff.mpr ⟨?_, fun cc hcc => by simp [Ne.symm hcc]⟩
      simp

/-! ## The primary controller of the awk program -/

/-- The first loop chooses the first index of the greatest count on its way. -/
theorem bestOf_eq (cnt : ℕ → Option ℕ) (order : List ℕ) :
    bestOf cnt order = order.argmax fun cc => (cnt cc).getD 0 := by
  have hfold : order.foldl (fun (s : Option ℕ × ℤ) cc =>
      if ((cnt cc).getD 0 : ℕ) > s.2 then (some cc, ((cnt cc).getD 0 : ℕ)) else s) (none, -1) =
      (order.argmax (fun cc => (cnt cc).getD 0),
        (order.argmax fun cc => (cnt cc).getD 0).elim (-1) fun m => ((cnt m).getD 0 : ℤ)) := by
    induction order using List.reverseRecOn with
    | nil => rfl
    | append_singleton order cc ih =>
      rw [List.foldl_append, ih, List.foldl_cons, List.foldl_nil, List.argmax_concat]
      cases hm : order.argmax fun cc => (cnt cc).getD 0 with
      | none =>
        have hneg : (((cnt cc).getD 0 : ℕ) : ℤ) > -1 := by omega
        simp [hneg]
      | some m =>
        by_cases hlt : (cnt m).getD 0 < (cnt cc).getD 0
        · simp [hlt]
        · simp [hlt]
  rw [bestOf, hfold]

/-! ## The same messages in `calibrate.py` -/

/-- The messages as events of one channel. -/
def ccEvents (ch : ℕ) (pairs : List (ℕ × ℕ)) : List MidiEvent :=
  pairs.map fun p => .cc ch p.1 p.2

/-- The entry of a controller. -/
def ccEntry (ch : ℕ) (pairs : List (ℕ × ℕ)) (cc : ℕ) : Entry :=
  entryOf ((ccEvents ch pairs).map MidiEvent.reading) ⟨.cc, ch, some cc⟩

theorem readings_ccEvents (ch : ℕ) (pairs : List (ℕ × ℕ)) (cc : ℕ) :
    readings ((ccEvents ch pairs).map MidiEvent.reading) ⟨.cc, ch, some cc⟩ =
      readings (pairs.map reading) cc := by
  induction pairs using List.reverseRecOn with
  | nil => rfl
  | append_singleton pairs p ih =>
    have hread : MidiEvent.reading (.cc ch p.1 p.2) = (⟨.cc, ch, some p.1⟩, some (p.2 : ℤ)) := rfl
    rw [ccEvents] at ih ⊢
    simp only [List.map_append, List.map_singleton, hread, readings_append, ih, reading,
      Key.mk.injEq, true_and, Option.some.injEq]

theorem mem_aggregate_ccEvents {ch : ℕ} {pairs : List (ℕ × ℕ)} {a : Entry} :
    a ∈ aggregate (ccEvents ch pairs) ↔ ∃ cc ∈ pairs.map Prod.fst, a = ccEntry ch pairs cc := by
  rw [aggregate_eq, List.mem_map]
  constructor
  · rintro ⟨k, hk, rfl⟩
    obtain ⟨e, he, rfl⟩ := List.mem_map.mp (mem_firsts.mp hk)
    obtain ⟨p, hp, rfl⟩ := List.mem_map.mp he
    exact ⟨p.1, List.mem_map_of_mem hp, rfl⟩
  · rintro ⟨cc, hcc, rfl⟩
    obtain ⟨p, hp, rfl⟩ := List.mem_map.mp hcc
    have he : MidiEvent.cc ch p.1 p.2 ∈ ccEvents ch pairs :=
      List.mem_map_of_mem (f := fun p : ℕ × ℕ => MidiEvent.cc ch p.1 p.2) hp
    exact ⟨_, mem_firsts.mpr (List.mem_map_of_mem he), rfl⟩

/-- A controller that no other one has sent more messages than. -/
def Greatest (pairs : List (ℕ × ℕ)) (cc : ℕ) : Prop :=
  cc ∈ pairs.map Prod.fst ∧ ∀ c ∈ pairs.map Prod.fst, countOf pairs c ≤ countOf pairs cc

/-- `calibrate.py` records a controller of the greatest count. -/
theorem primary_ccEvents {pairs : List (ℕ × ℕ)} (hne : pairs ≠ []) (ch : ℕ) (control : Control)
    (now : String) : ∃ cc, Greatest pairs cc ∧
      (buildRecord control (aggregate (ccEvents ch pairs)) now).primaryCc = some cc ∧
      (buildRecord control (aggregate (ccEvents ch pairs)) now).resting =
        (values (pairs.map reading) cc).getLast? := by
  have hcount : ∀ c, (ccEntry ch pairs c).count = countOf pairs c := fun c =>
    congrArg List.length (readings_ccEvents ch pairs c)
  have hcc : ∃ e ∈ ccEvents ch pairs, e.key.type = .cc := by
    obtain ⟨p, l, rfl⟩ := List.exists_cons_of_ne_nil hne
    exact ⟨_, List.mem_cons_self, rfl⟩
  obtain ⟨a, hprim, hprimary⟩ := primOf_aggregate hcc
  obtain ⟨cc, hmem, rfl⟩ := mem_aggregate_ccEvents.mp hprimary.mem
  refine ⟨cc, ⟨hmem, fun c hc => ?_⟩, ?_, ?_⟩
  · have hle := hprimary.most _ (mem_aggregate_ccEvents.mpr ⟨c, hc, rfl⟩) rfl
    rwa [hcount, hcount] at hle
  · simp only [buildRecord, hprim, Option.bind_some]
    rfl
  · simp only [buildRecord, hprim, Option.bind_some]
    exact congrArg (fun l => (l.filterMap id).getLast?) (readings_ccEvents ch pairs cc)

/-! ## Agreement -/

/-- What the summary prints is what the record says. -/
structure Agrees (control : Control) (agg : List Entry) (rec : Record) (s : Summary) : Prop where
  same : ∀ cc, (∃ line ∈ s.lines, line.cc = cc) ↔ ∃ a ∈ agg, a.number = some cc
  entries : ∀ line ∈ s.lines, ∀ a ∈ agg, a.number = some line.cc → line.count = a.count ∧
    line.min = a.vmin ∧ line.max = a.vmax ∧ line.resting = a.last
  primary : ∀ line ∈ s.lines, line.primary = true ↔ rec.primaryCc = some line.cc
  center : control.detent = true → s.center = rec.resting.map fun r => (r, r - 64)

/-- The two tools agree on messages, for two orders of the loops of the awk program. -/
def ToolsAgree (control : Control) (ch : ℕ) (pairs : List (ℕ × ℕ)) (first second : List ℕ) :
    Prop :=
  match summarize control.detent pairs first second with
  | none => aggregate (ccEvents ch pairs) = []
  | some s => Agrees control (aggregate (ccEvents ch pairs))
      (buildRecord control (aggregate (ccEvents ch pairs)) "") s

/-- The orders that the loops of the awk program may take. -/
theorem traverses_iff {pairs : List (ℕ × ℕ)} {order : List ℕ} :
    Traverses (pairs.foldl awkStep Awk.empty).cnt order ↔
      order.Nodup ∧ ∀ cc, cc ∈ order ↔ cc ∈ pairs.map Prod.fst := by
  rw [Traverses, foldl_awkStep]
  refine and_congr_right fun _ => forall_congr' fun cc => ?_
  rw [← countOf_pos]
  by_cases h0 : countOf pairs cc = 0
  · simp [h0]
  · simp [h0, Nat.pos_of_ne_zero h0]

/-- The count that the first loop compares. -/
theorem getD_cnt (pairs : List (ℕ × ℕ)) (cc : ℕ) :
    ((pairs.foldl awkStep Awk.empty).cnt cc).getD 0 = countOf pairs cc := by
  rw [foldl_awkStep]
  by_cases h0 : countOf pairs cc = 0 <;> simp [h0]

/-- The awk program chooses a controller of the greatest count. -/
theorem bestOf_greatest {pairs : List (ℕ × ℕ)} {order : List ℕ} (hne : pairs ≠ [])
    (h : Traverses (pairs.foldl awkStep Awk.empty).cnt order) :
    ∃ cc, bestOf (pairs.foldl awkStep Awk.empty).cnt order = some cc ∧ Greatest pairs cc := by
  obtain ⟨_, hmem⟩ := traverses_iff.mp h
  obtain ⟨p, l, hpairs⟩ := List.exists_cons_of_ne_nil hne
  have hp : p.1 ∈ order := (hmem p.1).mpr (by simp [hpairs])
  simp only [bestOf_eq, getD_cnt]
  obtain ⟨cc, hcc⟩ := Option.ne_none_iff_exists'.mp
    (mt List.argmax_eq_none.mp (List.ne_nil_of_mem hp) : order.argmax (countOf pairs) ≠ none)
  obtain ⟨hin, hmost, _⟩ := List.argmax_eq_some_iff.mp hcc
  exact ⟨cc, hcc, (hmem cc).mp hin, fun c hc => hmost c ((hmem c).mpr hc)⟩

/-- Any controller of the greatest count may be the one. -/
theorem bestOf_of_greatest {pairs : List (ℕ × ℕ)} {cc : ℕ} (h : Greatest pairs cc) :
    ∃ order, Traverses (pairs.foldl awkStep Awk.empty).cnt order ∧
      bestOf (pairs.foldl awkStep Awk.empty).cnt order = some cc := by
  have hnodup := nodup_firsts (pairs.map Prod.fst)
  refine ⟨cc :: (firsts (pairs.map Prod.fst)).erase cc, traverses_iff.mpr ⟨?_, fun c => ?_⟩, ?_⟩
  · exact List.nodup_cons.mpr ⟨hnodup.not_mem_erase, hnodup.erase cc⟩
  · rw [List.mem_cons, hnodup.mem_erase_iff, mem_firsts]
    constructor
    · rintro (rfl | ⟨_, hc⟩)
      · exact h.1
      · exact hc
    · intro hc
      by_cases hcc : c = cc
      · exact .inl hcc
      · exact .inr ⟨hcc, hc⟩
  · simp only [bestOf_eq, getD_cnt]
    refine List.argmax_eq_some_iff.mpr ⟨List.mem_cons_self, fun c hc => ?_, fun c _ _ => ?_⟩
    · rcases List.mem_cons.mp hc with rfl | hc
      · exact le_rfl
      · exact h.2 c (mem_firsts.mp (List.mem_of_mem_erase hc))
    · rw [List.idxOf_cons_self]
      exact Nat.zero_le _

/-- The tools agree in the orders in which both choose the same controller. -/
theorem toolsAgree_of_primary {control : Control} {ch : ℕ} {pairs : List (ℕ × ℕ)} {cc : ℕ}
    {first second : List ℕ} (hne : pairs ≠ [])
    (hbest : bestOf (pairs.foldl awkStep Awk.empty).cnt first = some cc)
    (hsecond : Traverses (pairs.foldl awkStep Awk.empty).cnt second)
    (hprimary : (buildRecord control (aggregate (ccEvents ch pairs)) "").primaryCc = some cc)
    (hresting : (buildRecord control (aggregate (ccEvents ch pairs)) "").resting =
      (values (pairs.map reading) cc).getLast?) :
    ToolsAgree control ch pairs first second := by
  obtain ⟨_, hmem⟩ := traverses_iff.mp hsecond
  have hvalues : ∀ c, values ((ccEvents ch pairs).map MidiEvent.reading) ⟨.cc, ch, some c⟩ =
      values (pairs.map reading) c := fun c => by rw [values, readings_ccEvents, values]
  simp only [ToolsAgree, summarize, if_neg hne, hbest]
  refine ⟨fun c => ?_, fun line hline a ha hnum => ?_, fun line hline => ?_, fun hdetent => ?_⟩
  · constructor
    · rintro ⟨line, hline, rfl⟩
      obtain ⟨c, hc, rfl⟩ := List.mem_map.mp hline
      exact ⟨_, mem_aggregate_ccEvents.mpr ⟨c, (hmem c).mp hc, rfl⟩, rfl⟩
    · rintro ⟨a, ha, hnum⟩
      obtain ⟨c', hc', rfl⟩ := mem_aggregate_ccEvents.mp ha
      obtain rfl : c' = c := Option.some.inj hnum
      exact ⟨_, List.mem_map_of_mem ((hmem c').mpr hc'), rfl⟩
  · obtain ⟨c, hc, rfl⟩ := List.mem_map.mp hline
    obtain ⟨c', hc', rfl⟩ := mem_aggregate_ccEvents.mp ha
    obtain rfl : c' = c := Option.some.inj hnum
    refine ⟨?_, ?_, ?_, ?_⟩
    · exact (getD_cnt pairs c').trans (congrArg List.length (readings_ccEvents ch pairs c')).symm
    · rw [foldl_awkStep, ccEntry, entryOf, hvalues]
    · rw [foldl_awkStep, ccEntry, entryOf, hvalues]
    · rw [foldl_awkStep, ccEntry, entryOf, hvalues]
  · obtain ⟨c, hc, rfl⟩ := List.mem_map.mp hline
    rw [hprimary, decide_eq_true_iff]
    exact eq_comm
  · rw [if_pos hdetent, hresting, foldl_awkStep, Option.bind_some]

/-- If they agree, the controller the awk program chooses is the one recorded. -/
theorem primary_of_toolsAgree {control : Control} {ch : ℕ} {pairs : List (ℕ × ℕ)} {cc : ℕ}
    {first second : List ℕ} (hcc : cc ∈ pairs.map Prod.fst)
    (hbest : bestOf (pairs.foldl awkStep Awk.empty).cnt first = some cc)
    (hsecond : Traverses (pairs.foldl awkStep Awk.empty).cnt second)
    (h : ToolsAgree control ch pairs first second) :
    (buildRecord control (aggregate (ccEvents ch pairs)) "").primaryCc = some cc := by
  have hne : pairs ≠ [] := by
    rintro rfl
    exact List.not_mem_nil hcc
  simp only [ToolsAgree, summarize, if_neg hne, hbest] at h
  exact (h.primary _ (List.mem_map_of_mem (((traverses_iff.mp hsecond).2 cc).mpr hcc))).mp
    (decide_eq_true rfl)

/-- The crossfader moves: a message of controller 23 and one of its mirror, 24. -/
def mirrored : List (ℕ × ℕ) := [(23, 10), (24, 117)]

def xfader : Control :=
  ⟨"crossfader", "Master", "Crossfader", "crossfader", true⟩

/-- If the array is visited from its second index on, the mirror is the primary controller
    and its value is the center; the record has the other one. -/
theorem mirrored_crossfader :
    Traverses (mirrored.foldl awkStep Awk.empty).cnt [24, 23] ∧
    (summarize true mirrored [24, 23] [24, 23]).map Summary.center = some (some (117, 53)) ∧
    (buildRecord xfader (aggregate (ccEvents 0 mirrored)) "").primaryCc = some 23 ∧
    (buildRecord xfader (aggregate (ccEvents 0 mirrored)) "").resting = some 10 ∧
    ¬ ToolsAgree xfader 0 mirrored [24, 23] [24, 23] := by
  have htraverses : Traverses (mirrored.foldl awkStep Awk.empty).cnt [24, 23] :=
    traverses_iff.mpr ⟨by decide, fun cc => by simp [mirrored, or_comm]⟩
  have hprimary : (buildRecord xfader (aggregate (ccEvents 0 mirrored)) "").primaryCc = some 23 :=
    rfl
  refine ⟨htraverses, rfl, hprimary, rfl, fun h => ?_⟩
  have hmirror := primary_of_toolsAgree (show 24 ∈ mirrored.map Prod.fst by decide) rfl htraverses h
  rw [hprimary] at hmirror
  exact absurd hmirror (by decide)

/-- **The tools agree.** For every log of the messages of one channel, the two tools report
    the same, whatever the orders of the awk program are, exactly if no two controllers have
    sent the greatest number of messages. -/
theorem tools_agree (control : Control) (ch : ℕ) (pairs : List (ℕ × ℕ)) :
    (∀ first second, Traverses (pairs.foldl awkStep Awk.empty).cnt first →
      Traverses (pairs.foldl awkStep Awk.empty).cnt second →
      ToolsAgree control ch pairs first second) ↔
    ∀ a b, Greatest pairs a → Greatest pairs b → a = b := by
  have hall : Traverses (pairs.foldl awkStep Awk.empty).cnt (firsts (pairs.map Prod.fst)) :=
    traverses_iff.mpr ⟨nodup_firsts _, fun cc => mem_firsts⟩
  constructor
  · intro h
    have hchosen : ∀ cc, Greatest pairs cc →
        (buildRecord control (aggregate (ccEvents ch pairs)) "").primaryCc = some cc := by
      intro cc hcc
      obtain ⟨order, horder, hbest⟩ := bestOf_of_greatest hcc
      exact primary_of_toolsAgree hcc.1 hbest hall (h order _ horder hall)
    intro a b ha hb
    exact Option.some.inj ((hchosen a ha).symm.trans (hchosen b hb))
  · intro hunique first second hfirst hsecond
    by_cases hne : pairs = []
    · subst hne
      rfl
    · obtain ⟨p, hp, hprimary, hresting⟩ := primary_ccEvents hne ch control ""
      obtain ⟨cc, hbest, hcc⟩ := bestOf_greatest hne hfirst
      obtain rfl := hunique cc p hcc hp
      exact toolsAgree_of_primary hne hbest hsecond hprimary hresting

end DjmT1.Tools
