import Mathlib

/-!
# Tallies

A log of keyed readings, some of them without a value, is summed up by its keys in the
order in which they first appear (`firsts`) and, for each key, by the number of its
readings and the values among them (`readings`, `values`).

* `firsts_append`: what one more reading does to the keys.
* `firsts_pairwise`, `sum_count_firsts`: the keys are in order, and the numbers of their
  readings sum up to the length of the log.
* `readings_append`, `values_append`, `min?_append_singleton`, `max?_append_singleton`: what
  one more reading does to the summary of a key.
* `argmax_before`: of several keys of the greatest number the first one is chosen.
-/

namespace DjmT1.Lib.Tally

universe u v

/-! ## Keys in order of first appearance -/

section Firsts

variable {κ : Type u} [DecidableEq κ]

/-- The distinct elements of a list, in the order in which they first appear. -/
def firsts (l : List κ) : List κ := l.reverse.dedup.reverse

theorem firsts_append (l : List κ) (a : κ) :
    firsts (l ++ [a]) = if a ∈ l then firsts l else firsts l ++ [a] := by
  rw [firsts, List.reverse_append, List.reverse_singleton, List.singleton_append]
  split_ifs with h
  · rw [List.dedup_cons_of_mem (List.mem_reverse.mpr h), firsts]
  · rw [List.dedup_cons_of_notMem (by rwa [List.mem_reverse]), List.reverse_cons, firsts]

@[simp] theorem firsts_nil : firsts ([] : List κ) = [] := rfl

@[simp] theorem mem_firsts {l : List κ} {a : κ} : a ∈ firsts l ↔ a ∈ l := by simp [firsts]

theorem nodup_firsts (l : List κ) : (firsts l).Nodup := by
  rw [firsts, List.nodup_reverse]
  exact List.nodup_dedup _

/-- The keys are in the order in which they first appear. -/
theorem firsts_pairwise (l : List κ) :
    (firsts l).Pairwise fun a b => l.idxOf a < l.idxOf b := by
  induction l using List.reverseRecOn with
  | nil => exact List.Pairwise.nil
  | append_singleton l c ih =>
    have hold : (firsts l).Pairwise fun a b => (l ++ [c]).idxOf a < (l ++ [c]).idxOf b := by
      refine ih.imp_of_mem fun {a b} ha hb hlt => ?_
      rwa [List.idxOf_append_of_mem (mem_firsts.mp ha), List.idxOf_append_of_mem (mem_firsts.mp hb)]
    rw [firsts_append]
    split_ifs with hc
    · exact hold
    · refine List.pairwise_append.mpr ⟨hold, List.pairwise_singleton _ _, fun a ha b hb => ?_⟩
      obtain rfl := List.mem_singleton.mp hb
      have hlast : (l ++ [b]).idxOf b = l.length + [b].idxOf b := List.idxOf_append_of_notMem hc
      rw [List.idxOf_append_of_mem (mem_firsts.mp ha), hlast]
      have hlt := List.idxOf_lt_length_of_mem (mem_firsts.mp ha)
      omega

/-- The numbers of the keys sum up to the length of the log. -/
theorem sum_count_firsts (l : List κ) : ((firsts l).map fun a => l.count a).sum = l.length := by
  have hperm : (firsts l).Perm l.dedup := by
    rw [List.perm_ext_iff_of_nodup (nodup_firsts l) (List.nodup_dedup l)]
    simp
  rw [(hperm.map _).sum_eq, List.sum_map_count_dedup_eq_length]

end Firsts

/-! ## The readings of one key -/

section Readings

variable {κ : Type u} {ν : Type v} [DecidableEq κ]

/-- The readings of a key. -/
def readings (l : List (κ × Option ν)) (k : κ) : List (Option ν) :=
  (l.filter fun e => e.1 = k).map Prod.snd

/-- The values among them. -/
def values (l : List (κ × Option ν)) (k : κ) : List ν := (readings l k).filterMap id

theorem readings_append (l : List (κ × Option ν)) (e : κ × Option ν) (k : κ) :
    readings (l ++ [e]) k = if e.1 = k then readings l k ++ [e.2] else readings l k := by
  rw [readings, List.filter_append, List.map_append, ← readings]
  split_ifs with h <;> simp [h]

theorem values_append (l : List (κ × Option ν)) (e : κ × Option ν) (k : κ) :
    values (l ++ [e]) k = if e.1 = k then values l k ++ e.2.toList else values l k := by
  rw [values, readings_append]
  split_ifs with h
  · cases h2 : e.2 <;> simp [values]
  · rfl

/-- A key that is not in the log has no readings. -/
theorem readings_of_notMem {l : List (κ × Option ν)} {k : κ} (h : k ∉ l.map Prod.fst) :
    readings l k = [] := by
  rw [readings, List.map_eq_nil_iff, List.filter_eq_nil_iff]
  intro e he hek
  exact h (List.mem_map.mpr ⟨e, he, of_decide_eq_true hek⟩)

theorem length_readings (l : List (κ × Option ν)) (k : κ) :
    (readings l k).length = (l.map Prod.fst).count k := by
  rw [readings, List.length_map, List.count, List.countP_map, ← List.countP_eq_length_filter]
  exact List.countP_congr fun e _ => by simp

end Readings

/-! ## Running extremes -/

section Extremes

variable {ν : Type v} [LinearOrder ν]

theorem min?_append_singleton (l : List ν) (x : ν) :
    (l ++ [x]).min? = some (l.min?.elim x fun m => min m x) := by
  cases l with
  | nil => rfl
  | cons a l => rw [List.cons_append, List.min?_cons', List.min?_cons', List.foldl_append]; rfl

theorem max?_append_singleton (l : List ν) (x : ν) :
    (l ++ [x]).max? = some (l.max?.elim x fun m => max m x) := by
  cases l with
  | nil => rfl
  | cons a l => rw [List.cons_append, List.max?_cons', List.max?_cons', List.foldl_append]; rfl

end Extremes

/-! ## The greatest number -/

section Greatest

variable {κ : Type u} {β : Type v} [LinearOrder β] [DecidableEq κ]

/-- The first element of greatest value is before every other one. -/
theorem argmax_before {f : κ → β} {l : List κ} {m a : κ} {R : κ → κ → Prop}
    (hm : l.argmax f = some m) (hR : l.Pairwise R) (ha : a ∈ l) (hle : f m ≤ f a) (hne : a ≠ m) :
    R m a := by
  obtain ⟨hmem, _, hfirst⟩ := List.argmax_eq_some_iff.mp hm
  have hidx : l.idxOf m ≠ l.idxOf a := fun h => hne ((List.idxOf_inj hmem).mp h).symm
  have hlt : l.idxOf m < l.idxOf a := lt_of_le_of_ne (hfirst a ha hle) hidx
  have hpair := List.pairwise_iff_getElem.mp hR (l.idxOf m) (l.idxOf a)
    (List.idxOf_lt_length_of_mem hmem) (List.idxOf_lt_length_of_mem ha) hlt
  rwa [List.getElem_idxOf, List.getElem_idxOf] at hpair

end Greatest

end DjmT1.Lib.Tally
