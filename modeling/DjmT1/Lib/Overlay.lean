import Mathlib

/-!
# Records written over the front of an image

A stream of records, each written over the front of one image, and the records that
change it. A reader who is shown only these can follow the image.

* `foldl_changes`: the changes lead to the same image as all records.
* `changes_append`: how the changes of a stream grow.
* `changes_eq_destutter`: of records of one length, the changes are those that differ
  from the one before.
-/

namespace DjmT1.Lib

variable {α : Type*}

/-- The image after a record has been written over its front. -/
def overlay (image r : List α) : List α := r ++ image.drop r.length

/-- A record leaves the image as it is exactly if the image starts with it. -/
theorem overlay_eq_self_iff {image r : List α} : overlay image r = image ↔ r <+: image := by
  constructor
  · intro h
    exact ⟨image.drop r.length, h⟩
  · rintro ⟨rest, rfl⟩
    rw [overlay, List.drop_left]

theorem take_overlay (image r : List α) : (overlay image r).take r.length = r := by
  rw [overlay, List.take_left]

variable [DecidableEq α]

/-- The records of a stream that change the image. -/
def changes (image : List α) : List (List α) → List (List α)
  | [] => []
  | r :: rs =>
    if overlay image r = image then changes image rs
    else r :: changes (overlay image r) rs

theorem foldl_changes (image : List α) (rs : List (List α)) :
    (changes image rs).foldl overlay image = rs.foldl overlay image := by
  induction rs generalizing image with
  | nil => rfl
  | cons r rs ih =>
    rw [changes, List.foldl_cons]
    split_ifs with hsame
    · rw [ih, hsame]
    · rw [List.foldl_cons, ih]

theorem changes_append (image : List α) (rs ss : List (List α)) :
    changes image (rs ++ ss) = changes image rs ++ changes (rs.foldl overlay image) ss := by
  induction rs generalizing image with
  | nil => rfl
  | cons r rs ih =>
    rw [List.cons_append, changes, changes, List.foldl_cons]
    split_ifs with hsame
    · rw [ih, hsame]
    · rw [ih, List.cons_append]

theorem cons_tail_destutter' {β : Type*} [DecidableEq β] (a : β) (l : List β) :
    a :: (l.destutter' (· ≠ ·) a).tail = l.destutter' (· ≠ ·) a := by
  induction l with
  | nil => rfl
  | cons b l ih =>
    by_cases h : a ≠ b
    · rw [List.destutter'_cons_pos _ h, List.tail_cons]
    · rw [List.destutter'_cons_neg _ h, ih]

/-- Among records of one length, those that differ from the one before. -/
theorem changes_eq_destutter {n : ℕ} (image : List α) {rs : List (List α)}
    (hlen : ∀ r ∈ rs, r.length = n) :
    changes image rs = (rs.destutter' (· ≠ ·) (image.take n)).tail := by
  induction rs generalizing image with
  | nil => rfl
  | cons r rs ih =>
    have hr : r.length = n := hlen r List.mem_cons_self
    have hrs : ∀ r ∈ rs, r.length = n := fun r hmem => hlen r (List.mem_cons_of_mem _ hmem)
    have hsame : overlay image r = image ↔ image.take n = r := by
      rw [overlay_eq_self_iff, List.prefix_iff_eq_take, hr]
      exact eq_comm
    rw [changes]
    split_ifs with h
    · rw [ih image hrs, List.destutter'_cons_neg _ (not_not.mpr (hsame.mp h))]
    · have htake : (overlay image r).take n = r := hr ▸ take_overlay image r
      rw [ih _ hrs, htake, List.destutter'_cons_pos _ fun heq => h (hsame.mpr heq), List.tail_cons]
      exact cons_tail_destutter' r rs

/-- The same if the first record is shown in any case. -/
theorem cons_changes_eq_destutter {n : ℕ} (image r : List α) {rs : List (List α)}
    (hlen : ∀ s ∈ r :: rs, s.length = n) :
    r :: changes (overlay image r) rs = (r :: rs).destutter (· ≠ ·) := by
  have hr : r.length = n := hlen r List.mem_cons_self
  have htake : (overlay image r).take n = r := hr ▸ take_overlay image r
  rw [changes_eq_destutter _ fun s hs => hlen s (List.mem_cons_of_mem _ hs), htake,
    cons_tail_destutter', List.destutter_cons']

end DjmT1.Lib
