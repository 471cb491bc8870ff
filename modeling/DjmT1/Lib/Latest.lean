import Mathlib

/-!
# A log written round and round a ring

The entries of a log are written one after the other into a ring of `B` slots, entry
`j` into slot `j % B`. `Latest` says what the ring then holds.

* `Latest.refl`: nothing has been written.
* `Latest.push`: an entry is written.
-/

namespace DjmT1.Lib

variable {α : Type*} {B since T k : ℕ} {base ring ring' : ℕ → α} {log : List α}

/-- The entries, among those from `since` up to `T`, that are written to slot `k`. -/
def writes (B since T k : ℕ) : Set ℕ := {j | since ≤ j ∧ j < T ∧ j % B = k}

/-- The ring was `base` when the log had `since` entries, and each entry since then has
    been written to its slot: a slot holds the latest one, or what it held before. -/
def Latest (B since : ℕ) (base ring : ℕ → α) (log : List α) : Prop :=
  ∀ k < B, (∃ j, IsGreatest (writes B since log.length k) j ∧ log[j]? = some (ring k)) ∨
    writes B since log.length k = ∅ ∧ ring k = base k

theorem writes_self (B T k : ℕ) : writes B T T k = ∅ := by
  apply Set.eq_empty_of_forall_notMem
  rintro j ⟨hle, hlt, _⟩
  omega

/-- An entry that goes to another slot. -/
theorem writes_succ_ne (h : T % B ≠ k) : writes B since (T + 1) k = writes B since T k := by
  ext j
  constructor
  · rintro ⟨hle, hlt, hk⟩
    refine ⟨hle, ?_, hk⟩
    rcases Nat.lt_succ_iff_lt_or_eq.mp hlt with hlt | rfl
    · exact hlt
    · exact absurd hk h
  · rintro ⟨hle, hlt, hk⟩
    exact ⟨hle, Nat.lt_succ_of_lt hlt, hk⟩

/-- An entry is the latest of its slot. -/
theorem isGreatest_writes (h : since ≤ T) : IsGreatest (writes B since (T + 1) (T % B)) T := by
  constructor
  · exact ⟨h, Nat.lt_succ_self T, rfl⟩
  · rintro j ⟨_, hlt, _⟩
    exact Nat.lt_succ_iff.mp hlt

theorem Latest.refl (B : ℕ) (ring : ℕ → α) (log : List α) : Latest B log.length ring ring log := by
  intro k _
  exact .inr ⟨writes_self B _ k, rfl⟩

theorem Latest.push (h : Latest B since base ring log) (hsince : since ≤ log.length) {x : α}
    (hself : ring' (log.length % B) = x) (hne : ∀ k, k ≠ log.length % B → ring' k = ring k) :
    Latest B since base ring' (log ++ [x]) := by
  intro k hk
  rw [List.length_append, List.length_singleton]
  by_cases hkT : log.length % B = k
  · subst hkT
    refine .inl ⟨log.length, isGreatest_writes hsince, ?_⟩
    rw [List.getElem?_concat_length, hself]
  · rw [writes_succ_ne hkT, hne k (Ne.symm hkT)]
    rcases h k hk with ⟨j, hj, hget⟩ | hkept
    · refine .inl ⟨j, hj, ?_⟩
      rw [List.getElem?_append_left hj.1.2.1, hget]
    · exact .inr hkept

end DjmT1.Lib
