import Mathlib

/-!
# Counted loops

`for (i = 0; i < n; i++) s = body(s, i)` is `(List.range n).foldlM body s`, which
stops at the first undefined iteration. `loop_spec` is the rule of such a loop:
an invariant indexed by the iteration, kept by every iteration, holds at the
end, and the loop is defined. `loop_keeps` is the rule of a loop that is known to
have ended: what every iteration keeps, the loop keeps.
-/

namespace DjmT1.Lib

universe u

/-- The rule of a counted loop. -/
theorem loop_spec {σ : Type u} (body : σ → ℕ → Option σ) (I : ℕ → σ → Prop) (n : ℕ) {s : σ}
    (h0 : I 0 s) (hs : ∀ i s, i < n → I i s → ∃ t, body s i = some t ∧ I (i + 1) t) :
    ∃ t, (List.range n).foldlM body s = some t ∧ I n t := by
  induction n with
  | zero => exact ⟨s, rfl, h0⟩
  | succ n ih =>
    obtain ⟨t, ht, hI⟩ := ih fun i s hi => hs i s (by omega)
    obtain ⟨u, hu, hI'⟩ := hs n t (by omega) hI
    refine ⟨u, ?_, hI'⟩
    rw [List.range_succ, List.foldlM_append, ht]
    simp [hu]

/-- The rule of a loop that has ended. -/
theorem loop_keeps {σ : Type u} {body : σ → ℕ → Option σ} (I : σ → Prop) {n : ℕ} {s t : σ}
    (h : (List.range n).foldlM body s = some t) (h0 : I s)
    (hs : ∀ i s t, i < n → body s i = some t → I s → I t) : I t := by
  induction n generalizing t with
  | zero =>
    obtain rfl := Option.some.inj h
    exact h0
  | succ n ih =>
    rw [List.range_succ, List.foldlM_append, Option.bind_eq_bind] at h
    obtain ⟨u, hu, hlast⟩ := Option.bind_eq_some_iff.mp h
    rw [List.foldlM_cons, Option.bind_eq_bind] at hlast
    obtain ⟨v, hv, hnil⟩ := Option.bind_eq_some_iff.mp hlast
    obtain rfl := Option.some.inj hnil
    exact hs n u v (by omega) hv (ih hu fun i s t hi => hs i s t (by omega))

end DjmT1.Lib
