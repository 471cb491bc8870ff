import Mathlib

/-!
# Refinement of a specification by calls

An implementation answers calls one after the other, in states `σ`, and may do
something undefined (`none`); a specification answers the same calls in states `τ`.

* `Simulates.run`: an implementation that answers each call as its specification does,
  in related states, answers every sequence of calls as the specification does.
-/

namespace DjmT1.Lib

universe u v w x

variable {σ : Type u} {τ : Type v} {ι : Type w} {ρ : Type x}

/-- The implementation answers a list of calls. -/
def runCalls (step : σ → ι → Option (σ × ρ)) (s : σ) : List ι → Option (σ × List ρ)
  | [] => some (s, [])
  | i :: is => do
    let (s, r) ← step s i
    let (s, rs) ← runCalls step s is
    return (s, r :: rs)

/-- The specification answers a list of calls. -/
def specCalls (spec : τ → ι → τ × ρ) (t : τ) : List ι → τ × List ρ
  | [] => (t, [])
  | i :: is =>
    let rest := specCalls spec (spec t i).1 is
    (rest.1, (spec t i).2 :: rest.2)

/-- In states related by `R`, a call that is `Ok` is defined, is answered as the
    specification answers it, and leaves the states related. -/
def Simulates (Ok : ι → Prop) (step : σ → ι → Option (σ × ρ)) (spec : τ → ι → τ × ρ)
    (R : σ → τ → Prop) : Prop :=
  ∀ s t i, R s t → Ok i → ∃ s', step s i = some (s', (spec t i).2) ∧ R s' (spec t i).1

/-- So is every list of such calls. -/
theorem Simulates.run {Ok : ι → Prop} {step : σ → ι → Option (σ × ρ)} {spec : τ → ι → τ × ρ}
    {R : σ → τ → Prop} (h : Simulates Ok step spec R) {s : σ} {t : τ} (hR : R s t) {is : List ι}
    (his : ∀ i ∈ is, Ok i) :
    ∃ s', runCalls step s is = some (s', (specCalls spec t is).2) ∧
      R s' (specCalls spec t is).1 := by
  induction is generalizing s t with
  | nil => exact ⟨s, rfl, hR⟩
  | cons i is ih =>
    obtain ⟨hi, his⟩ := List.forall_mem_cons.mp his
    obtain ⟨s₁, hs₁, hR₁⟩ := h s t i hR hi
    obtain ⟨s₂, hs₂, hR₂⟩ := ih hR₁ his
    refine ⟨s₂, ?_, hR₂⟩
    simp only [runCalls, Option.bind_eq_bind, Option.pure_def]
    rw [hs₁, Option.bind_some, hs₂, Option.bind_some]
    rfl

end DjmT1.Lib
