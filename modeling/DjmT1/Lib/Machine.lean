import Mathlib

/-!
# Machines: labelled transitions with undefined behaviour

A `Machine` takes one step at a time. `enabled s l` says that step `l` may be
taken in state `s`; `exec s l` is the state after it, and `none` if the program
does something its language leaves undefined (a signed overflow, a division by
zero, an access outside a buffer).

Main results:

* `ReachIf.invariant`: what holds initially and is preserved by every step that
  meets a condition holds in every state reached by such steps.
* `ReachIf.mono`: fewer conditions reach more states.
* `playIf_reachIf`: a state computed by running a list of labels is reachable.
* `play_measure`: a measure that falls with some of the steps bounds their number in a run,
  up to the steps exempted from it.
* `ReachIf.unobserved`: an observer that follows a run adds no state to it.
* `ReachIf.observe`: the induction over a run and its observer.
-/

namespace DjmT1.Lib

universe u v

/-- A machine with states `σ` and step labels `ℓ`. -/
structure Machine (σ : Type u) (ℓ : Type v) where
  init : σ → Prop
  enabled : σ → ℓ → Prop
  exec : σ → ℓ → Option σ

namespace Machine

variable {σ : Type u} {ℓ : Type v}

/-- One defined step. -/
def Step (M : Machine σ ℓ) (s : σ) (l : ℓ) (t : σ) : Prop :=
  M.enabled s l ∧ M.exec s l = some t

/-- No step that may be taken in `s` is undefined. -/
def Defined (M : Machine σ ℓ) (s : σ) : Prop := ∀ l, M.enabled s l → (M.exec s l).isSome

/-- The states reached from an initial state by steps that all satisfy `C`. -/
inductive ReachIf (M : Machine σ ℓ) (C : σ → ℓ → σ → Prop) : σ → Prop
  | init {s : σ} : M.init s → ReachIf M C s
  | step {s t : σ} {l : ℓ} : ReachIf M C s → M.Step s l t → C s l t → ReachIf M C t

/-- The reachable states. -/
abbrev Reach (M : Machine σ ℓ) : σ → Prop := M.ReachIf fun _ _ _ => True

variable {M : Machine σ ℓ} {C D : σ → ℓ → σ → Prop} {s t : σ} {l : ℓ}

/-- Induction over a run: an invariant of the steps that meet `C` holds in
    every state such steps reach. The step case may use that `s` is reachable. -/
theorem ReachIf.invariant {I : σ → Prop} (h : M.ReachIf C s) (h0 : ∀ s, M.init s → I s)
    (hs : ∀ s l t, M.ReachIf C s → I s → M.Step s l t → C s l t → I t) : I s := by
  induction h with
  | init hi => exact h0 _ hi
  | step hr hst hc ih => exact hs _ _ _ hr ih hst hc

theorem ReachIf.mono (h : M.ReachIf C s) (hCD : ∀ s l t, C s l t → D s l t) : M.ReachIf D s := by
  induction h with
  | init hi => exact .init hi
  | step _ hst hc ih => exact .step ih hst (hCD _ _ _ hc)

theorem ReachIf.reach (h : M.ReachIf C s) : M.Reach s := h.mono fun _ _ _ _ => trivial

/-- `M` started in the state `s₀`. -/
def startingAt (M : Machine σ ℓ) (s₀ : σ) : Machine σ ℓ := { M with init := (· = s₀) }

instance (s₀ : σ) [∀ s l, Decidable (M.enabled s l)] (s : σ) (l : ℓ) :
    Decidable ((M.startingAt s₀).enabled s l) :=
  inferInstanceAs (Decidable (M.enabled s l))

/-! ## Running a list of labels -/

section Play

variable (M) (C) [∀ s l, Decidable (M.enabled s l)] [∀ s l t, Decidable (C s l t)]

/-- Take the steps of a list one after the other; `none` if one is not enabled, is
    undefined or does not meet `C`. -/
def playIf (s : σ) : List ℓ → Option σ
  | [] => some s
  | l :: ls =>
    if M.enabled s l then do
      let t ← M.exec s l
      if C s l t then playIf t ls else none
    else none

/-- Take the steps of a list one after the other. -/
abbrev play (s : σ) (ls : List ℓ) : Option σ := M.playIf (fun _ _ _ => True) s ls

/-- How many of the steps of a list `q` picks. -/
def countSteps (M : Machine σ ℓ) (q : σ → ℓ → Bool) (s : σ) : List ℓ → ℕ
  | [] => 0
  | l :: ls => (if q s l then 1 else 0) + (M.exec s l).elim 0 fun t => M.countSteps q t ls

variable {M} {C}

theorem playIf_reachIf {ls : List ℓ} (h0 : M.ReachIf C s) (h : M.playIf C s ls = some t) :
    M.ReachIf C t := by
  induction ls generalizing s with
  | nil => cases h; exact h0
  | cons l ls ih =>
    simp only [playIf] at h
    split_ifs at h with hen
    obtain ⟨u, hu, hrest⟩ := Option.bind_eq_some_iff.mp h
    split_ifs at hrest with hC
    exact ih (.step h0 ⟨hen, hu⟩ hC) hrest

/-- A step, and then the rest of a list. -/
theorem playIf_cons {ls : List ℓ} {u : σ} (h : M.Step s l t) (hC : C s l t)
    (hrest : M.playIf C t ls = some u) : M.playIf C s (l :: ls) = some u := by
  rw [playIf, if_pos h.1, h.2]
  exact (if_pos hC).trans hrest

theorem play_reach {ls : List ℓ} (h0 : M.init s) (h : M.play s ls = some t) : M.Reach t :=
  playIf_reachIf (.init h0) h

/-- Where every step that `p` picks lets a measure fall, and the others do not let it grow,
    a run takes at most as many of the steps picked as the measure was at its start. A step
    that `q` picks may make up for one. -/
theorem play_measure {I : σ → Prop} {μ : σ → ℕ} {p : ℓ → Bool} {q : σ → ℓ → Bool}
    (hstep : ∀ s l t, I s → M.Step s l t →
      I t ∧ μ t + (if p l then 1 else 0) ≤ μ s + (if q s l then 1 else 0))
    {ls : List ℓ} (hs : I s) (h : M.play s ls = some t) :
    I t ∧ μ t + ls.countP p ≤ μ s + M.countSteps q s ls := by
  induction ls generalizing s with
  | nil =>
    obtain rfl := Option.some.inj h
    exact ⟨hs, le_rfl⟩
  | cons l ls ih =>
    simp only [play, playIf, if_true] at h
    split_ifs at h with hen
    obtain ⟨u, hu, hrest⟩ := Option.bind_eq_some_iff.mp h
    obtain ⟨hIu, hμ⟩ := hstep s l u hs ⟨hen, hu⟩
    obtain ⟨hIt, hμt⟩ := ih hIu hrest
    refine ⟨hIt, ?_⟩
    rw [List.countP_cons, countSteps, hu, Option.elim_some]
    omega

end Play

/-! ## Observers -/

section Observe

variable {γ : Type*} {g₀ : σ → γ} {upd : γ → σ → ℓ → σ → γ} {e : σ × γ}

/-- `M` with a value that follows its run: `g₀ s` in an initial state `s`, and
    `upd g s l t` after the step `l` from `s` to `t` if it was `g` before. -/
def observe (M : Machine σ ℓ) (g₀ : σ → γ) (upd : γ → σ → ℓ → σ → γ) : Machine (σ × γ) ℓ where
  init e := M.init e.1 ∧ e.2 = g₀ e.1
  enabled e l := M.enabled e.1 l
  exec e l := (M.exec e.1 l).map fun t => (t, upd e.2 e.1 l t)

instance [∀ s l, Decidable (M.enabled s l)] (e : σ × γ) (l : ℓ) :
    Decidable ((M.observe g₀ upd).enabled e l) :=
  inferInstanceAs (Decidable (M.enabled e.1 l))

/-- A step of the observed machine is a step of `M`, and the observer follows it. -/
theorem step_observe {e f : σ × γ} :
    (M.observe g₀ upd).Step e l f ↔ M.Step e.1 l f.1 ∧ f.2 = upd e.2 e.1 l f.1 := by
  constructor
  · rintro ⟨hen, hex⟩
    obtain ⟨t, ht, rfl⟩ := Option.map_eq_some_iff.mp hex
    exact ⟨⟨hen, ht⟩, rfl⟩
  · rintro ⟨⟨hen, hex⟩, hupd⟩
    refine ⟨hen, Option.map_eq_some_iff.mpr ⟨f.1, hex, ?_⟩⟩
    rw [← hupd]

/-- Forgetting the observer leaves a run of `M`. -/
theorem ReachIf.unobserved (h : (M.observe g₀ upd).ReachIf (fun e l f => C e.1 l f.1) e) :
    M.ReachIf C e.1 := by
  induction h with
  | init h0 => exact .init h0.1
  | step _ hst hc ih => exact .step ih (step_observe.mp hst).1 hc

/-- Induction over an observed run: what an observer starts with and keeps up along the
    steps of `M` holds of it in every state. -/
theorem ReachIf.observe {I : σ → γ → Prop}
    (h : (M.observe g₀ upd).ReachIf (fun e l f => C e.1 l f.1) e) (h0 : ∀ s, M.init s → I s (g₀ s))
    (hs : ∀ s l t g, M.ReachIf C s → I s g → M.Step s l t → C s l t → I t (upd g s l t)) :
    I e.1 e.2 := by
  induction h with
  | @init e h0' =>
    rw [h0'.2]
    exact h0 e.1 h0'.1
  | step hr hst hc ih =>
    obtain ⟨hst, hupd⟩ := step_observe.mp hst
    rw [hupd]
    exact hs _ _ _ _ hr.unobserved ih hst hc

end Observe

end Machine

end DjmT1.Lib
