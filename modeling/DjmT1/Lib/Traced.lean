import DjmT1.Lib.CInt

/-!
# Evaluation with a record of the intermediate values

A `Traced` computation calculates in exact integers and records what it comes across:
the value of each signed expression, the operands of each remainder, the elements of
each array access. Two readings of such a computation:

* `checked`: with the checks of C put back in, it stops at the first event that is not
  `Defined`. An expression of `int32` and `cmod` is the checked reading of a traced one
  (`checked_value`, `checked_rem`, `checked_bind`).
* `Meets P t Q`: every event of `t` satisfies `P` and its result satisfies `Q`, proved by
  the rules `Meets.bind` and `Meets.forM`, which follow the text of the computation.

`rel_bind` and `rel_foldlM` relate two partial computations that are undefined together.
-/

namespace DjmT1.Lib

universe u v w x

/-- What an evaluation comes across. The signed expressions of the program are named by
    `ι` and its arrays by `β`. -/
inductive Event (ι β : Type)
  /-- the expression `e` has the value `x` -/
  | value (e : ι) (x : ℤ)
  /-- the remainder `a % b` is taken -/
  | rem (a b : ℤ)
  /-- `len` elements of the array `b` are accessed, from index `off` on -/
  | access (b : β) (off : ℤ) (len : ℕ)
  deriving DecidableEq

variable {ι β : Type}

/-- What C requires of the event, for arrays of the given sizes. -/
def Event.Defined (size : β → ℕ) : Event ι β → Prop
  | .value _ x => -2 ^ 31 ≤ x ∧ x < 2 ^ 31
  | .rem a b => b ≠ 0 ∧ -2 ^ 31 ≤ a.tdiv b ∧ a.tdiv b < 2 ^ 31
  | .access b off len => 0 ≤ off ∧ off + len ≤ size b

instance (size : β → ℕ) : DecidablePred (Event.Defined (ι := ι) size)
  | .value _ _ => inferInstanceAs (Decidable (_ ∧ _))
  | .rem _ _ => inferInstanceAs (Decidable (_ ∧ _ ∧ _))
  | .access _ _ _ => inferInstanceAs (Decidable (_ ∧ _))

/-- A computation in exact integers with its events, in order. -/
structure Traced (ι β : Type) (α : Type u) where
  events : List (Event ι β)
  result : α

namespace Traced

instance : Monad (Traced ι β) where
  pure x := ⟨[], x⟩
  bind t f := ⟨t.events ++ (f t.result).events, (f t.result).result⟩

/-- A signed expression. -/
def value (e : ι) (x : ℤ) : Traced ι β ℤ := ⟨[.value e x], x⟩

/-- `a % b` on `int`. -/
def rem (a b : ℤ) : Traced ι β ℤ := ⟨[.rem a b], a.tmod b⟩

/-- An access to `len` elements of the array `b`. -/
def access (b : β) (off : ℤ) (len : ℕ) : Traced ι β Unit := ⟨[.access b off len], ()⟩

variable {α : Type u} {γ : Type u}

@[simp] theorem events_pure (x : α) : (pure x : Traced ι β α).events = [] := rfl

@[simp] theorem result_pure (x : α) : (pure x : Traced ι β α).result = x := rfl

@[simp] theorem events_bind (t : Traced ι β α) (f : α → Traced ι β γ) :
    (t >>= f).events = t.events ++ (f t.result).events := rfl

@[simp] theorem result_bind (t : Traced ι β α) (f : α → Traced ι β γ) :
    (t >>= f).result = (f t.result).result := rfl

/-! ## The checks of C -/

/-- The computation in C: undefined if one of its events is. -/
def checked (size : β → ℕ) (t : Traced ι β α) : Option α :=
  if ∀ e ∈ t.events, e.Defined size then some t.result else none

variable {size : β → ℕ}

theorem checked_eq_some {t : Traced ι β α} {x : α} :
    t.checked size = some x ↔ (∀ e ∈ t.events, e.Defined size) ∧ t.result = x := by
  unfold checked
  split_ifs with h
  · rw [Option.some_inj]
    exact ⟨fun hx => ⟨h, hx⟩, fun hx => hx.2⟩
  · exact iff_of_false (by simp) fun hx => h hx.1

theorem isSome_checked {t : Traced ι β α} :
    (t.checked size).isSome ↔ ∀ e ∈ t.events, e.Defined size := by
  rw [Option.isSome_iff_exists]
  simp [checked_eq_some]

@[simp] theorem checked_pure (x : α) : (pure x : Traced ι β α).checked size = some x := by
  simp [checked]

@[simp] theorem checked_bind (t : Traced ι β α) (f : α → Traced ι β γ) :
    (t >>= f).checked size = (t.checked size).bind fun x => (f x).checked size := by
  simp only [checked, events_bind, result_bind, List.forall_mem_append]
  by_cases ht : ∀ e ∈ t.events, e.Defined size
  · rw [if_pos ht, Option.bind_some]
    simp only [and_iff_right ht]
  · rw [if_neg ht, Option.bind_none, if_neg fun h => ht h.1]

@[simp] theorem checked_value (e : ι) (x : ℤ) :
    (value e x : Traced ι β ℤ).checked size = int32 x := by
  simp [checked, value, Event.Defined, int32]

@[simp] theorem checked_rem (a b : ℤ) : (rem a b : Traced ι β ℤ).checked size = cmod a b := by
  simp only [checked, rem, List.mem_singleton, forall_eq, Event.Defined, cmod, int32]
  by_cases hb : b = 0
  · simp only [hb, ne_eq, not_true, false_and, if_false, if_true]
  · simp only [hb, ne_eq, not_false_eq_true, true_and, if_false]
    split_ifs <;> rfl

@[simp] theorem checked_access (b : β) (off : ℤ) (len : ℕ) :
    (access b off len : Traced ι β Unit).checked size =
      if 0 ≤ off ∧ off + len ≤ size b then some () else none := by
  simp [checked, access, Event.Defined]

/-- The checked reading of a loop is the loop over the checked bodies. -/
theorem checked_forM {κ : Type w} (l : List κ) (f : κ → Traced ι β PUnit.{u + 1}) :
    (forM l f).checked size = forM l fun i => (f i).checked size := by
  induction l with
  | nil => exact checked_pure _
  | cons i l ih => rw [List.forM_cons, checked_bind, ih]; rfl

/-! ## Rules -/

/-- Every event of `t` satisfies `P`, and its result satisfies `Q`. -/
def Meets (P : Event ι β → Prop) (t : Traced ι β α) (Q : α → Prop) : Prop :=
  (∀ e ∈ t.events, P e) ∧ Q t.result

variable {P : Event ι β → Prop} {t : Traced ι β α} {Q Q' : α → Prop}

theorem Meets.mono (h : Meets P t Q) (hQ : ∀ x, Q x → Q' x) : Meets P t Q' := ⟨h.1, hQ _ h.2⟩

theorem Meets.pure {x : α} (h : Q x) : Meets P (pure x) Q := ⟨by simp, h⟩

theorem Meets.bind {f : α → Traced ι β γ} {Q' : γ → Prop} (h : Meets P t Q)
    (hf : ∀ x, Q x → Meets P (f x) Q') : Meets P (t >>= f) Q' := by
  obtain ⟨hevents, hresult⟩ := hf t.result h.2
  refine ⟨?_, hresult⟩
  rw [events_bind, List.forall_mem_append]
  exact ⟨h.1, hevents⟩

theorem Meets.value {e : ι} {x : ℤ} (h : P (.value e x)) : Meets P (value e x) fun y => y = x :=
  ⟨by simpa [Traced.value] using h, rfl⟩

theorem Meets.rem {a b : ℤ} (h : P (.rem a b)) : Meets P (rem a b) fun y => y = a.tmod b :=
  ⟨by simpa [Traced.rem] using h, rfl⟩

theorem Meets.access {b : β} {off : ℤ} {len : ℕ} (h : P (.access b off len)) :
    Meets P (access b off len) fun _ => True :=
  ⟨by simpa [Traced.access] using h, trivial⟩

/-- A loop whose bodies meet `P` meets `P`. -/
theorem Meets.forM {κ : Type w} {l : List κ} {f : κ → Traced ι β PUnit.{u + 1}}
    (h : ∀ i ∈ l, Meets P (f i) fun _ => True) : Meets P (forM l f) fun _ => True := by
  induction l with
  | nil => exact .pure trivial
  | cons i l ih =>
    obtain ⟨hi, hl⟩ := List.forall_mem_cons.mp h
    rw [List.forM_cons]
    exact hi.bind fun _ _ => ih hl

end Traced

/-! ## Partial computations that are undefined together -/

variable {σ : Type u} {τ : Type v} {σ' : Type w} {τ' : Type x}

theorem rel_isSome {r : σ → τ → Prop} {a : Option σ} {b : Option τ} (h : Option.Rel r a b) :
    a.isSome ↔ b.isSome := by
  cases h with
  | some _ => exact Iff.rfl
  | none => exact Iff.rfl

/-- The second computation ends with what is related to the end of the first. -/
theorem rel_some {r : σ → τ → Prop} {x : σ} {b : Option τ} (h : Option.Rel r (some x) b) :
    ∃ y, b = some y ∧ r x y := by
  cases h with
  | some hxy => exact ⟨_, rfl, hxy⟩

theorem rel_mono {r r' : σ → τ → Prop} {a : Option σ} {b : Option τ} (h : Option.Rel r a b)
    (hr : ∀ x y, r x y → r' x y) : Option.Rel r' a b := by
  cases h with
  | some hxy => exact .some (hr _ _ hxy)
  | none => exact .none

theorem rel_bind {r : σ → τ → Prop} {r' : σ' → τ' → Prop} {a : Option σ} {b : Option τ}
    {f : σ → Option σ'} {g : τ → Option τ'} (h : Option.Rel r a b)
    (hfg : ∀ x y, r x y → Option.Rel r' (f x) (g y)) : Option.Rel r' (a.bind f) (b.bind g) := by
  cases h with
  | some hxy => exact hfg _ _ hxy
  | none => exact .none

theorem rel_bind_some {r : σ → τ → Prop} {r' : σ' → τ → Prop} {a : Option σ} {b : Option τ}
    {f : σ → σ'} (h : Option.Rel r a b) (hf : ∀ x y, r x y → r' (f x) y) :
    Option.Rel r' (a.bind fun x => some (f x)) b := by
  cases h with
  | some hxy => exact .some (hf _ _ hxy)
  | none => exact .none

/-- The rule of a loop over a state and a loop that only checks, with an invariant of the
    state. -/
theorem rel_foldlM {κ : Type v} {f : σ → κ → Option σ} {g : κ → Option PUnit.{w + 1}}
    {I : σ → Prop} (l : List κ) {s : σ} (h0 : I s)
    (hs : ∀ i s, I s → Option.Rel (fun t _ => I t) (f s i) (g i)) :
    Option.Rel (fun t _ => I t) (l.foldlM f s) (forM l g) := by
  induction l generalizing s with
  | nil => exact .some h0
  | cons i l ih =>
    rw [List.foldlM_cons, List.forM_cons]
    exact rel_bind (hs i s h0) fun t _ ht => ih ht

end DjmT1.Lib
