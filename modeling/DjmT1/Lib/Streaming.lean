import DjmT1.Lib.Machine

/-!
# A program that streams through a set of transfers

The program submits its transfers, handles events while it is `running`, then cancels
the transfers, handles events until none is in flight, and gives the device back. The
callback of a transfer that has come back submits it again if the program is still
`running`. There is one thread: callbacks run while it handles events. A signal may clear
`running` at any moment.

`Program` is what differs from program to program: what is done to a transfer before it
is submitted, and with one that has come back. Giving the device back with a transfer in
flight is undefined.

* `Inv.step`, `inv`: the count of transfers in flight is right, and those in flight when
  the program waits for the last of them have been cancelled.
* `Inv.drain_shrinks`: from the cancelling on, no transfer is submitted.
* `keeps`: what the program's own functions keep, every run keeps, and it is defined.
* `windsUp`: how the program ends.
* `log_replay`: the program's own state follows from what was sent and what came back.
-/

namespace DjmT1.Lib.Streaming

universe u

/-- The functions of a program with `n` transfers, on its own state. `ρ` is what a
    transfer brings back. -/
structure Program (α : Type u) (ρ : Type u) (n : ℕ) where
  /-- before a transfer is submitted for the first time -/
  prepare : α → Fin n → Option α
  /-- with a transfer that has come back -/
  receive : α → Fin n → ρ → Option α
  /-- before it is submitted again -/
  refill : α → Fin n → Option α

/-- Where `main` is. -/
inductive MainPc (n : ℕ)
  /-- submitting the transfers for the first time, with those yet to come -/
  | submit (rest : List (Fin n))
  /-- at `while (running)` -/
  | loop
  /-- handling events in that loop -/
  | events
  /-- cancelling the transfers, with those yet to come -/
  | cancel (rest : List (Fin n))
  /-- at `while (inflight > 0)` -/
  | drain
  /-- handling events in that loop -/
  | drainEvents
  /-- giving the device back, in `k` steps -/
  | close (k : ℕ)
  deriving DecidableEq, Repr

/-- Where the callback is. -/
inductive CallbackPc (ρ : Type u) (n : ℕ)
  | receive (i : Fin n) (r : ρ)
  /-- before it reads `running` -/
  | test (i : Fin n)
  /-- before it submits the transfer again -/
  | submit (i : Fin n)
  /-- before `inflight--` -/
  | leave (i : Fin n)

/-- The transfer whose callback is executing. -/
def CallbackPc.xfer {ρ : Type u} {n : ℕ} : CallbackPc ρ n → Fin n
  | .receive i _ | .test i | .submit i | .leave i => i

/-- The program, with the transfers that are in flight and those of them that have been
    cancelled. -/
structure Proc (α : Type u) (ρ : Type u) (n : ℕ) where
  app : α
  running : Bool
  inflight : ℤ
  flying : Finset (Fin n)
  cancelled : Finset (Fin n)
  main : MainPc n
  callback : Option (CallbackPc ρ n)

/-- What happens next. `ok` says whether a submission is accepted, and at the end of the
    handling of events, whether the program has to stop. -/
inductive Label (ρ : Type u) (n : ℕ)
  | signal
  | main (ok : Bool)
  /-- a transfer comes back -/
  | complete (i : Fin n) (r : ρ)
  | callback (ok : Bool)

section

variable {α : Type u} {ρ : Type u} {n : ℕ}

/-- The program handles events. -/
def MainPc.handles : MainPc n → Bool
  | .events | .drainEvents => true
  | .submit _ | .loop | .cancel _ | .drain | .close _ => false

def enabled (s : Proc α ρ n) : Label ρ n → Prop
  | .signal => True
  | .main _ => s.callback.isNone ∧ s.main ≠ .close 0
  | .complete i _ => i ∈ s.flying ∧ s.main.handles ∧ s.callback.isNone
  | .callback _ => s.callback.isSome

/-- A step of `main`. The device is given back only with nothing in flight. -/
def mainExec (P : Program α ρ n) (s : Proc α ρ n) (ok : Bool) : Option (Proc α ρ n) :=
  match s.main with
  | .submit (i :: rest) => do
    let app ← P.prepare s.app i
    return if ok then { s with
        app, flying := insert i s.flying, inflight := s.inflight + 1, main := .submit rest }
      else { s with app, main := .submit rest }
  | .submit [] => some { s with main := .loop }
  | .loop =>
    if s.running then some { s with main := .events }
    else some { s with main := .cancel (List.finRange n) }
  | .events => some { s with running := s.running && !ok, main := .loop }
  | .cancel (i :: rest) =>
    some { s with cancelled := if i ∈ s.flying then insert i s.cancelled else s.cancelled
                  main := .cancel rest }
  | .cancel [] => some { s with main := .drain }
  | .drain => some { s with main := if s.inflight > 0 then .drainEvents else .close 4 }
  | .drainEvents => some { s with main := .drain }
  | .close 0 => none
  | .close (k + 1) => if s.flying = ∅ then some { s with main := .close k } else none

/-- A step of the callback. -/
def callbackExec (P : Program α ρ n) (s : Proc α ρ n) (ok : Bool) : Option (Proc α ρ n) :=
  match s.callback with
  | none => none
  | some (.receive i r) => do
    let app ← P.receive s.app i r
    return { s with app, callback := some (.test i) }
  | some (.test i) => some { s with callback := some (if s.running then .submit i else .leave i) }
  | some (.submit i) => do
    let app ← P.refill s.app i
    return if ok then { s with app, flying := insert i s.flying, callback := none }
      else { s with app, callback := some (.leave i) }
  | some (.leave _) => some { s with inflight := s.inflight - 1, callback := none }

def exec (P : Program α ρ n) (s : Proc α ρ n) : Label ρ n → Option (Proc α ρ n)
  | .signal => some { s with running := false }
  | .main ok => mainExec P s ok
  | .complete i r => some { s with
      flying := s.flying.erase i, cancelled := s.cancelled.erase i
      callback := some (.receive i r) }
  | .callback ok => callbackExec P s ok

/-- The program before its first transfer, with the state `a` of its own. -/
def start (a : α) : Proc α ρ n := ⟨a, true, 0, ∅, ∅, .submit (List.finRange n), none⟩

/-- The program as a machine. -/
def machine (P : Program α ρ n) (a : α) : Machine (Proc α ρ n) (Label ρ n) where
  init := (· = start a)
  enabled := enabled
  exec := exec P

instance (s : Proc α ρ n) : (l : Label ρ n) → Decidable (enabled s l)
  | .signal => inferInstanceAs (Decidable True)
  | .main _ => inferInstanceAs (Decidable (_ ∧ _))
  | .complete _ _ => inferInstanceAs (Decidable (_ ∧ _ ∧ _))
  | .callback _ => inferInstanceAs (Decidable (_ = true))

instance (P : Program α ρ n) (a : α) (s : Proc α ρ n) (l : Label ρ n) :
    Decidable ((machine P a).enabled s l) :=
  inferInstanceAs (Decidable (enabled s l))

variable {P : Program α ρ n} {a : α} {s t : Proc α ρ n}

/-! ## The transfers in flight -/

/-- The program has left `while (running)`. -/
def MainPc.ending : MainPc n → Bool
  | .submit _ | .loop | .events => false
  | .cancel _ | .drain | .drainEvents | .close _ => true

/-- The transfers that `main` has yet to submit, and those it has yet to cancel. -/
def MainPc.toSubmit : MainPc n → List (Fin n)
  | .submit rest => rest
  | _ => []

def MainPc.toCancel : MainPc n → List (Fin n)
  | .cancel rest => rest
  | _ => []

/-- `main` is giving the device back, or has. -/
def MainPc.closing : MainPc n → Bool
  | .close _ => true
  | _ => false

/-- The count is the number of transfers in flight, and of the one whose callback is
    executing; from the cancelling on nothing is submitted, and what is in flight has been
    or will be cancelled. -/
structure Inv (s : Proc α ρ n) : Prop where
  count : s.inflight = s.flying.card + if s.callback.isSome then 1 else 0
  owner : ∀ c ∈ s.callback, c.xfer ∉ s.flying
  events : s.callback.isSome → s.main.handles
  submit : s.main.toSubmit.Nodup ∧ ∀ i ∈ s.main.toSubmit, i ∉ s.flying
  stopped : s.main.ending → s.running = false ∧ ∀ i, s.callback ≠ some (.submit i)
  cancel : s.main.ending → ∀ i ∈ s.flying, i ∈ s.cancelled ∨ i ∈ s.main.toCancel
  closed : s.main.closing → s.flying = ∅

theorem start_inv (a : α) : Inv (start a : Proc α ρ n) :=
  ⟨rfl, fun _ hc => absurd hc (Option.not_mem_none _), fun h => absurd h Bool.false_ne_true,
    ⟨List.nodup_finRange n, fun _ _ => Finset.notMem_empty _⟩,
    fun h => absurd h Bool.false_ne_true, fun h => absurd h Bool.false_ne_true, fun _ => rfl⟩

/-- `main` goes on, with the transfers as they are and no callback executing. -/
theorem Inv.goto (h : Inv s) (hnone : s.callback.isNone) {pc : MainPc n} {running : Bool}
    (hsubmit : pc.toSubmit = []) (hrun : pc.ending → running = false)
    (hcancel : pc.ending → ∀ i ∈ s.flying, i ∈ s.cancelled ∨ i ∈ pc.toCancel)
    (hclosed : pc.closing → s.flying = ∅) : Inv { s with running, main := pc } := by
  have hcb : s.callback = none := Option.isNone_iff_eq_none.mp hnone
  refine ⟨h.count, h.owner, ?_, ?_, ?_, hcancel, hclosed⟩
  · intro hsome
    simp [hcb] at hsome
  · show pc.toSubmit.Nodup ∧ ∀ i ∈ pc.toSubmit, i ∉ s.flying
    rw [hsubmit]
    exact ⟨List.nodup_nil, fun i hi => absurd hi List.not_mem_nil⟩
  · intro hend
    refine ⟨hrun hend, fun i hi => ?_⟩
    have hi : s.callback = some (.submit i) := hi
    rw [hcb] at hi
    cases hi

/-- A step of `main`. -/
theorem Inv.main (h : Inv s) {ok : Bool} (hnone : s.callback.isNone)
    (hst : mainExec P s ok = some t) : Inv t := by
  have hcb : s.callback = none := Option.isNone_iff_eq_none.mp hnone
  have hcount : s.inflight = s.flying.card := by
    rw [h.count, hcb]
    simp
  unfold mainExec at hst
  cases hm : s.main with
  | submit rest =>
    obtain ⟨hnd, hidle⟩ := h.submit
    rw [hm] at hst hnd hidle
    cases rest with
    | nil =>
      obtain rfl := Option.some.inj hst
      exact h.goto hnone rfl (fun he => absurd he Bool.false_ne_true)
        (fun he => absurd he Bool.false_ne_true) fun hc => absurd hc Bool.false_ne_true
    | cons i rest =>
      obtain ⟨app, _, hst⟩ := Option.bind_eq_some_iff.mp hst
      obtain ⟨hi, hnd⟩ := List.nodup_cons.mp hnd
      have hrest : ∀ j ∈ rest, j ∉ s.flying := fun j hj => hidle j (List.mem_cons_of_mem i hj)
      cases ok with
      | false =>
        obtain rfl := Option.some.inj hst
        rw [if_neg Bool.false_ne_true]
        refine ⟨h.count, h.owner, fun hsome => ?_, ⟨hnd, hrest⟩, fun he => ?_, fun he => ?_,
          fun hc => ?_⟩
        · simp [hcb] at hsome
        · cases he
        · cases he
        · cases hc
      | true =>
        obtain rfl := Option.some.inj hst
        rw [if_pos rfl]
        refine ⟨?_, ?_, fun hsome => ?_, ⟨hnd, ?_⟩, fun he => ?_, fun he => ?_, fun hc => ?_⟩
        · show s.inflight + 1 = ((insert i s.flying).card : ℤ) + if s.callback.isSome then 1 else 0
          rw [hcb, Finset.card_insert_of_notMem (hidle i List.mem_cons_self), hcount]
          simp
        · intro c hc
          simp [hcb] at hc
        · simp [hcb] at hsome
        · intro j hj
          rw [Finset.mem_insert, not_or]
          exact ⟨fun he => hi (he ▸ hj), hrest j hj⟩
        · cases he
        · cases he
        · cases hc
  | loop =>
    rw [hm] at hst
    simp only at hst
    split_ifs at hst with hrun
    · obtain rfl := Option.some.inj hst
      exact h.goto hnone rfl (fun he => absurd he Bool.false_ne_true)
        (fun he => absurd he Bool.false_ne_true) fun hc => absurd hc Bool.false_ne_true
    · obtain rfl := Option.some.inj hst
      exact h.goto hnone rfl (fun _ => by simpa using hrun)
        (fun _ i _ => .inr (List.mem_finRange i)) fun hc => absurd hc Bool.false_ne_true
  | events =>
    rw [hm] at hst
    obtain rfl := Option.some.inj hst
    exact h.goto hnone rfl (fun he => absurd he Bool.false_ne_true)
      (fun he => absurd he Bool.false_ne_true) fun hc => absurd hc Bool.false_ne_true
  | cancel rest =>
    have hrun := (h.stopped (by rw [hm]; rfl)).1
    have hcancel := h.cancel (by rw [hm]; rfl)
    rw [hm] at hst hcancel
    cases rest with
    | nil =>
      obtain rfl := Option.some.inj hst
      refine h.goto hnone rfl (fun _ => hrun) (fun _ i hi => ?_)
        fun hc => absurd hc Bool.false_ne_true
      exact (hcancel i hi).imp_right fun hm => absurd hm List.not_mem_nil
    | cons j rest =>
      obtain rfl := Option.some.inj hst
      refine ⟨h.count, h.owner, fun hsome => ?_, ⟨List.nodup_nil, fun i hi => ?_⟩,
        fun _ => ⟨hrun, fun i hi => ?_⟩, fun _ i hi => ?_, fun hc => ?_⟩
      · simp [hcb] at hsome
      · cases hi
      · simp [hcb] at hi
      · show i ∈ (if j ∈ s.flying then insert j s.cancelled else s.cancelled) ∨ i ∈ rest
        rcases hcancel i hi with hc | hc
        · left
          split_ifs
          · exact Finset.mem_insert_of_mem hc
          · exact hc
        · rcases List.mem_cons.mp hc with rfl | hc
          · rw [if_pos hi]
            exact .inl (Finset.mem_insert_self i s.cancelled)
          · exact .inr hc
      · cases hc
  | drain =>
    have hrun := (h.stopped (by rw [hm]; rfl)).1
    have hcancel := h.cancel (by rw [hm]; rfl)
    rw [hm] at hst hcancel
    obtain rfl := Option.some.inj hst
    by_cases hpos : s.inflight > 0
    · simp only [if_pos hpos]
      exact h.goto hnone rfl (fun _ => hrun) (fun _ => hcancel)
        fun hc => absurd hc Bool.false_ne_true
    · have hempty : s.flying = ∅ := Finset.card_eq_zero.mp (by omega)
      simp only [if_neg hpos]
      exact h.goto hnone rfl (fun _ => hrun) (fun _ => hcancel) fun _ => hempty
  | drainEvents =>
    have hrun := (h.stopped (by rw [hm]; rfl)).1
    have hcancel := h.cancel (by rw [hm]; rfl)
    rw [hm] at hst hcancel
    obtain rfl := Option.some.inj hst
    exact h.goto hnone rfl (fun _ => hrun) (fun _ => hcancel)
      fun hc => absurd hc Bool.false_ne_true
  | close k =>
    have hrun := (h.stopped (by rw [hm]; rfl)).1
    have hempty := h.closed (by rw [hm]; rfl)
    rw [hm] at hst
    cases k with
    | zero => cases hst
    | succ k =>
      simp only [if_pos hempty] at hst
      obtain rfl := Option.some.inj hst
      refine h.goto hnone rfl (fun _ => hrun) (fun _ i hi => ?_) fun _ => hempty
      rw [hempty] at hi
      exact absurd hi (Finset.notMem_empty i)

/-- A step of the callback. -/
theorem Inv.callback (h : Inv s) {ok : Bool} (hst : callbackExec P s ok = some t) : Inv t := by
  unfold callbackExec at hst
  cases hc : s.callback with
  | none => rw [hc] at hst; cases hst
  | some c =>
    have howner := h.owner c hc
    have hevents := h.events (by rw [hc]; rfl)
    have hcount : s.inflight = s.flying.card + 1 := by
      rw [h.count, hc]
      simp
    rw [hc] at hst
    cases c with
    | receive i r =>
      obtain ⟨app, _, hst⟩ := Option.bind_eq_some_iff.mp hst
      obtain rfl := Option.some.inj hst
      refine ⟨hcount.trans (by simp), ?_, fun _ => hevents, h.submit, ?_, h.cancel, h.closed⟩
      · rintro _ ⟨⟩
        exact howner
      · intro he
        exact ⟨(h.stopped he).1, fun j hj => by cases hj⟩
    | test i =>
      obtain rfl := Option.some.inj hst
      refine ⟨hcount.trans (by simp), ?_, fun _ => hevents, h.submit, ?_, h.cancel, h.closed⟩
      · rintro _ ⟨⟩
        split_ifs
        · exact howner
        · exact howner
      · intro he
        have hrun := (h.stopped he).1
        refine ⟨hrun, fun j hj => ?_⟩
        simp [hrun] at hj
    | submit i =>
      obtain ⟨app, _, hst⟩ := Option.bind_eq_some_iff.mp hst
      have hgoing : s.main.ending = false := by
        by_contra he
        exact (h.stopped (by simpa using he)).2 i hc
      have hmain : s.main = .events := by
        cases hm : s.main with
        | events => rfl
        | drainEvents => rw [hm] at hgoing; cases hgoing
        | _ => rw [hm] at hevents; cases hevents
      cases ok with
      | false =>
        obtain rfl := Option.some.inj hst
        rw [if_neg Bool.false_ne_true]
        refine ⟨hcount.trans (by simp), ?_, fun _ => hevents, h.submit, ?_, h.cancel, h.closed⟩
        · rintro _ ⟨⟩
          exact howner
        · intro he
          exact ⟨(h.stopped he).1, fun j hj => by cases hj⟩
      | true =>
        obtain rfl := Option.some.inj hst
        rw [if_pos rfl]
        refine ⟨?_, fun c hc => absurd hc (Option.not_mem_none c),
          fun hs => absurd hs Bool.false_ne_true, ?_, fun he => ?_, fun he => ?_, fun hcl => ?_⟩
        · simp only [Option.isSome_none, Bool.false_eq_true, if_false, hcount, add_zero]
          rw [Finset.card_insert_of_notMem (show i ∉ s.flying from howner)]
          push_cast
          rfl
        · simp only [hmain]
          exact ⟨List.nodup_nil, fun j hj => by cases hj⟩
        · simp only [hmain] at he
          cases he
        · simp only [hmain] at he
          cases he
        · simp only [hmain] at hcl
          cases hcl
    | leave i =>
      obtain rfl := Option.some.inj hst
      refine ⟨?_, fun c hc => absurd hc (Option.not_mem_none c),
        fun hs => absurd hs Bool.false_ne_true, h.submit, ?_, h.cancel, h.closed⟩
      · simp [hcount]
      · intro he
        exact ⟨(h.stopped he).1, fun j hj => by cases hj⟩

/-- Every step keeps the invariant. -/
theorem Inv.step (h : Inv s) {l : Label ρ n} (hst : (machine P a).Step s l t) : Inv t := by
  obtain ⟨hen, hst⟩ := hst
  cases l with
  | signal =>
    obtain rfl := Option.some.inj hst
    exact ⟨h.count, h.owner, h.events, h.submit, fun he => ⟨rfl, (h.stopped he).2⟩, h.cancel,
      h.closed⟩
  | main ok => exact h.main hen.1 hst
  | callback ok => exact h.callback hst
  | complete i r =>
    obtain rfl := Option.some.inj hst
    obtain ⟨hi, hm, hnone⟩ := hen
    have hcb : s.callback = none := Option.isNone_iff_eq_none.mp hnone
    have hcount := h.count
    have hpos : 0 < s.flying.card := Finset.card_pos.mpr ⟨i, hi⟩
    refine ⟨?_, ?_, fun _ => hm, ⟨h.submit.1, ?_⟩, ?_, ?_, ?_⟩
    · rw [hcb] at hcount
      simp only [Option.isSome_none, Bool.false_eq_true, if_false, Option.isSome_some, if_true]
        at hcount ⊢
      rw [hcount, Finset.card_erase_of_mem hi]
      omega
    · rintro _ ⟨⟩
      exact Finset.notMem_erase i s.flying
    · intro j hj hm
      exact h.submit.2 j hj (Finset.mem_of_mem_erase hm)
    · intro he
      exact ⟨(h.stopped he).1, fun j hj => by cases hj⟩
    · intro he j hj
      obtain ⟨hne, hj⟩ := Finset.mem_erase.mp hj
      exact (h.cancel he j hj).imp_left fun hc => Finset.mem_erase.mpr ⟨hne, hc⟩
    · intro hc
      rw [h.closed hc] at hi
      exact absurd hi (Finset.notMem_empty i)

theorem inv (h : (machine P a).Reach s) : Inv s := by
  apply h.invariant
  · rintro _ rfl
    exact start_inv a
  · intro s l t _ hi hst _
    exact hi.step hst

/-- What `main` does from the cancelling on goes on from there, with the same transfers in
    flight. -/
theorem mainExec_ending {ok : Bool} (he : s.main.ending) (hst : mainExec P s ok = some t) :
    t.main.ending ∧ t.flying = s.flying := by
  unfold mainExec at hst
  cases hm : s.main with
  | submit rest => rw [hm] at he; cases he
  | loop => rw [hm] at he; cases he
  | events => rw [hm] at he; cases he
  | cancel rest =>
    rw [hm] at hst
    cases rest with
    | nil => obtain rfl := Option.some.inj hst; exact ⟨rfl, rfl⟩
    | cons i rest => obtain rfl := Option.some.inj hst; exact ⟨rfl, rfl⟩
  | drain =>
    rw [hm] at hst
    obtain rfl := Option.some.inj hst
    refine ⟨?_, rfl⟩
    show (if _ then MainPc.drainEvents else MainPc.close 4).ending
    split_ifs <;> rfl
  | drainEvents => rw [hm] at hst; obtain rfl := Option.some.inj hst; exact ⟨rfl, rfl⟩
  | close k =>
    rw [hm] at hst
    cases k with
    | zero => cases hst
    | succ k =>
      simp only at hst
      split_ifs at hst
      obtain rfl := Option.some.inj hst
      exact ⟨rfl, rfl⟩

/-- From the cancelling on, no transfer is submitted. -/
theorem Inv.drain_shrinks (h : Inv s) (he : s.main.ending) {l : Label ρ n}
    (hst : (machine P a).Step s l t) : t.main.ending ∧ t.flying ⊆ s.flying := by
  obtain ⟨_, hst⟩ := hst
  cases l with
  | signal => obtain rfl := Option.some.inj hst; exact ⟨he, Finset.Subset.refl _⟩
  | complete i r => obtain rfl := Option.some.inj hst; exact ⟨he, Finset.erase_subset i s.flying⟩
  | main ok =>
    obtain ⟨he', hfly⟩ := mainExec_ending he hst
    exact ⟨he', hfly.subset⟩
  | callback ok =>
    have hst : callbackExec P s ok = some t := hst
    unfold callbackExec at hst
    cases hc : s.callback with
    | none => rw [hc] at hst; cases hst
    | some c =>
      rw [hc] at hst
      cases c with
      | receive i r =>
        obtain ⟨app, _, hst⟩ := Option.bind_eq_some_iff.mp hst
        obtain rfl := Option.some.inj hst
        exact ⟨he, Finset.Subset.refl _⟩
      | test i => obtain rfl := Option.some.inj hst; exact ⟨he, Finset.Subset.refl _⟩
      | submit i => exact absurd hc ((h.stopped he).2 i)
      | leave i => obtain rfl := Option.some.inj hst; exact ⟨he, Finset.Subset.refl _⟩

/-! ## The program's own state -/

/-- The program's functions are defined on the states with `I`, and keep it. -/
structure Program.Keeps (P : Program α ρ n) (I : α → Prop) : Prop where
  prepare : ∀ a i, I a → ∃ b, P.prepare a i = some b ∧ I b
  receive : ∀ a i r, I a → ∃ b, P.receive a i r = some b ∧ I b
  refill : ∀ a i, I a → ∃ b, P.refill a i = some b ∧ I b

/-- A step that may be taken is defined, and keeps what the functions keep. -/
theorem Inv.keeps (h : Inv s) {I : α → Prop} (hP : P.Keeps I) (hI : I s.app) {l : Label ρ n}
    (hen : enabled s l) : ∃ t, exec P s l = some t ∧ I t.app := by
  cases l with
  | signal => exact ⟨_, rfl, hI⟩
  | complete i r => exact ⟨_, rfl, hI⟩
  | main ok =>
    show ∃ t, mainExec P s ok = some t ∧ I t.app
    unfold mainExec
    cases hm : s.main with
    | submit rest =>
      cases rest with
      | nil => exact ⟨_, rfl, hI⟩
      | cons i rest =>
        obtain ⟨b, hb, hIb⟩ := hP.prepare s.app i hI
        simp only [hb, Option.bind_eq_bind, Option.bind_some, Option.pure_def]
        refine ⟨_, rfl, ?_⟩
        split_ifs
        · exact hIb
        · exact hIb
    | loop =>
      simp only
      split_ifs
      · exact ⟨_, rfl, hI⟩
      · exact ⟨_, rfl, hI⟩
    | events => exact ⟨_, rfl, hI⟩
    | cancel rest =>
      cases rest with
      | nil => exact ⟨_, rfl, hI⟩
      | cons i rest => exact ⟨_, rfl, hI⟩
    | drain => exact ⟨_, rfl, hI⟩
    | drainEvents => exact ⟨_, rfl, hI⟩
    | close k =>
      cases k with
      | zero => exact absurd hm hen.2
      | succ k =>
        have hempty := h.closed (by rw [hm]; rfl)
        simp only [if_pos hempty]
        exact ⟨_, rfl, hI⟩
  | callback ok =>
    show ∃ t, callbackExec P s ok = some t ∧ I t.app
    unfold callbackExec
    cases hc : s.callback with
    | none =>
      have hsome : s.callback.isSome := hen
      rw [hc] at hsome
      cases hsome
    | some c =>
      cases c with
      | receive i r =>
        obtain ⟨b, hb, hIb⟩ := hP.receive s.app i r hI
        simp only [hb, Option.bind_eq_bind, Option.bind_some, Option.pure_def]
        exact ⟨_, rfl, hIb⟩
      | test i => exact ⟨_, rfl, hI⟩
      | submit i =>
        obtain ⟨b, hb, hIb⟩ := hP.refill s.app i hI
        simp only [hb, Option.bind_eq_bind, Option.bind_some, Option.pure_def]
        refine ⟨_, rfl, ?_⟩
        split_ifs
        · exact hIb
        · exact hIb
      | leave i => exact ⟨_, rfl, hI⟩

/-- So does every run, and each of its steps is defined. -/
theorem keeps {I : α → Prop} (hP : P.Keeps I) (ha : I a) (h : (machine P a).Reach s) :
    I s.app ∧ (machine P a).Defined s := by
  have hI : I s.app := by
    apply h.invariant
    · rintro _ rfl
      exact ha
    · intro s l t hr hi hst _
      obtain ⟨t', ht', hI'⟩ := (inv hr).keeps hP hi hst.1
      obtain rfl : t' = t := Option.some.inj (ht'.symm.trans hst.2)
      exact hI'
  refine ⟨hI, ?_⟩
  intro l hen
  obtain ⟨t, ht, _⟩ := (inv h).keeps hP hI hen
  exact Option.isSome_iff_exists.mpr ⟨t, ht⟩

/-- The program ends as it should: every step is defined, the count is right, it waits only
    for transfers that have been cancelled and submits none in the meantime, and it gives
    the device back with none in flight. -/
structure WindsUp (P : Program α ρ n) (a : α) (s : Proc α ρ n) : Prop where
  defined : (machine P a).Defined s
  count : s.inflight = s.flying.card + if s.callback.isSome then 1 else 0
  waits : s.main = .drainEvents → s.flying ⊆ s.cancelled
  shrinks : s.main.ending → ∀ l t, (machine P a).Step s l t → t.main.ending ∧ t.flying ⊆ s.flying
  closed : s.main.closing → s.flying = ∅ ∧ s.inflight = 0 ∧ s.callback = none

theorem windsUp {I : α → Prop} (hP : P.Keeps I) (ha : I a) (h : (machine P a).Reach s) :
    WindsUp P a s := by
  have hinv := inv h
  refine ⟨(keeps hP ha h).2, hinv.count, ?_, fun he l t hst => hinv.drain_shrinks he hst, ?_⟩
  · intro hm i hi
    have hcancel := hinv.cancel (by rw [hm]; rfl) i hi
    rw [hm] at hcancel
    exact hcancel.resolve_right List.not_mem_nil
  · intro hc
    have hempty := hinv.closed hc
    have hnone : s.callback = none := by
      by_contra hsome
      have hh := hinv.events (Option.isSome_iff_ne_none.mpr hsome)
      cases hm : s.main with
      | close k => rw [hm] at hh; cases hh
      | _ => rw [hm] at hc; cases hc
    refine ⟨hempty, ?_, hnone⟩
    rw [hinv.count, hempty, hnone]
    rfl

/-! ## What is sent and what comes back -/

/-- What the program does with its transfers. -/
inductive Event (ρ : Type u) (n : ℕ)
  | came (i : Fin n) (r : ρ)
  /-- it is submitted, for the first time or `again`, and accepted if `ok` -/
  | sent (i : Fin n) (again ok : Bool)

/-- What an event does to the program's state. -/
def Program.apply (P : Program α ρ n) (a : α) : Event ρ n → Option α
  | .came i r => P.receive a i r
  | .sent i false _ => P.prepare a i
  | .sent i true _ => P.refill a i

/-- The events of a step. -/
def events (s : Proc α ρ n) : Label ρ n → List (Event ρ n)
  | .main ok =>
    match s.main with
    | .submit (i :: _) => [.sent i false ok]
    | _ => []
  | .callback ok =>
    match s.callback with
    | some (.receive i r) => [.came i r]
    | some (.submit i) => [.sent i true ok]
    | _ => []
  | .signal | .complete _ _ => []

/-- The events of a run, in order. -/
def record (log : List (Event ρ n)) (s : Proc α ρ n) (l : Label ρ n) (_ : Proc α ρ n) :
    List (Event ρ n) :=
  log ++ events s l

/-- The program with its events. -/
def logMachine (P : Program α ρ n) (a : α) :
    Machine (Proc α ρ n × List (Event ρ n)) (Label ρ n) :=
  (machine P a).observe (fun _ => []) record

instance (P : Program α ρ n) (a : α) (e : Proc α ρ n × List (Event ρ n)) (l : Label ρ n) :
    Decidable ((logMachine P a).enabled e l) :=
  inferInstanceAs (Decidable (enabled e.1 l))

/-- A step changes the program's state by its events. -/
theorem step_events {l : Label ρ n} (hst : exec P s l = some t) :
    (events s l).foldlM P.apply s.app = some t.app := by
  cases l with
  | signal => obtain rfl := Option.some.inj hst; rfl
  | complete i r => obtain rfl := Option.some.inj hst; rfl
  | main ok =>
    have hst : mainExec P s ok = some t := hst
    unfold mainExec at hst
    unfold events
    cases hm : s.main with
    | submit rest =>
      rw [hm] at hst
      cases rest with
      | nil => obtain rfl := Option.some.inj hst; rfl
      | cons i rest =>
        obtain ⟨app, happ, hst⟩ := Option.bind_eq_some_iff.mp hst
        obtain rfl := Option.some.inj hst
        simp only [List.foldlM_cons, List.foldlM_nil, Program.apply, happ, Option.bind_eq_bind,
          Option.bind_some, Option.pure_def]
        split_ifs <;> rfl
    | loop =>
      rw [hm] at hst
      simp only at hst
      split_ifs at hst
      · obtain rfl := Option.some.inj hst; rfl
      · obtain rfl := Option.some.inj hst; rfl
    | events => rw [hm] at hst; obtain rfl := Option.some.inj hst; rfl
    | cancel rest =>
      rw [hm] at hst
      cases rest with
      | nil => obtain rfl := Option.some.inj hst; rfl
      | cons i rest => obtain rfl := Option.some.inj hst; rfl
    | drain => rw [hm] at hst; obtain rfl := Option.some.inj hst; rfl
    | drainEvents => rw [hm] at hst; obtain rfl := Option.some.inj hst; rfl
    | close k =>
      rw [hm] at hst
      cases k with
      | zero => cases hst
      | succ k =>
        simp only at hst
        split_ifs at hst
        obtain rfl := Option.some.inj hst
        rfl
  | callback ok =>
    have hst : callbackExec P s ok = some t := hst
    unfold callbackExec at hst
    unfold events
    cases hc : s.callback with
    | none => rw [hc] at hst; cases hst
    | some c =>
      rw [hc] at hst
      cases c with
      | receive i r =>
        obtain ⟨app, happ, hst⟩ := Option.bind_eq_some_iff.mp hst
        obtain rfl := Option.some.inj hst
        simp only [List.foldlM_cons, List.foldlM_nil, Program.apply, happ, Option.bind_eq_bind,
          Option.bind_some, Option.pure_def]
      | test i => obtain rfl := Option.some.inj hst; rfl
      | submit i =>
        obtain ⟨app, happ, hst⟩ := Option.bind_eq_some_iff.mp hst
        obtain rfl := Option.some.inj hst
        simp only [List.foldlM_cons, List.foldlM_nil, Program.apply, happ, Option.bind_eq_bind,
          Option.bind_some, Option.pure_def]
        split_ifs <;> rfl
      | leave i => obtain rfl := Option.some.inj hst; rfl

/-- The program's state is what its events make of the state it started with. -/
theorem log_replay {log : List (Event ρ n)} (h : (logMachine P a).Reach (s, log)) :
    log.foldlM P.apply a = some s.app := by
  refine Machine.ReachIf.observe (C := fun _ _ _ => True)
    (I := fun s log => log.foldlM P.apply a = some s.app) h ?_ ?_
  · rintro _ rfl
    rfl
  · intro s l t log _ hi hst _
    rw [record, List.foldlM_append, hi]
    exact step_events hst.2

end

end DjmT1.Lib.Streaming
