import DjmT1.Audio.Lifecycle

/-!
# What `inflight` counts

`djmt1_iso_start` counts the transfers it submits, and a callback that does not
submit its transfer again counts it out. `tallyMachine` is `lifeMachine` with a
tally kept beside it: how many steps of the callback of each transfer lowered the
counter, and what the last callback found when it started.

* `inflight_accounts`: at any time `inflight` is the number of transfers in flight,
  if no callback is executing; each submitted transfer lowers it once, when it is
  not submitted again, and no other transfer does; and a callback that starts after
  `running` was cleared lowers it by one.
-/

namespace DjmT1.Audio

open DjmT1.Lib

/-! ## The initial submissions -/

/-- The loop of `djmt1_iso_start` puts in flight the transfers whose submission
    succeeds. -/
theorem mem_foldl_submitFirst (ok : Xfer → Bool) (x : Xfer) (l : List Xfer) (s : Life) :
    x ∈ (l.foldl (submitFirst ok) s).flying ↔ x ∈ s.flying ∨ x ∈ l ∧ ok x := by
  induction l generalizing s with
  | nil => simp
  | cons y l ih =>
    rw [List.foldl_cons, ih, List.mem_cons]
    by_cases hok : ok y
    · have hs : (submitFirst ok s y).flying = insert y s.flying := by simp [submitFirst, hok]
      rw [hs, Finset.mem_insert]
      constructor
      · rintro ((rfl | hx) | ⟨hx, hokx⟩)
        · exact .inr ⟨.inl rfl, hok⟩
        · exact .inl hx
        · exact .inr ⟨.inr hx, hokx⟩
      · rintro (hx | ⟨rfl | hx, hokx⟩)
        · exact .inl (.inr hx)
        · exact .inl (.inl rfl)
        · exact .inr ⟨hx, hokx⟩
    · have hs : submitFirst ok s y = s := by simp [submitFirst, hok]
      rw [hs]
      constructor
      · rintro (hx | ⟨hx, hokx⟩)
        · exact .inl hx
        · exact .inr ⟨.inr hx, hokx⟩
      · rintro (hx | ⟨rfl | hx, hokx⟩)
        · exact .inl hx
        · exact absurd hokx hok
        · exact .inr ⟨hx, hokx⟩

theorem mem_xfers (x : Xfer) : x ∈ xfers := by
  obtain ⟨e, i⟩ := x
  rw [xfers, List.mem_flatMap]
  refine ⟨i, List.mem_finRange i, ?_⟩
  cases e <;> simp

/-- What `djmt1_iso_start` leaves in flight. -/
theorem mem_isoStart_flying (ok : Xfer → Bool) (x : Xfer) :
    x ∈ (isoStart ok).flying ↔ ok x := by
  rw [isoStart, mem_foldl_submitFirst]
  constructor
  · rintro (hx | ⟨_, hok⟩)
    · exact absurd hx (Finset.notMem_empty x)
    · exact hok
  · intro hok
    exact .inr ⟨mem_xfers x, hok⟩

/-! ## The tally -/

/-- What is written down about a run. -/
structure Tally where
  /-- the steps of the callback of each transfer that lowered `inflight` -/
  lowered : Xfer → ℕ
  /-- `inflight` and `running` when the last callback started -/
  entry : Option (ℤ × Bool)

/-- The callback of `x` takes a step from `s` to `t`. -/
def Tally.callback (g : Tally) (s t : Life) (x : Xfer) : Tally :=
  if t.inflight < s.inflight then
    { g with lowered := Function.update g.lowered x (g.lowered x + 1) }
  else g

/-- The tally after a step from `s` to `t`. -/
def Tally.next (g : Tally) (s : Life) (l : LifeLabel) (t : Life) : Tally :=
  match l, s.thread.current with
  | .complete _, _ => { g with entry := some (t.inflight, t.running) }
  | .callStop, _ | .stop, _ => g
  | _, some x => g.callback s t x
  | _, none => g

/-- `lifeMachine` with a tally of its run, where `ok` says which of the first
    submissions succeed. -/
def tallyMachine (ok : Xfer → Bool) : Machine (Life × Tally) LifeLabel :=
  (lifeMachine.startingAt (isoStart ok)).observe (fun _ => ⟨fun _ => 0, none⟩) Tally.next

theorem tallyMachine_init (ok : Xfer → Bool) :
    (tallyMachine ok).init (isoStart ok, ⟨fun _ => 0, none⟩) := ⟨rfl, rfl⟩

instance (ok : Xfer → Bool) (e : Life × Tally) (l : LifeLabel) :
    Decidable ((tallyMachine ok).enabled e l) :=
  inferInstanceAs (Decidable (lifeMachine.enabled e.1 l))

/-! ## What holds of all runs -/

/-- How often `x` is in flight or the transfer whose callback is executing. -/
def Life.held (s : Life) (x : Xfer) : ℕ :=
  (if x ∈ s.flying then 1 else 0) + if s.thread.current = some x then 1 else 0

/-- Each transfer that was submitted is held once or was counted out once, and no
    other transfer is. Since a callback started that finds `running` cleared, only
    its end has changed `inflight`. -/
structure TallyInv (ok : Xfer → Bool) (s : Life) (g : Tally) : Prop where
  once : ∀ x, g.lowered x + s.held x = if ok x then 1 else 0
  entry : ∀ i, g.entry = some (i, false) → s.running = false ∧
    s.inflight = (if s.thread.current = none then i - 1 else i) ∧ ∀ x, s.thread ≠ .submit x

variable {ok : Xfer → Bool}

theorem Life.held_of_notMem {s : Life} {x : Xfer} (hx : x ∉ s.flying) :
    s.held x = if s.thread.current = some x then 1 else 0 := by
  rw [Life.held, if_neg hx, zero_add]

theorem Life.held_of_idle {s : Life} {x : Xfer} (hs : s.thread.current = none) :
    s.held x = if x ∈ s.flying then 1 else 0 := by
  rw [Life.held, hs, if_neg (Option.some_ne_none x).symm, add_zero]

/-- A step that neither starts a callback nor lowers `inflight` adds nothing to the
    tally. -/
theorem Tally.next_of_le {s t : Life} {g : Tally} {l : LifeLabel} (hl : ∀ x, l ≠ .complete x)
    (h : s.inflight ≤ t.inflight) : g.next s l t = g := by
  have hcb : ∀ x, g.callback s t x = g := fun x => if_neg (not_lt.mpr h)
  cases l with
  | complete x => exact absurd rfl (hl x)
  | callStop | stop => rfl
  | test | timeout | load | submit | retire =>
    cases hcur : s.thread.current with
    | none => simp [next, hcur]
    | some x => simp [next, hcur, hcb]

/-- A step that leaves the transfers and their counter and starts no callback. -/
theorem TallyInv.congr {s t : Life} {g : Tally} {l : LifeLabel} (h : TallyInv ok s g)
    (hl : ∀ x, l ≠ .complete x) (hfly : t.flying = s.flying)
    (hcur : t.thread.current = s.thread.current) (hinf : t.inflight = s.inflight)
    (hrun : s.running = false → t.running = false)
    (hsub : (∀ x, s.thread ≠ .submit x) → s.running = false → ∀ x, t.thread ≠ .submit x) :
    TallyInv ok t (g.next s l t) := by
  rw [Tally.next_of_le hl hinf.ge]
  constructor
  · intro x
    rw [Life.held, hfly, hcur]
    exact h.once x
  · intro i hi
    obtain ⟨hr, hn, hs⟩ := h.entry i hi
    rw [hcur, hinf]
    exact ⟨hrun hr, hn, hsub hs hr⟩

/-- Nothing sets `running` again. -/
theorem stopStep_running {s t : Life} (h : stopStep s = some t) (hrun : s.running = false) :
    t.running = false := by
  obtain ⟨running, inflight, flying, freed, thread, stop⟩ := s
  cases stop with
  | notCalled => exact absurd h (by simp [stopStep])
  | clear => obtain rfl := Option.some.inj h; rfl
  | cancel rest => cases rest <;> (obtain rfl := Option.some.inj h; exact hrun)
  | join =>
    cases thread with
    | exited => obtain rfl := Option.some.inj h; exact hrun
    | _ => exact absurd h (by simp [stopStep])
  | free rest => cases rest <;> (obtain rfl := Option.some.inj h; exact hrun)
  | done => exact absurd h (by simp [stopStep])

/-- libusb takes `x` out of flight and calls its callback. -/
theorem TallyInv.complete {s : Life} {g : Tally} {x : Xfer} (h : TallyInv ok s g)
    (hthr : s.thread = .events) (hx : x ∈ s.flying) :
    TallyInv ok { s with flying := s.flying.erase x, thread := .callback x }
      { g with entry := some (s.inflight, s.running) } := by
  constructor
  · intro y
    have hy := h.once y
    rw [Life.held_of_idle (by rw [hthr]; rfl)] at hy
    by_cases hyx : y = x
    · subst hyx
      rw [Life.held_of_notMem (Finset.notMem_erase y s.flying)]
      simpa [ThreadPc.current, hx] using hy
    · simpa [Life.held, ThreadPc.current, Finset.mem_erase, hyx, Ne.symm hyx] using hy
  · rintro i hi
    obtain ⟨rfl, hrun⟩ := Prod.mk.inj (Option.some.inj hi)
    exact ⟨hrun, rfl, fun y hy => by cases hy⟩

/-- The callback of `x` submits it again. -/
theorem TallyInv.resubmit {s : Life} {g : Tally} {x : Xfer} (h : TallyInv ok s g)
    (hthr : s.thread = .submit x) (hx : x ∉ s.flying) :
    TallyInv ok { s with flying := insert x s.flying, thread := .events }
      (g.next s (.submit true) { s with flying := insert x s.flying, thread := .events }) := by
  have hnext : g.next s (.submit true) { s with flying := insert x s.flying, thread := .events } =
      g := Tally.next_of_le (by simp) le_rfl
  rw [hnext]
  constructor
  · intro y
    have hy := h.once y
    rw [Life.held, hthr] at hy
    by_cases hyx : y = x
    · subst hyx
      simpa [Life.held, ThreadPc.current, hx] using hy
    · simpa [Life.held, ThreadPc.current, Finset.mem_insert, hyx, Ne.symm hyx] using hy
  · intro i hi
    exact absurd hthr ((h.entry i hi).2.2 x)

/-- The callback of `x` counts it out. -/
theorem TallyInv.retire {s : Life} {g : Tally} {x : Xfer} (h : TallyInv ok s g)
    (hthr : s.thread = .retire x) (hx : x ∉ s.flying) :
    TallyInv ok { s with inflight := s.inflight - 1, thread := .events }
      (g.next s .retire { s with inflight := s.inflight - 1, thread := .events }) := by
  have hnext : g.next s .retire { s with inflight := s.inflight - 1, thread := .events } =
      { g with lowered := Function.update g.lowered x (g.lowered x + 1) } := by
    simp [Tally.next, Tally.callback, hthr, ThreadPc.current]
  rw [hnext]
  constructor
  · intro y
    have hy := h.once y
    rw [Life.held, hthr] at hy
    by_cases hyx : y = x
    · subst hyx
      simpa [Life.held, ThreadPc.current, hx] using hy
    · simpa [Life.held, ThreadPc.current, hyx, Ne.symm hyx] using hy
  · intro i hi
    obtain ⟨hrun, hn, _⟩ := h.entry i hi
    rw [hthr, if_neg (by simp [ThreadPc.current])] at hn
    refine ⟨hrun, ?_, fun y hy => by cases hy⟩
    rw [if_pos (by rfl), hn]

/-- A step keeps `TallyInv`. -/
theorem TallyInv.step {s t : Life} {g : Tally} {l : LifeLabel} (h : TallyInv ok s g)
    (hlife : LifeInv s) (hst : lifeStep s l = some t) : TallyInv ok t (g.next s l t) := by
  cases lifeStep_move hst with
  | test hthr =>
    refine h.congr (by simp) rfl ?_ rfl id fun _ hrun => by simp [hrun]
    cases s.running <;> simp [hthr, ThreadPc.current]
  | timeout hthr =>
    exact h.congr (by simp) rfl (by simp [hthr, ThreadPc.current]) rfl id fun _ _ => by simp
  | @complete x hthr hx => exact h.complete hthr hx
  | @load x hthr =>
    refine h.congr (by simp) rfl ?_ rfl id fun _ hrun => by simp [hrun]
    cases s.running <;> simp [hthr, ThreadPc.current]
  | @resubmit x hthr => exact h.resubmit hthr (hlife.current x (by rw [hthr]; rfl))
  | @refuse x hthr =>
    exact h.congr (by simp) rfl (by simp [hthr, ThreadPc.current]) rfl id fun _ _ => by simp
  | @retire x hthr => exact h.retire hthr (hlife.current x (by rw [hthr]; rfl))
  | callStop hstop => exact h.congr (by simp) rfl rfl rfl id fun hsub _ => hsub
  | stop hstop =>
    obtain ⟨hfly, hinf, hthr, _⟩ := stopStep_cases hstop
    exact h.congr (by simp) hfly (by rw [hthr]) hinf (stopStep_running hstop)
      fun hsub _ => by rwa [hthr]

/-- The invariants hold in every state of every run. -/
theorem tally_inv {e : Life × Tally} (h : (tallyMachine ok).Reach e) :
    LifeInv e.1 ∧ TallyInv ok e.1 e.2 := by
  refine Machine.ReachIf.observe (C := fun _ _ _ => True)
    (I := fun s g => LifeInv s ∧ TallyInv ok s g) h ?_ ?_
  · rintro _ rfl
    refine ⟨isoStart_inv ok, ?_, fun i hi => by cases hi⟩
    have hidle : (isoStart ok).thread.current = none := by
      obtain ⟨flying, heq⟩ := isoStart_eq ok
      rw [heq]
      rfl
    intro x
    rw [zero_add, Life.held_of_idle hidle]
    exact if_congr (mem_isoStart_flying ok x) rfl rfl
  · intro s l t g _ hi hst _
    exact ⟨hi.1.step hst.2, hi.2.step hi.1 hst.2⟩

/-- What `inflight` says of a state `s` of a run with tally `g`, where `ok` says which
    of the first submissions succeeded. -/
structure InflightOk (ok : Xfer → Bool) (s : Life) (g : Tally) : Prop where
  /-- with no callback executing, it is the number of transfers in flight -/
  idle : s.thread.current = none → s.inflight = s.flying.card
  nonneg : 0 ≤ s.inflight
  /-- the callback of a transfer has lowered it once, if the transfer was submitted and is
      now neither in flight nor in its callback, and else never -/
  once : ∀ x, g.lowered x =
    if ok x ∧ x ∉ s.flying ∧ s.thread.current ≠ some x then 1 else 0
  /-- a callback that found `running` cleared when it started has lowered it by one -/
  stopped : ∀ i, g.entry = some (i, false) → s.thread.current = none → s.inflight = i - 1

/-- **In-flight accounting.** In every run, whatever the first submissions and the
    later ones return, `inflight` counts the transfers in flight, and each submitted
    transfer is counted out exactly once. -/
theorem inflight_accounts {s : Life} {g : Tally} (h : (tallyMachine ok).Reach (s, g)) :
    InflightOk ok s g := by
  obtain ⟨hlife, honce, hentry⟩ := tally_inv h
  constructor
  · intro hidle
    rw [hlife.count, hidle]
    simp
  · rw [hlife.count]
    positivity
  · intro x
    have hx := honce x
    have hcur : s.thread.current = some x → x ∉ s.flying := fun hc => hlife.current x hc
    unfold Life.held at hx
    split_ifs at hx ⊢ <;> grind
  · intro i hi hidle
    have hn := (hentry i hi).2.1
    rwa [if_pos hidle] at hn

instance : NeZero nxfr := ⟨by decide⟩

/-- Two transfers are submitted. One is submitted again, the other is not; then the
    first is cancelled. -/
def countedRun : List LifeLabel :=
  [.test, .complete (.inX, 0), .load, .submit true, .complete (.outX, 0), .load, .submit false,
    .retire, .callStop, .stop, .complete (.inX, 0), .load, .retire]

theorem inflight_accounts_countedRun :
    ∃ s g, (tallyMachine fun x => x.2 = 0).play (isoStart fun x => x.2 = 0, ⟨fun _ => 0, none⟩)
      countedRun = some (s, g) ∧ InflightOk (fun x => x.2 = 0) s g :=
  ⟨_, _, rfl, inflight_accounts (Machine.play_reach (tallyMachine_init _)
    (show (tallyMachine fun x => x.2 = 0).play (isoStart fun x => x.2 = 0, ⟨fun _ => 0, none⟩)
      countedRun = some (_, _) from rfl))⟩

end DjmT1.Audio
