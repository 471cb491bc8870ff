import DjmT1.Audio.Engine

/-!
# The life of the engine's transfers

`djmt1_iso_start` submits twelve transfers and starts `iso_thread`, whose event
loop runs the callbacks; `djmt1_iso_stop` clears `running`, asks for every
transfer to be cancelled, joins the thread and frees the transfers. A transfer is
in flight from its submission until libusb, inside `libusb_handle_events_timeout`,
runs its callback; cancelling it is only a request.

`lifeMachine` interleaves the steps of the thread with those of the stopping
caller. What the callbacks do to the audio is in `DjmT1.Audio.Engine`.

* `life_inv`: `inflight` counts the transfers in flight and the one, if any, whose
  callback is running.
* `stop_frees_flying`: nothing makes the thread wait for the cancelled transfers,
  and a transfer can be freed in flight.
* `stop_frees_idle`: it cannot, where the thread only leaves its loop with no
  transfer in flight.
-/

namespace DjmT1.Audio

open DjmT1.Lib

/-- `in_x` and `out_x` (audio/djmt1_iso.c:55). -/
inductive Endpoint
  | inX | outX
  deriving DecidableEq, Repr

/-- A transfer of the engine. -/
abbrev Xfer := Endpoint × Fin nxfr

/-- The transfers in the order of the loops of `djmt1_iso_start` and
    `djmt1_iso_stop`. -/
def xfers : List Xfer := (List.finRange nxfr).flatMap fun i => [(.inX, i), (.outX, i)]

/-- Where `iso_thread` is (lines 113-120, and 91-92, 110-111 of the callbacks). -/
inductive ThreadPc
  /-- at the loop test -/
  | test
  /-- in `libusb_handle_events_timeout` -/
  | events
  /-- in the callback of `x`, before `atomic_load(&e->running)` -/
  | callback (x : Xfer)
  /-- before `libusb_submit_transfer(x)` -/
  | submit (x : Xfer)
  /-- before `atomic_fetch_sub(&e->inflight, 1)` -/
  | retire (x : Xfer)
  | exited

/-- The transfer whose callback is running. -/
def ThreadPc.current : ThreadPc → Option Xfer
  | .callback x | .submit x | .retire x => some x
  | .test | .events | .exited => none

/-- Where `djmt1_iso_stop` is (lines 153-171). -/
inductive StopPc
  | notCalled
  /-- before `atomic_store(&e->running, 0)` -/
  | clear
  /-- in the loop that cancels -/
  | cancel (rest : List Xfer)
  /-- in `pthread_join` -/
  | join
  /-- in the loop that frees -/
  | free (rest : List Xfer)
  | done

/-- `djmt1_iso_stop` has joined the thread. -/
def StopPc.joined : StopPc → Bool
  | .free _ | .done => true
  | .notCalled | .clear | .cancel _ | .join => false

/-- The fields of the engine that the life of a transfer depends on, with the
    transfers in flight and those freed. -/
structure Life where
  running : Bool
  inflight : ℤ
  flying : Finset Xfer
  freed : Finset Xfer
  thread : ThreadPc
  stop : StopPc

/-- `if (libusb_submit_transfer(x) == 0) atomic_fetch_add(&e->inflight, 1)`
    (lines 141 and 147). -/
def submitFirst (ok : Xfer → Bool) (s : Life) (x : Xfer) : Life :=
  if ok x then { s with flying := insert x s.flying, inflight := s.inflight + 1 } else s

/-- `djmt1_iso_start` from line 135 on, where `ok` says which submissions
    succeed. -/
def isoStart (ok : Xfer → Bool) : Life :=
  xfers.foldl (submitFirst ok) ⟨true, 0, ∅, ∅, .test, .notCalled⟩

/-- What happens next. -/
inductive LifeLabel
  /-- `iso_thread` tests `running` -/
  | test
  /-- `libusb_handle_events_timeout` returns -/
  | timeout
  /-- libusb calls the callback of `x` -/
  | complete (x : Xfer)
  /-- the callback tests `running` -/
  | load
  /-- the callback submits its transfer again -/
  | submit (ok : Bool)
  /-- the callback retires its transfer -/
  | retire
  /-- a caller enters `djmt1_iso_stop` -/
  | callStop
  /-- a step of `djmt1_iso_stop` -/
  | stop
  deriving DecidableEq

/-- A step of `djmt1_iso_stop`. -/
def stopStep (s : Life) : Option Life :=
  match s.stop with
  | .notCalled => none
  | .clear => some { s with running := false, stop := .cancel xfers }
  | .cancel (_ :: rest) => some { s with stop := .cancel rest }
  | .cancel [] => some { s with stop := .join }
  | .join =>
    match s.thread with
    | .exited => some { s with stop := .free xfers }
    | _ => none
  | .free (x :: rest) => some { s with freed := insert x s.freed, stop := .free rest }
  | .free [] => some { s with stop := .done }
  | .done => none

/-- The state after a step, or `none` if it cannot be taken now. -/
def lifeStep (s : Life) (l : LifeLabel) : Option Life :=
  match l, s.thread with
  | .test, .test => some { s with thread := if s.running then .events else .exited }
  | .timeout, .events => some { s with thread := .test }
  | .complete x, .events =>
    if x ∈ s.flying then some { s with flying := s.flying.erase x, thread := .callback x } else none
  | .load, .callback x => some { s with thread := if s.running then .submit x else .retire x }
  | .submit true, .submit x => some { s with flying := insert x s.flying, thread := .events }
  | .submit false, .submit x => some { s with thread := .retire x }
  | .retire, .retire _ => some { s with inflight := s.inflight - 1, thread := .events }
  | .callStop, _ =>
    match s.stop with
    | .notCalled => some { s with stop := .clear }
    | _ => none
  | .stop, _ => stopStep s
  | _, _ => none

/-- The engine's thread and a caller that stops the engine. -/
def lifeMachine : Machine Life LifeLabel where
  init s := ∃ ok, s = isoStart ok
  enabled s l := (lifeStep s l).isSome
  exec := lifeStep

instance (s : Life) (l : LifeLabel) : Decidable (lifeMachine.enabled s l) :=
  inferInstanceAs (Decidable (_ = true))

/-! ## What a step can do -/

/-- What a step can do. -/
inductive LifeMove (s : Life) : LifeLabel → Life → Prop
  | test (h : s.thread = .test) :
    LifeMove s .test { s with thread := if s.running then .events else .exited }
  | timeout (h : s.thread = .events) : LifeMove s .timeout { s with thread := .test }
  | complete {x : Xfer} (h : s.thread = .events) (hx : x ∈ s.flying) :
    LifeMove s (.complete x) { s with flying := s.flying.erase x, thread := .callback x }
  | load {x : Xfer} (h : s.thread = .callback x) :
    LifeMove s .load { s with thread := if s.running then .submit x else .retire x }
  | resubmit {x : Xfer} (h : s.thread = .submit x) :
    LifeMove s (.submit true) { s with flying := insert x s.flying, thread := .events }
  | refuse {x : Xfer} (h : s.thread = .submit x) :
    LifeMove s (.submit false) { s with thread := .retire x }
  | retire {x : Xfer} (h : s.thread = .retire x) :
    LifeMove s .retire { s with inflight := s.inflight - 1, thread := .events }
  | callStop (h : s.stop = .notCalled) : LifeMove s .callStop { s with stop := .clear }
  | stop {t : Life} (h : stopStep s = some t) : LifeMove s .stop t

/-- Every step is one of these. -/
theorem lifeStep_move {s t : Life} {l : LifeLabel} (h : lifeStep s l = some t) :
    LifeMove s l t := by
  unfold lifeStep at h
  split at h
  · next hthr =>
    obtain rfl := Option.some.inj h
    exact .test hthr
  · next hthr =>
    obtain rfl := Option.some.inj h
    exact .timeout hthr
  · next x hthr =>
    split_ifs at h with hx
    obtain rfl := Option.some.inj h
    exact .complete hthr hx
  · next x hthr =>
    obtain rfl := Option.some.inj h
    exact .load hthr
  · next x hthr =>
    obtain rfl := Option.some.inj h
    exact .resubmit hthr
  · next x hthr =>
    obtain rfl := Option.some.inj h
    exact .refuse hthr
  · next x hthr =>
    obtain rfl := Option.some.inj h
    exact .retire hthr
  · split at h
    · next hstop =>
      obtain rfl := Option.some.inj h
      exact .callStop hstop
    · cases h
  · exact .stop h
  · cases h

/-- A step of `djmt1_iso_stop` leaves the transfers in flight, and enters the loop
    that frees only when the thread has exited. -/
theorem stopStep_cases {s t : Life} (h : stopStep s = some t) :
    t.flying = s.flying ∧ t.inflight = s.inflight ∧ t.thread = s.thread ∧
    (t.stop.joined → s.stop.joined ∨ s.thread = .exited) ∧
    (s.stop.joined → t.stop.joined) ∧ (t.freed = s.freed ∨ s.stop.joined) := by
  obtain ⟨running, inflight, flying, freed, thread, stop⟩ := s
  cases stop with
  | notCalled => exact absurd h (by simp [stopStep])
  | clear => obtain rfl := Option.some.inj h; simp [StopPc.joined]
  | cancel rest =>
    cases rest with
    | nil => obtain rfl := Option.some.inj h; simp [StopPc.joined]
    | cons x rest => obtain rfl := Option.some.inj h; simp [StopPc.joined]
  | join =>
    cases thread with
    | exited => obtain rfl := Option.some.inj h; simp [StopPc.joined]
    | _ => exact absurd h (by simp [stopStep])
  | free rest =>
    cases rest with
    | nil => obtain rfl := Option.some.inj h; simp [StopPc.joined]
    | cons x rest => obtain rfl := Option.some.inj h; simp [StopPc.joined]
  | done => exact absurd h (by simp [stopStep])

/-! ## What holds of all runs -/

/-- `inflight` counts the transfers in flight and the current one, which is not in
    flight; transfers are freed only once the thread has exited. -/
structure LifeInv (s : Life) : Prop where
  count : s.inflight = s.flying.card + s.thread.current.toList.length
  current : ∀ x ∈ s.thread.current, x ∉ s.flying
  joined : s.stop.joined → s.thread = .exited
  freed : s.freed.Nonempty → s.stop.joined

/-- The initial submissions count the transfers they put in flight. -/
theorem submitFirst_count (ok : Xfer → Bool) (l : List Xfer) (s : Life) (hl : l.Nodup)
    (hs : ∀ x ∈ l, x ∉ s.flying) (hc : s.inflight = s.flying.card) :
    ∃ flying inflight, l.foldl (submitFirst ok) s = { s with flying, inflight } ∧
      inflight = flying.card := by
  induction l generalizing s with
  | nil => exact ⟨_, _, rfl, hc⟩
  | cons x l ih =>
    obtain ⟨hx, hl⟩ := List.nodup_cons.mp hl
    rw [List.foldl_cons, submitFirst]
    by_cases hok : ok x
    · rw [if_pos hok]
      refine ih _ hl ?_ ?_
      · intro y hy
        have hyx : y ≠ x := fun h => hx (h ▸ hy)
        rw [Finset.mem_insert, not_or]
        exact ⟨hyx, hs y (List.mem_cons_of_mem x hy)⟩
      · rw [Finset.card_insert_of_notMem (hs x List.mem_cons_self), hc]
        push_cast
        rfl
    · rw [if_neg hok]
      exact ih s hl (fun y hy => hs y (List.mem_cons_of_mem x hy)) hc

theorem nodup_xfers : xfers.Nodup := by decide

/-- The state `djmt1_iso_start` leaves: running, with `inflight` the number of
    transfers in flight. -/
theorem isoStart_eq (ok : Xfer → Bool) :
    ∃ flying : Finset Xfer, isoStart ok = ⟨true, flying.card, flying, ∅, .test, .notCalled⟩ := by
  obtain ⟨flying, inflight, heq, rfl⟩ := submitFirst_count ok xfers
    ⟨true, 0, ∅, ∅, .test, .notCalled⟩ nodup_xfers (fun x _ => Finset.notMem_empty x) rfl
  exact ⟨flying, heq⟩

theorem isoStart_inv (ok : Xfer → Bool) : LifeInv (isoStart ok) := by
  obtain ⟨flying, heq⟩ := isoStart_eq ok
  rw [heq]
  refine ⟨by simp [ThreadPc.current], ?_, ?_, ?_⟩
  · exact fun x hx => absurd hx (Option.not_mem_none x)
  · exact fun hj => absurd hj Bool.false_ne_true
  · exact fun hf => absurd hf Finset.not_nonempty_empty

/-- A step keeps `LifeInv`. -/
theorem LifeInv.step {s t : Life} {l : LifeLabel} (h : LifeInv s) (hst : lifeStep s l = some t) :
    LifeInv t := by
  obtain ⟨hcount, hcur, hjoin, hfree⟩ := h
  -- the thread's own steps are possible only before the join
  have hlive {pc : ThreadPc} {P : Prop} (hpc : s.thread = pc) (hne : pc ≠ .exited) :
      s.stop.joined → P := fun hj => absurd (hpc.symm.trans (hjoin hj)) hne
  cases lifeStep_move hst with
  | test hthr =>
    rw [hthr] at hcount
    refine ⟨?_, ?_, hlive hthr (by simp), hfree⟩
    · cases hrun : s.running <;> simpa [hrun, ThreadPc.current] using hcount
    · cases s.running <;> simp [ThreadPc.current]
  | timeout hthr =>
    rw [hthr] at hcount
    exact ⟨hcount, by simp [ThreadPc.current], hlive hthr (by simp), hfree⟩
  | @complete x hthr hx =>
    rw [hthr] at hcount
    refine ⟨?_, ?_, hlive hthr (by simp), hfree⟩
    · have hpos : 0 < s.flying.card := Finset.card_pos.mpr ⟨x, hx⟩
      simp only [ThreadPc.current, Option.toList_none, List.length_nil] at hcount
      simp only [ThreadPc.current, Option.toList_some, List.length_singleton,
        Finset.card_erase_of_mem hx]
      omega
    · rintro y ⟨⟩
      exact Finset.notMem_erase x s.flying
  | @load x hthr =>
    rw [hthr] at hcount hcur
    refine ⟨?_, ?_, hlive hthr (by simp), hfree⟩
    · cases s.running <;> exact hcount
    · cases s.running <;> exact hcur
  | @resubmit x hthr =>
    rw [hthr] at hcount hcur
    refine ⟨?_, by simp [ThreadPc.current], hlive hthr (by simp), hfree⟩
    rw [hcount, Finset.card_insert_of_notMem (hcur x rfl)]
    simp [ThreadPc.current]
  | @refuse x hthr =>
    rw [hthr] at hcount hcur
    exact ⟨hcount, hcur, hlive hthr (by simp), hfree⟩
  | @retire x hthr =>
    rw [hthr] at hcount
    refine ⟨?_, by simp [ThreadPc.current], hlive hthr (by simp), hfree⟩
    rw [hcount]
    simp [ThreadPc.current]
  | callStop hstop =>
    refine ⟨hcount, hcur, fun hj => absurd hj Bool.false_ne_true, ?_⟩
    intro hne
    exact absurd (hfree hne) (by rw [hstop]; exact Bool.false_ne_true)
  | stop hstop =>
    obtain ⟨hfly, hinf, hthr, hj, hj', hfr⟩ := stopStep_cases hstop
    refine ⟨by rw [hfly, hinf, hthr]; exact hcount, by rw [hfly, hthr]; exact hcur, ?_, ?_⟩
    · intro hjt
      rw [hthr]
      rcases hj hjt with hjs | hex
      · exact hjoin hjs
      · exact hex
    · intro hne
      rcases hfr with hfr | hjs
      · rw [hfr] at hne
        exact hj' (hfree hne)
      · exact hj' hjs

/-- The invariant holds in every state of every run. -/
theorem life_inv {C : Life → LifeLabel → Life → Prop} {s : Life} (h : lifeMachine.ReachIf C s) :
    LifeInv s := by
  apply h.invariant
  · rintro s ⟨ok, rfl⟩
    exact isoStart_inv ok
  · intro s l t _ hi hst _
    exact hi.step hst.2

/-! ## Shutdown -/

/-- The state in the loop that frees the transfers: none is in flight. -/
def Idle (s : Life) : Prop := s.flying = ∅ ∧ s.inflight = 0

/-- The thread stays in its loop as long as a transfer is in flight. -/
def Drains (s : Life) : LifeLabel → Prop
  | .test => s.running = false → s.flying = ∅
  | _ => True

instance (s : Life) : (l : LifeLabel) → Decidable (Drains s l)
  | .test => inferInstanceAs (Decidable (s.running = false → s.flying = ∅))
  | .timeout | .complete _ | .load | .submit _ | .retire | .callStop | .stop =>
    inferInstanceAs (Decidable True)

/-- A run in which the event thread notices `running == 0` before any of the
    twelve cancelled transfers is reported. -/
def hastyRun : List LifeLabel :=
  [.test, .callStop, .stop] ++ List.replicate 13 .stop ++ [.timeout, .test, .stop, .stop]

/-- `djmt1_iso_stop` frees a transfer that is in flight. -/
theorem stop_frees_flying : ∃ s, lifeMachine.Reach s ∧ s.stop.joined ∧ ¬ Idle s ∧
    ¬ Disjoint s.freed s.flying := by
  refine ⟨_, Machine.play_reach ⟨fun _ => true, rfl⟩
    (show lifeMachine.play (isoStart fun _ => true) hastyRun = some _ from rfl), rfl, ?_, ?_⟩
  · rintro ⟨_, hinf⟩
    exact absurd hinf (by decide)
  · intro hd
    exact absurd hd (by decide)

/-- The thread exits at the loop test, and from then on nothing is submitted or
    reported. -/
theorem lifeStep_exited {s t : Life} {l : LifeLabel} (hst : lifeStep s l = some t)
    (hex : t.thread = .exited) :
    t.flying = s.flying ∧ (s.thread = .exited ∨ l = .test ∧ s.running = false) := by
  cases lifeStep_move hst with
  | test hthr =>
    cases hrun : s.running with
    | true => simp [hrun] at hex
    | false => exact ⟨rfl, .inr ⟨rfl, rfl⟩⟩
  | load hthr => cases hrun : s.running <;> simp [hrun] at hex
  | timeout | complete | resubmit | refuse | retire => cases hex
  | callStop hstop => exact ⟨rfl, .inl hex⟩
  | stop hstop =>
    obtain ⟨hfly, _, hthr, _⟩ := stopStep_cases hstop
    exact ⟨hfly, .inl (hthr.symm.trans hex)⟩

/-- A thread that exits as `Drains` says leaves nothing in flight. -/
theorem exited_flying {s : Life} (h : lifeMachine.ReachIf (fun s l _ => Drains s l) s) :
    s.thread = .exited → s.flying = ∅ := by
  apply h.invariant
  · rintro s ⟨ok, rfl⟩ hex
    obtain ⟨flying, heq⟩ := isoStart_eq ok
    rw [heq] at hex
    exact absurd hex (by simp)
  · intro s l t _ hi hst hdrains hex
    obtain ⟨hfly, hexs | ⟨rfl, hrun⟩⟩ := lifeStep_exited hst.2 hex
    · rw [hfly]
      exact hi hexs
    · rw [hfly]
      exact hdrains hrun

/-- **Shutdown.** In every run in which the event thread leaves its loop only with
    no transfer in flight, `djmt1_iso_stop` frees nothing that is in flight: when it
    reaches its free loop, no transfer is and `inflight` is 0. -/
theorem stop_frees_idle {s : Life} (h : lifeMachine.ReachIf (fun s l _ => Drains s l) s) :
    (s.stop.joined → Idle s) ∧ Disjoint s.freed s.flying := by
  have hinv := life_inv h
  have hidle : s.stop.joined → Idle s := by
    intro hj
    have hex := hinv.joined hj
    have hfly := exited_flying h hex
    refine ⟨hfly, ?_⟩
    rw [hinv.count, hfly, hex]
    rfl
  refine ⟨hidle, ?_⟩
  rcases s.freed.eq_empty_or_nonempty with hnone | hsome
  · rw [hnone]
    exact Finset.disjoint_empty_left _
  · rw [(hidle (hinv.freed hsome)).1]
    exact Finset.disjoint_empty_right _

/-- One transfer is submitted and, after `djmt1_iso_stop` has cancelled it, its
    callback retires it before the thread exits. -/
def drainingRun : List LifeLabel :=
  [.test, .callStop, .stop] ++ List.replicate 13 .stop ++
    [.complete (.inX, 0), .load, .retire, .timeout, .test, .stop, .stop]

theorem stop_frees_idle_drainingRun :
    ∃ s, lifeMachine.playIf (fun s l _ => Drains s l) (isoStart fun x => x = (.inX, 0))
      drainingRun = some s ∧ (s.stop.joined → Idle s) ∧ Disjoint s.freed s.flying := by
  obtain ⟨s, hplay⟩ : ∃ s, lifeMachine.playIf (fun s l _ => Drains s l)
    (isoStart fun x => x = (.inX, 0)) drainingRun = some s := ⟨_, rfl⟩
  exact ⟨s, hplay, stop_frees_idle (Machine.playIf_reachIf (.init ⟨_, rfl⟩) hplay)⟩

end DjmT1.Audio
