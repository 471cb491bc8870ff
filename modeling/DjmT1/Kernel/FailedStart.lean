import DjmT1.Kernel.Accounting

/-!
# A START that fails

When `usb_submit_urb` fails inside `djmt1_trigger(START)`, the function clears
`running` and returns the error. It does not take back the URBs it has submitted.

`startMachine` is a stream from a call of START on, with a count of the URBs that have
completed and of those that the handler has submitted again.

* `failed_start_leaves_urb`: a START that fails at the second URB leaves the first in
  flight, and the next START fails because of it.
* `failed_start`: a START that fails at URB `u` leaves nothing in flight exactly when
  the URBs that completed during the call number `u` and those submitted again. So one
  during which no URB completes does if and only if it fails at the first. The next
  START is not refused on its account if and only if, besides, no handler is executing
  when it returns; or past its test of `running`, where the handler ends before that
  START.
-/

namespace DjmT1.Kernel

open DjmT1.Lib

variable {hw : HwParams} {d : Dir} {s t : Stream}

/-- The URBs that have come back and those submitted again since START was called. -/
structure Returned where
  completed : ℕ
  resubmitted : ℕ

def Returned.next (g : Returned) (s : Stream) (l : StreamLabel) (_ : Stream) : Returned :=
  match l, s.handler with
  | .complete _ _, _ => { g with completed := g.completed + 1 }
  | .handler ok, .submit u =>
    if (usbSubmitUrb s u ok).2 then { g with resubmitted := g.resubmitted + 1 } else g
  | _, _ => g

/-- A stream from a call of START in the state `s₀` on. -/
def startMachine (hw : HwParams) (d : Dir) (s₀ : Stream) :
    Machine (Stream × Returned) StreamLabel :=
  ((streamMachine hw d).startingAt (triggerStart s₀)).observe (fun _ => ⟨0, 0⟩) Returned.next

instance (hw : HwParams) (d : Dir) (s₀ : Stream) (e : Stream × Returned) (l : StreamLabel) :
    Decidable ((startMachine hw d s₀).enabled e l) :=
  inferInstanceAs (Decidable (streamEnabled e.1 l))

/-- ALSA may start the stream, none of whose URBs is in flight. -/
structure CanStart (hw : HwParams) (d : Dir) (s : Stream) : Prop where
  reach : (streamMachine hw d).Reach s
  control : s.control = .idle
  prepared : s.state = .prepared
  stopped : s.running = false
  back : s.flying = ∅

/-- START has not returned. -/
def InStart (s : Stream) : Prop := s.control ≠ .idle

instance (s : Stream) : Decidable (InStart s) := inferInstanceAs (Decidable (_ ≠ _))

/-- START fails in the state `s` at URB `u`, and leaves `t`. -/
structure FailsAt (hw : HwParams) (d : Dir) (s : Stream) (u : Fin nurb) (t : Stream) : Prop where
  control : ∃ rest, s.control = .start (u :: rest)
  step : ∃ ok, (usbSubmitUrb s u ok).2 = false ∧ (streamMachine hw d).Step s (.trigger ok) t

/-- The stream is as it was before START. -/
structure LeavesNothing (t : Stream) : Prop where
  stopped : t.running = false
  back : t.flying = ∅

/-- The handler submits its URB, whatever becomes of `running`. -/
def HandlerPc.PastTest (d : Dir) : HandlerPc → Prop
  | .submit _ => True
  | .packet _ _ => d = .playback
  | .none | .test _ | .resubmit _ => False

/-- In the state `r` ALSA may issue the next START after `t`. -/
def NextStart (hw : HwParams) (d : Dir) (t r : Stream) : Prop :=
  ((streamMachine hw d).startingAt t).ReachIf (fun _ l _ => l ≠ .start) r ∧
    streamEnabled r .start

/-- A START in the state `r` is not refused where the USB core has room: no URB that it
    comes to submit is in flight. -/
def NotRefused (hw : HwParams) (d : Dir) (r : Stream) : Prop :=
  ∀ s, ((streamMachine hw d).startingAt (triggerStart r)).ReachIf (fun s _ _ => InStart s) s →
    ∀ u rest, s.control = .start (u :: rest) → (usbSubmitUrb s u true).2

/-! ## Counting the URBs in flight -/

/-- A successful `usb_submit_urb` adds a URB to those in flight. -/
theorem usbSubmitUrb_card (s : Stream) (u : Fin nurb) (ok : Bool) :
    (usbSubmitUrb s u ok).1.flying.card =
      s.flying.card + if (usbSubmitUrb s u ok).2 then 1 else 0 := by
  unfold usbSubmitUrb
  by_cases h : ok ∧ u ∉ s.flying
  · rw [if_pos h, if_pos rfl]
    exact Finset.card_insert_of_notMem h.2
  · rw [if_neg h, if_neg Bool.false_ne_true]
    rfl

theorem completeStep_submit {u : Fin nurb} (h : s.handler = .submit u) (ok : Bool) :
    completeStep hw d s ok = some { (usbSubmitUrb s u ok).1 with handler := .none } := by
  cases d with
  | capture => simp [completeStep, inComplete, h]
  | playback => simp [completeStep, outComplete, h]

/-- In its loop at URB `k`, START has submitted `k` URBs, and those in flight are these
    and the ones submitted again, less the ones completed. -/
def StartInv (s : Stream) (g : Returned) : Prop :=
  ∀ rest, s.control = .start rest →
    ∃ k, rest = (List.finRange nurb).drop k ∧ s.flying.card + g.completed = k + g.resubmitted

theorem StartInv.congr {g : Returned} (h : StartInv s g) (hctl : t.control = s.control)
    (hfly : t.flying = s.flying) : StartInv t g := by
  intro rest hrest
  rw [hfly]
  exact h rest (hctl ▸ hrest)

/-- The URB at the head of the rest of the loop is the next in order. -/
theorem drop_finRange {n k : ℕ} {u : Fin n} {rest : List (Fin n)}
    (h : u :: rest = (List.finRange n).drop k) :
    (u : ℕ) = k ∧ rest = (List.finRange n).drop (k + 1) := by
  have hk : k < (List.finRange n).length := by
    by_contra hge
    rw [List.drop_eq_nil_of_le (not_lt.mp hge)] at h
    exact absurd h (List.cons_ne_nil u rest)
  rw [List.drop_eq_getElem_cons hk] at h
  obtain ⟨rfl, rfl⟩ := List.cons.inj h
  exact ⟨by simp, rfl⟩

/-- A turn of the START loop. -/
theorem StartInv.trigger {g : Returned} {ok : Bool} (h : StartInv s g)
    (hst : triggerStep s ok = some t) : StartInv t g := by
  intro rest hrest
  cases hctl : s.control with
  | idle => simp [triggerStep, hctl] at hst
  | start todo =>
    obtain ⟨k, hk, hcount⟩ := h todo hctl
    cases todo with
    | nil =>
      simp only [triggerStep, hctl] at hst
      obtain rfl := Option.some.inj hst
      cases hrest
    | cons u todo =>
      have hcard := usbSubmitUrb_card s u ok
      rcases hsub : usbSubmitUrb s u ok with ⟨s', b⟩
      rw [hsub] at hcard
      simp only [triggerStep, hctl, hsub] at hst
      cases b with
      | false => obtain rfl := Option.some.inj hst; cases hrest
      | true =>
        obtain rfl := Option.some.inj hst
        obtain rfl : todo = rest := ControlPc.start.inj hrest
        refine ⟨k + 1, (drop_finRange hk).2, ?_⟩
        simp only [if_true] at hcard
        show s'.flying.card + g.completed = k + 1 + g.resubmitted
        omega

/-- A step of the handler submits its URB again or submits nothing. -/
theorem StartInv.complete {g : Returned} {ok : Bool} (h : StartInv s g)
    (hst : completeStep hw d s ok = some t) : StartInv t (g.next s (.handler ok) t) := by
  by_cases hsubmit : ∃ u, s.handler = .submit u
  · obtain ⟨u, hu⟩ := hsubmit
    obtain rfl := Option.some.inj ((completeStep_submit hu ok).symm.trans hst)
    have hcard := usbSubmitUrb_card s u ok
    have hctl : (usbSubmitUrb s u ok).1.control = s.control := by
      rcases usbSubmitUrb_cases s u ok with hsub | hsub <;> rw [hsub]
    intro rest hrest
    obtain ⟨k, hk, hcount⟩ := h rest (hctl ▸ hrest)
    refine ⟨k, hk, ?_⟩
    simp only [Returned.next, hu]
    split_ifs at hcard ⊢
    · show (usbSubmitUrb s u ok).1.flying.card + g.completed = k + (g.resubmitted + 1)
      omega
    · show (usbSubmitUrb s u ok).1.flying.card + g.completed = k + g.resubmitted
      omega
  · have hnext : g.next s (.handler ok) t = g := by
      cases hh : s.handler with
      | submit u => exact absurd ⟨u, hh⟩ hsubmit
      | _ => simp [Returned.next, hh]
    rw [hnext]
    rcases completeStep_cases hst with ⟨u, hu, _⟩ | ⟨heq, _⟩
    · exact absurd ⟨u, hu⟩ hsubmit
    · exact h.congr (by rw [heq]) (by rw [heq])

/-- A step taken during START. -/
theorem StartInv.step {g : Returned} {l : StreamLabel} (h : StartInv s g) (hin : InStart s)
    (hen : streamEnabled s l) (hst : streamExec hw d s l = some t) :
    StartInv t (g.next s l t) := by
  cases l with
  | prepare => exact absurd hen.1 hin
  | start => exact absurd hen.1 hin
  | stop => exact absurd hen hin
  | trigger ok => exact h.trigger hst
  | app dma => obtain rfl := Option.some.inj hst; exact h.congr rfl rfl
  | handler ok => exact h.complete hst
  | complete u r =>
    obtain rfl := Option.some.inj hst
    intro rest hrest
    obtain ⟨k, hk, hcount⟩ := h rest hrest
    refine ⟨k, hk, ?_⟩
    have hpos : 0 < s.flying.card := Finset.card_pos.mpr ⟨u, hen.1⟩
    show (s.flying.erase u).card + (g.completed + 1) = k + g.resubmitted
    rw [Finset.card_erase_of_mem hen.1]
    omega

/-- The invariant holds as long as START has not returned. -/
theorem start_inv {s₀ : Stream} {g : Returned} (h₀ : CanStart hw d s₀)
    (h : (startMachine hw d s₀).ReachIf (fun e _ _ => InStart e.1) (s, g)) : StartInv s g := by
  refine Machine.ReachIf.observe (C := fun s _ _ => InStart s) (I := StartInv) h ?_ ?_
  · rintro _ rfl
    rintro _ ⟨⟩
    refine ⟨0, rfl, ?_⟩
    show s₀.flying.card + 0 = 0 + 0
    rw [h₀.back]
    rfl
  · intro s l t g _ hi hst hin
    exact hi.step hin hst.1 hst.2

/-- The stream is still prepared, and as it was laid out. -/
theorem start_prepared {s₀ : Stream} (h₀ : CanStart hw d s₀)
    (h : ((streamMachine hw d).startingAt (triggerStart s₀)).ReachIf (fun s _ _ => InStart s) s)
    (hin : InStart s) : StreamInv hw d s ∧ s.state = .prepared := by
  suffices hinv : StreamInv hw d s ∧ (InStart s → s.state = .prepared) from
    ⟨hinv.1, hinv.2 hin⟩
  apply h.invariant
  · rintro _ rfl
    exact ⟨(stream_inv h₀.reach).congr rfl rfl rfl (stream_inv h₀.reach).handler,
      fun _ => h₀.prepared⟩
  · rintro s l t - ⟨hinv, hprep⟩ ⟨hen, hst⟩ hin
    obtain ⟨t', ht', hinv'⟩ := hinv.step hen
    obtain rfl : t' = t := Option.some.inj (ht'.symm.trans hst)
    refine ⟨hinv', fun hin' => ?_⟩
    have hprep := hprep hin
    cases l with
    | prepare | start => exact absurd hen.1 hin
    | stop => exact absurd hen hin
    | app | complete =>
      obtain rfl := Option.some.inj hst
      exact hprep
    | handler ok =>
      rcases completeStep_cases hst with ⟨u, _, rfl⟩ | ⟨heq, _⟩
      · rw [usbSubmitUrb_frame]
        exact hprep
      · rw [heq]
        exact hprep
    | trigger ok =>
      rcases triggerStep_cases hst with ⟨_, rfl⟩ | ⟨u, rest, _, rfl⟩ | ⟨u, rest, _, rfl⟩
      · exact absurd rfl hin'
      · exact hprep
      · exact absurd rfl hin'

/-! ## The next START -/

/-- Nothing of the stream is in flight or will be. -/
structure AtRest (d : Dir) (s : Stream) : Prop extends LeavesNothing s where
  control : s.control = .idle
  handler : ¬ s.handler.PastTest d

/-- A handler that has yet to test `running` submits nothing. -/
theorem AtRest.complete {ok : Bool} (h : AtRest d s) (hst : completeStep hw d s ok = some t) :
    AtRest d t := by
  have hstop : ¬ s.running := by simp [h.stopped]
  cases d with
  | capture =>
    cases inComplete_move hst with
    | leave | finish => exact ⟨⟨h.stopped, h.back⟩, h.control, id⟩
    | skip => exact ⟨⟨h.stopped, h.back⟩, h.control, Dir.noConfusion⟩
    | transfer _ _ _ ht =>
      rw [transferStep_frame ht]
      exact ⟨⟨h.stopped, h.back⟩, h.control, Dir.noConfusion⟩
    | stop => exact ⟨⟨h.stopped, h.back⟩, h.control, id⟩
    | enter _ hrun | reset _ hrun => exact absurd hrun hstop
    | submit hh => exact absurd (by rw [hh]; trivial) h.handler
  | playback =>
    cases outComplete_move hst with
    | leave => exact ⟨⟨h.stopped, h.back⟩, h.control, id⟩
    | enter _ hrun => exact absurd hrun hstop
    | transfer hh | finish hh => exact absurd (by rw [hh]; rfl) h.handler
    | submit hh => exact absurd (by rw [hh]; trivial) h.handler

/-- Until the next START nothing is submitted, and a handler that has ended stays so. -/
theorem AtRest.next (h : AtRest d s) (hnext : NextStart hw d s t) :
    AtRest d t ∧ (s.handler = .none → t.handler = .none) := by
  refine hnext.1.invariant
    (I := fun r => AtRest d r ∧ (s.handler = .none → r.handler = .none)) ?_ ?_
  · rintro _ rfl
    exact ⟨h, id⟩
  · rintro r l t - ⟨hr, hnone⟩ ⟨hen, hst⟩ hl
    cases l with
    | prepare | app =>
      obtain rfl := Option.some.inj hst
      exact ⟨⟨⟨hr.stopped, hr.back⟩, hr.control, hr.handler⟩, hnone⟩
    | stop =>
      obtain rfl := Option.some.inj hst
      exact ⟨⟨⟨rfl, hr.back⟩, hr.control, hr.handler⟩, hnone⟩
    | start => exact absurd rfl hl
    | trigger => exact absurd hr.control hen
    | complete u => exact absurd (hr.back ▸ hen.1) (Finset.notMem_empty u)
    | handler => exact ⟨hr.complete hst, fun hs => absurd (hnone hs) hen⟩

/-- A START that finds nothing in flight and no handler executing is not refused. -/
theorem notRefused (hback : s.flying = ∅) (hhd : s.handler = .none) : NotRefused hw d s := by
  intro t ht u rest hctl
  have hinv : SubmitInv t := by
    apply ht.invariant
    · rintro _ rfl
      have hcur : (triggerStart s).handler.current = none := by
        simp only [triggerStart, hhd, HandlerPc.current]
      refine ⟨fun v hv => absurd (hcur ▸ hv) (Option.not_mem_none v), ?_⟩
      rintro _ ⟨⟩
      refine ⟨List.nodup_finRange nurb, fun v _ => ⟨?_, ?_⟩⟩
      · rw [triggerStart, hback]
        exact Finset.notMem_empty v
      · rw [hcur]
        exact Option.not_mem_none v
    · rintro r l t - hr ⟨hen, hst⟩ hin
      refine hr.step hen hst ?_
      cases l with
      | start => exact absurd hen.1 hin
      | _ => trivial
  have hidle := (hinv.rest _ hctl).2 u List.mem_cons_self
  rw [usbSubmitUrb, if_pos ⟨rfl, hidle.1⟩]

/-- The steps that a handler takes at most until it submits its URB. -/
def HandlerPc.left : HandlerPc → ℕ
  | .none => 0
  | .submit _ => 1
  | .resubmit _ => 2
  | .packet _ i => npkt - i + 3
  | .test _ => npkt + 4

/-- A handler that is past its test, or finds the stream running, comes nearer to
    submitting its URB. -/
theorem handler_goes_on {u : Fin nurb} (hinv : StreamInv hw d s)
    (hcur : s.handler.current = some u) (hne : s.handler ≠ .submit u)
    (hgo : s.running ∨ s.handler.PastTest d) :
    ∃ t, completeStep hw d s true = some t ∧ StreamInv hw d t ∧
      t = { s with pcm := t.pcm, urb := t.urb, log := t.log, handler := t.handler } ∧
      t.handler.current = some u ∧ (t.running ∨ t.handler.PastTest d) ∧
      t.handler.left < s.handler.left := by
  obtain ⟨t, ht, hinv'⟩ := hinv.complete (HandlerPc.exists_current.mp ⟨u, hcur⟩) true
  refine ⟨t, ht, hinv', ?_⟩
  cases d with
  | capture =>
    cases inComplete_move ht with
    | leave hh | enter hh | reset hh =>
      rw [hh] at hcur hgo ⊢
      refine ⟨rfl, hcur, .inl (hgo.resolve_right id), ?_⟩
      simp only [HandlerPc.left]
      omega
    | finish hh =>
      rw [hh] at hcur hgo ⊢
      refine ⟨rfl, hcur, .inl (hgo.resolve_right Dir.noConfusion), ?_⟩
      simp only [HandlerPc.left]
      omega
    | skip hh hi =>
      rw [hh] at hcur hgo ⊢
      refine ⟨rfl, hcur, .inl (hgo.resolve_right Dir.noConfusion), ?_⟩
      simp only [HandlerPc.left]
      omega
    | transfer hh hi _ htr =>
      rw [hh] at hcur hgo ⊢
      rw [transferStep_frame htr]
      refine ⟨rfl, hcur, .inl (hgo.resolve_right Dir.noConfusion), ?_⟩
      simp only [HandlerPc.left]
      omega
    | stop hh hstop =>
      rw [hh, hstop] at hgo
      exact absurd (hgo.resolve_right id) Bool.false_ne_true
    | submit hh =>
      rw [hh] at hcur hne
      exact absurd (congrArg HandlerPc.submit (Option.some.inj hcur)) hne
  | playback =>
    cases outComplete_move ht with
    | leave hh hstop =>
      rw [hh, hstop] at hgo
      exact absurd (hgo.resolve_right id) Bool.false_ne_true
    | enter hh hrun =>
      rw [hh] at hcur ⊢
      refine ⟨rfl, hcur, .inl hrun, ?_⟩
      simp only [HandlerPc.left]
      omega
    | transfer hh hi htr =>
      rw [hh] at hcur ⊢
      rw [transferStep_frame htr]
      refine ⟨rfl, hcur, .inr rfl, ?_⟩
      simp only [HandlerPc.left]
      omega
    | finish hh =>
      rw [hh] at hcur ⊢
      refine ⟨rfl, hcur, .inr trivial, ?_⟩
      simp only [HandlerPc.left]
      omega
    | submit hh =>
      rw [hh] at hcur hne
      exact absurd (congrArg HandlerPc.submit (Option.some.inj hcur)) hne

/-- So it submits its URB, in some run from there. -/
theorem handler_submits {s₀ : Stream} {C : Stream → StreamLabel → Stream → Prop} {u : Fin nurb}
    (hC : ∀ r r', r.control = s.control → C r (.handler true) r')
    (hr : ((streamMachine hw d).startingAt s₀).ReachIf C s) (hinv : StreamInv hw d s)
    (hcur : s.handler.current = some u) (hidle : u ∉ s.flying)
    (hgo : s.running ∨ s.handler.PastTest d) :
    ∃ t, ((streamMachine hw d).startingAt s₀).ReachIf C t ∧ t.flying = insert u s.flying ∧
      t.handler = .none ∧ t.control = s.control ∧ t.state = s.state := by
  induction hleft : s.handler.left using Nat.strong_induction_on generalizing s with
  | _ n ih =>
    have hen : s.handler ≠ .none := HandlerPc.exists_current.mp ⟨u, hcur⟩
    by_cases hsub : s.handler = .submit u
    · have hone : usbSubmitUrb s u true = ({ s with flying := insert u s.flying }, true) :=
        if_pos ⟨rfl, hidle⟩
      have hstep : ((streamMachine hw d).startingAt s₀).Step s (.handler true) _ :=
        ⟨hen, completeStep_submit hsub true⟩
      refine ⟨_, hr.step hstep (hC _ _ rfl), ?_⟩
      rw [hone]
      exact ⟨rfl, rfl, rfl, rfl⟩
    · obtain ⟨t, ht, htinv, heq, htcur, htgo, hlt⟩ := handler_goes_on hinv hcur hsub hgo
      have hstep : ((streamMachine hw d).startingAt s₀).Step s (.handler true) t := ⟨hen, ht⟩
      have hctl : t.control = s.control := by rw [heq]
      have hfly : t.flying = s.flying := by rw [heq]
      have hstate : t.state = s.state := by rw [heq]
      obtain ⟨r, hreach, hrfly, hrhd, hrctl, hrstate⟩ := ih _ (hleft ▸ hlt)
        (fun a b hab => hC a b (hab.trans hctl)) (hr.step hstep (hC _ _ rfl)) htinv htcur
        (hfly ▸ hidle) htgo rfl
      exact ⟨r, hreach, hfly ▸ hrfly, hrhd, hrctl.trans hctl, hrstate.trans hstate⟩

/-- A START that has yet to submit a URB in flight is refused, in some run. -/
theorem start_refused {s₀ : Stream} {u : Fin nurb} {rest : List (Fin nurb)}
    (hr : ((streamMachine hw d).startingAt s₀).ReachIf (fun s _ _ => InStart s) s)
    (hctl : s.control = .start rest) (hu : u ∈ rest) (hfly : u ∈ s.flying) :
    ∃ t v todo, ((streamMachine hw d).startingAt s₀).ReachIf (fun s _ _ => InStart s) t ∧
      t.control = .start (v :: todo) ∧ v ∈ t.flying := by
  induction rest generalizing s with
  | nil => exact absurd hu List.not_mem_nil
  | cons v rest ih =>
    by_cases hv : v ∈ s.flying
    · exact ⟨s, v, rest, hr, hctl, hv⟩
    · have hin : InStart s := by
        rw [InStart, hctl]
        exact ControlPc.noConfusion
      have hone : usbSubmitUrb s v true = ({ s with flying := insert v s.flying }, true) :=
        if_pos ⟨rfl, hv⟩
      have hturn : ((streamMachine hw d).startingAt s₀).Step s (.trigger true)
          { s with flying := insert v s.flying, control := .start rest } := by
        refine ⟨hin, ?_⟩
        change triggerStep s true = _
        simp only [triggerStep, hctl, hone]
      have hrest : u ∈ rest := (List.mem_cons.mp hu).resolve_left fun he => hv (he ▸ hfly)
      exact ih (hr.step hturn hin) rfl hrest (Finset.mem_insert_of_mem hfly)

/-- A URB in flight, or one whose handler may yet submit it, refuses the START. -/
theorem not_notRefused {u : Fin nurb}
    (hbad : u ∈ s.flying ∨ (StreamInv hw d s ∧ u ∉ s.flying ∧ s.handler.current = some u)) :
    ¬ NotRefused hw d s := by
  intro hnot
  have hin : InStart (triggerStart s) := ControlPc.noConfusion
  have hr : ((streamMachine hw d).startingAt (triggerStart s)).ReachIf (fun s _ _ => InStart s)
      (triggerStart s) := .init rfl
  have hstarted : ∃ t, ((streamMachine hw d).startingAt (triggerStart s)).ReachIf
      (fun s _ _ => InStart s) t ∧ u ∈ t.flying ∧ t.control = .start (List.finRange nurb) := by
    rcases hbad with hfly | ⟨hinv, hidle, hcur⟩
    · exact ⟨_, hr, hfly, rfl⟩
    · obtain ⟨t, ht, htfly, _, hctl, _⟩ := handler_submits (s := triggerStart s)
        (fun a _ ha => by rw [InStart, ha]; exact hin) hr
        (hinv.congr rfl rfl rfl hinv.handler) hcur hidle (.inl rfl)
      exact ⟨t, ht, htfly ▸ Finset.mem_insert_self u _, hctl⟩
  obtain ⟨t, ht, hfly, hctl⟩ := hstarted
  obtain ⟨r, v, todo, hr, hrctl, hv⟩ := start_refused ht hctl (List.mem_finRange u) hfly
  have hok := hnot r hr v todo hrctl
  rw [usbSubmitUrb, if_neg fun h => h.2 hv] at hok
  exact Bool.false_ne_true hok

/-- The next START is not refused if and only if no handler is executing. -/
theorem next_notRefused (h : LeavesNothing s) (hinv : StreamInv hw d s)
    (hctl : s.control = .idle) (hprep : s.state = .prepared) :
    (∀ r, NextStart hw d s r → NotRefused hw d r) ↔ s.handler = .none := by
  constructor
  · intro hall
    by_contra hne
    obtain ⟨u, hu⟩ := HandlerPc.exists_current.mpr hne
    refine not_notRefused (.inr ⟨hinv, ?_, hu⟩) (hall s ⟨.init rfl, hctl, hprep⟩)
    rw [h.back]
    exact Finset.notMem_empty u
  · intro hnone r hr
    obtain ⟨hrest, hhd⟩ := AtRest.next ⟨h, hctl, by rw [hnone]; exact id⟩ hr
    exact notRefused hrest.back (hhd hnone)

/-- Where the handler ends before it, if and only if none is past its test. -/
theorem next_notRefused_ended (h : LeavesNothing s) (hinv : StreamInv hw d s)
    (hctl : s.control = .idle) (hprep : s.state = .prepared) :
    (∀ r, NextStart hw d s r → r.handler = .none → NotRefused hw d r) ↔
      ¬ s.handler.PastTest d := by
  constructor
  · intro hall hpast
    have hne : s.handler ≠ .none := by
      intro hnone
      rw [hnone] at hpast
      exact hpast
    obtain ⟨u, hu⟩ := HandlerPc.exists_current.mpr hne
    have hr : ((streamMachine hw d).startingAt s).ReachIf (fun _ l _ => l ≠ .start) s := .init rfl
    obtain ⟨t, ht, hfly, hhd, htctl, htstate⟩ := handler_submits
      (fun _ _ _ => StreamLabel.noConfusion) hr hinv hu
      (by rw [h.back]; exact Finset.notMem_empty u) (.inr hpast)
    refine not_notRefused (u := u) (.inl ?_)
      (hall t ⟨ht, htctl.trans hctl, htstate.trans hprep⟩ hhd)
    rw [hfly]
    exact Finset.mem_insert_self u _
  · intro hpast r hr hhd
    exact notRefused (AtRest.next ⟨h, hctl, hpast⟩ hr).1.back hhd

/-! ## What a failed START leaves -/

/-- A stream that has been prepared, before a first START. -/
def preparedStream : Stream := djmt1Prepare (probedStream onesRing)

theorem preparedStream_canStart : CanStart smallHw d preparedStream :=
  ⟨.step (t := preparedStream) (l := .prepare) (.init ⟨onesRing, rfl, rfl⟩)
    ⟨⟨rfl, PcmState.noConfusion⟩, rfl⟩ trivial, rfl, rfl, rfl, rfl⟩

theorem startMachine_init (hw : HwParams) (d : Dir) (s₀ : Stream) :
    (startMachine hw d s₀).init (triggerStart s₀, ⟨0, 0⟩) := ⟨rfl, rfl⟩

/-- A START that fails leaves a URB in flight, on which the next START fails in turn. -/
theorem failed_start_leaves_urb :
    (CanStart smallHw .playback preparedStream ∧
      ∃ s t g, (startMachine smallHw .playback preparedStream).ReachIf
        (fun e _ _ => InStart e.1) (s, g) ∧ FailsAt smallHw .playback s 1 t ∧ ¬ LeavesNothing t) ∧
    ∃ t s, (streamMachine smallHw .playback).play preparedStream
        [.start, .trigger true, .trigger false] = some t ∧
      (streamMachine smallHw .playback).play t [.prepare, .start] = some s ∧
      (usbSubmitUrb s 0 true).2 = false := by
  constructor
  · let s : Stream := { triggerStart preparedStream with
      flying := {0}, control := .start [1, 2, 3] }
    have hreach : (startMachine smallHw .playback preparedStream).playIf
        (fun e _ _ => InStart e.1) (triggerStart preparedStream, ⟨0, 0⟩) [.trigger true] =
          some (s, ⟨0, 0⟩) := rfl
    refine ⟨preparedStream_canStart, s, { s with running := false, control := .idle }, _,
      Machine.playIf_reachIf (.init (startMachine_init _ _ _)) hreach,
      ⟨⟨_, rfl⟩, false, rfl, ControlPc.noConfusion, rfl⟩, ?_⟩
    intro h
    exact absurd h.back (by decide)
  · exact ⟨_, _, rfl, rfl, rfl⟩

/-- **A failed START.** In every run from a call of START that fails at URB `u`, the
    stream is left as it was before the call if and only if as many URBs have completed
    during the call as were submitted: `u` by START, and those submitted again. It is
    left so that the next START is not refused on its account, whenever that comes, if
    and only if, besides, no handler is executing; and so that the next START is not
    refused that comes when the handlers have ended, if and only if none is past its
    test of `running`. -/
theorem failed_start {s₀ : Stream} {g : Returned} {u : Fin nurb} (h₀ : CanStart hw d s₀)
    (h : (startMachine hw d s₀).ReachIf (fun e _ _ => InStart e.1) (s, g))
    (hfail : FailsAt hw d s u t) :
    t.running = false ∧ (LeavesNothing t ↔ g.completed = u + g.resubmitted) ∧
    (LeavesNothing t ∧ (∀ r, NextStart hw d t r → NotRefused hw d r) ↔
      g.completed = u + g.resubmitted ∧ s.handler = .none) ∧
    (LeavesNothing t ∧ (∀ r, NextStart hw d t r → r.handler = .none → NotRefused hw d r) ↔
      g.completed = u + g.resubmitted ∧ ¬ s.handler.PastTest d) := by
  obtain ⟨⟨rest, hctl⟩, ok, hsub, _, hst⟩ := hfail
  obtain ⟨k, hk, hcount⟩ := start_inv h₀ h _ hctl
  obtain ⟨rfl, _⟩ := drop_finRange hk
  have ht : t = { s with running := false, control := .idle } := by
    have hsame : usbSubmitUrb s u ok = (s, false) := by
      rcases usbSubmitUrb_cases s u ok with heq | heq
      · rw [heq] at hsub; exact absurd hsub.symm Bool.false_ne_true
      · exact heq
    have hst : triggerStep s ok = some t := hst
    simp only [triggerStep, hctl, hsame] at hst
    exact (Option.some.inj hst).symm
  obtain ⟨hinv, hprep⟩ := start_prepared h₀
    (Machine.ReachIf.unobserved (C := fun s _ _ => InStart s) h)
    (by rw [InStart, hctl]; exact ControlPc.noConfusion)
  have htinv : StreamInv hw d t := by
    rw [ht]
    exact hinv.congr rfl rfl rfl hinv.handler
  have hcard : t.flying.card + g.completed = u + g.resubmitted := by
    rw [ht]
    exact hcount
  have hleaves : LeavesNothing t ↔ g.completed = u + g.resubmitted := by
    constructor
    · rintro ⟨_, hback⟩
      rw [hback, Finset.card_empty] at hcard
      omega
    · intro hall
      refine ⟨by rw [ht], Finset.card_eq_zero.mp ?_⟩
      omega
  have hhd : t.handler = s.handler := by rw [ht]
  refine ⟨by rw [ht], hleaves, ?_, ?_⟩
  · rw [← hleaves, ← hhd]
    exact and_congr_right fun hl => next_notRefused hl htinv (by rw [ht]) (by rw [ht]; exact hprep)
  · rw [← hleaves, ← hhd]
    exact and_congr_right fun hl =>
      next_notRefused_ended hl htinv (by rw [ht]) (by rw [ht]; exact hprep)

/-- The first URB completes during START, and is not accepted again. -/
def refusedRun : List StreamLabel :=
  [.trigger true, .complete 0 ⟨-71, fun _ => 0, fun _ => 0, Region.fill urbBytes 0⟩,
    .handler true, .handler true, .handler false]

theorem failed_start_refusedRun :
    ∃ s g, (startMachine smallHw .capture preparedStream).playIf (fun e _ _ => InStart e.1)
        (triggerStart preparedStream, ⟨0, 0⟩) refusedRun = some (s, g) ∧
      LeavesNothing { s with running := false, control := .idle } ∧
      ∀ r, NextStart smallHw .capture { s with running := false, control := .idle } r →
        NotRefused smallHw .capture r := by
  have hrun : ∃ s g, (startMachine smallHw .capture preparedStream).playIf
      (fun e _ _ => InStart e.1) (triggerStart preparedStream, ⟨0, 0⟩) refusedRun =
        some (s, g) ∧ s.control = .start [1, 2, 3] ∧ (usbSubmitUrb s 1 false).2 = false ∧
      streamExec smallHw .capture s (.trigger false) =
        some { s with running := false, control := .idle } ∧
      g.completed = 1 + g.resubmitted ∧ s.handler = .none :=
    ⟨_, _, rfl, rfl, rfl, rfl, rfl, rfl⟩
  obtain ⟨s, g, hplay, hctl, hsub, hstep, hcount, hhd⟩ := hrun
  have hin : streamEnabled s (.trigger false) := by
    change s.control ≠ .idle
    rw [hctl]
    exact ControlPc.noConfusion
  obtain ⟨_, _, hnext, _⟩ := failed_start (u := 1) preparedStream_canStart
    (Machine.playIf_reachIf (.init (startMachine_init _ _ _)) hplay)
    ⟨⟨_, hctl⟩, false, hsub, hin, hstep⟩
  exact ⟨s, g, hplay, hnext.mpr ⟨hcount, hhd⟩⟩

end DjmT1.Kernel
