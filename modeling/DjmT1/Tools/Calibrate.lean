import DjmT1.Lib.Json
import DjmT1.Lib.Machine

/-!
# The calibration store

`calibrate.py` keeps one record for each control in `calibration.json`. It reads the file
when it starts, and writes all of it again, by way of a temporary file, after each capture
and when it ends. `machine` takes it through a session, one file operation at a time; an
operation may fail, and a write leaves any part of the document behind if it does.

* `record_document`: a document that `save_results` has written holds the records.
* `failed_load_loses`: `load_results` passes a file that cannot be read off as an empty one,
  and the session ends by writing that.
* `calibration_kept`: the file is a complete document at any time, and the records that the
  session does not touch are kept exactly if it was read, or not written.
-/

namespace DjmT1.Tools

open DjmT1.Lib

/-- `data` in `save_results` (tools/calibrate.py:282-284). -/
def document (portDesc now : String) (results : Json.Dict) : Json :=
  .obj [("port", .str portDesc), ("captured_at", .str now), ("controls", .ofDict results)]

/-- `load_results` on a file that can be read (lines 274-279). A `controls` that is no
    object, which it returns as it is, is outside the model. -/
def loadResults (text : List Json.Token) : Option Json.Dict :=
  match Json.parse text with
  | some (.obj ms) =>
    match (Json.dict ms).lookup "controls" with
    | some (.obj cs) => some (Json.dict cs)
    | some _ => none
    | none => some ∅
  | _ => some ∅

/-- The record that a file holds for a control. -/
def record (text : List Json.Token) (cid : String) : Option Json :=
  (loadResults text).bind fun d => d.lookup cid

theorem loadResults_document (portDesc now : String) (results : Json.Dict) :
    loadResults (document portDesc now results).tokens =
      some (Json.dict (results.entries.map fun e => (e.1, e.2))) := by
  rw [loadResults, Json.parse_tokens]
  rfl

/-- A document that `save_results` has written holds the records. -/
theorem record_document (portDesc now : String) (results : Json.Dict) (cid : String) :
    record (document portDesc now results).tokens cid = results.lookup cid := by
  rw [record, loadResults_document, Option.bind_some, Json.lookup_dict_entries]

/-! ## A session -/

/-- Who has called `save_results`: `run_tui`, or the `finally` block of `main`. -/
inductive Caller
  | tui | final
  deriving DecidableEq

/-- Where `main` is. -/
inductive Pc
  /-- before `load_results()` (line 615) -/
  | load
  /-- in `run_tui`, waiting for a key -/
  | tui
  /-- before `open(tmp, "w")` in `save_results` (line 287) -/
  | save (c : Caller)
  /-- in `json.dump`, with `k` tokens of `data` written -/
  | dump (c : Caller) (data : Json) (k : ℕ)
  /-- before `os.replace(tmp, OUT)` (line 289) -/
  | replace (c : Caller) (data : Json)
  | exited

/-- What `save_results` returns to. -/
def Caller.back : Caller → Pc
  | .tui => .tui
  | .final => .exited

/-- The files `OUT` and `tmp`, the variable `results`, and where `main` is. -/
structure Store where
  out : List Json.Token
  tmp : Option (List Json.Token)
  results : Json.Dict
  pc : Pc

/-- What happens next. -/
inductive Event
  /-- `load_results` reads the file, or fails -/
  | load (ok : Bool)
  /-- the user captures a control, gives a capture up, or clears a control -/
  | capture (cid : String) (rec : List (String × Json))
  | cancel
  | clear (cid : String)
  /-- `run_tui` ends, in whatever way -/
  | quit
  /-- `open(tmp, "w")`, at the time `now` -/
  | openTmp (now : String) (ok : Bool)
  /-- `json.dump` writes the next token -/
  | write
  /-- the `with` block ends -/
  | close
  /-- a write fails; this much of the document is in the file -/
  | fail (kept : ℕ)
  /-- `os.replace(tmp, OUT)` -/
  | replace (ok : Bool)
  /-- Ctrl-C in `save_results`; this much of the document is in the file -/
  | interrupt (kept : ℕ)

/-- What may happen at a point of the program. The process may also end at any point. -/
def Pc.allows : Pc → Event → Bool
  | .load, .load _ => true
  | .tui, .capture _ _ | .tui, .cancel | .tui, .clear _ | .tui, .quit => true
  | .save _, .openTmp _ _ => true
  | .dump _ data k, .write => k < data.tokens.length
  | .dump _ data k, .close => k = data.tokens.length
  | .dump _ _ _, .fail _ => true
  | .replace _ _, .replace _ => true
  | .save .tui, .interrupt _ | .dump .tui _ _, .interrupt _ | .replace .tui _, .interrupt _ => true
  | _, _ => false

/-- The steps of `load_results`, `run_tui` (lines 585-596), `save_results` (lines 281-292)
    and `main` (lines 615-622). -/
def exec (portDesc : String) (s : Store) (e : Event) : Option Store :=
  match s.pc, e with
  | .load, .load ok =>
    if ok then (loadResults s.out).map fun results => { s with results, pc := .tui }
    else some { s with results := ∅, pc := .tui }
  | .tui, .capture cid rec =>
    some { s with results := s.results.insert cid (.obj rec), pc := .save .tui }
  | .tui, .cancel => some s
  | .tui, .clear cid =>
    match s.results.lookup cid with
    | none => some s
    -- `pop` returns None for a null record, too
    | some .null => some { s with results := s.results.erase cid }
    | some _ => some { s with results := s.results.erase cid, pc := .save .tui }
  | .tui, .quit => some { s with pc := .save .final }
  | .save c, .openTmp now ok =>
    if ok then
      some { s with tmp := some [], pc := .dump c (document portDesc now s.results) 0 }
    else some { s with pc := c.back }
  | .dump c data k, .write =>
    some { s with tmp := some (data.tokens.take (k + 1)), pc := .dump c data (k + 1) }
  | .dump c data _, .close => some { s with pc := .replace c data }
  | .dump c data _, .fail kept => some { s with tmp := some (data.tokens.take kept), pc := c.back }
  | .replace c _, .replace ok =>
    if ok then s.tmp.map fun text => { s with out := text, tmp := none, pc := c.back }
    else some { s with pc := c.back }
  | .dump .tui data _, .interrupt kept =>
    some { s with tmp := some (data.tokens.take kept), pc := .save .final }
  | .save .tui, .interrupt _ | .replace .tui _, .interrupt _ => some { s with pc := .save .final }
  | _, _ => none

/-- The file is a document as `save_results` writes it. -/
def Complete (text : List Json.Token) : Prop :=
  ∃ portDesc now results, text = (document portDesc now results).tokens

/-- `calibrate.py`, started on a complete document. -/
def machine (portDesc : String) : Machine Store Event where
  init s := Complete s.out ∧ s.results = ∅ ∧ s.pc = .load
  enabled s e := s.pc.allows e
  exec := exec portDesc

/-- What is remembered of a session. -/
structure Session where
  /-- the file at the beginning -/
  first : List Json.Token
  /-- whether it could be read -/
  loaded : Bool
  /-- whether it has been replaced -/
  replaced : Bool
  /-- the controls that have been saved or cleared -/
  touched : List String

/-- The session after a step. -/
def Session.next (g : Session) (_ : Store) (e : Event) (_ : Store) : Session :=
  match e with
  | .load ok => { g with loaded := ok }
  | .capture cid _ | .clear cid => { g with touched := cid :: g.touched }
  | .replace ok => { g with replaced := g.replaced || ok }
  | .cancel | .quit | .openTmp _ _ | .write | .close | .fail _ | .interrupt _ => g

/-- `calibrate.py` and its session. -/
def sessionMachine (portDesc : String) : Machine (Store × Session) Event :=
  (machine portDesc).observe (fun s => ⟨s.out, false, false, []⟩) Session.next

instance (portDesc : String) (s : Store × Session) (e : Event) :
    Decidable ((sessionMachine portDesc).enabled s e) :=
  inferInstanceAs (Decidable (s.1.pc.allows e = true))

/-! ## What a step can do -/

variable {portDesc : String} {s t : Store} {g : Session}

/-- What a step can do. -/
inductive Move (portDesc : String) (s : Store) : Event → Store → Prop
  | load {results : Json.Dict} (hpc : s.pc = .load) (hload : loadResults s.out = some results) :
    Move portDesc s (.load true) { s with results, pc := .tui }
  | loadFails (hpc : s.pc = .load) :
    Move portDesc s (.load false) { s with results := ∅, pc := .tui }
  | capture {cid : String} {rec : List (String × Json)} (hpc : s.pc = .tui) :
    Move portDesc s (.capture cid rec)
      { s with results := s.results.insert cid (.obj rec), pc := .save .tui }
  | cancel (hpc : s.pc = .tui) : Move portDesc s .cancel s
  | clearNone {cid : String} (hpc : s.pc = .tui) : Move portDesc s (.clear cid) s
  | clear {cid : String} {pc : Pc} (hpc : s.pc = .tui) (hnext : pc = .tui ∨ pc = .save .tui) :
    Move portDesc s (.clear cid) { s with results := s.results.erase cid, pc }
  | quit (hpc : s.pc = .tui) : Move portDesc s .quit { s with pc := .save .final }
  | openTmp {c : Caller} {now : String} (hpc : s.pc = .save c) :
    Move portDesc s (.openTmp now true)
      { s with tmp := some [], pc := .dump c (document portDesc now s.results) 0 }
  | openFails {c : Caller} {now : String} (hpc : s.pc = .save c) :
    Move portDesc s (.openTmp now false) { s with pc := c.back }
  | write {c : Caller} {data : Json} {k : ℕ} (hpc : s.pc = .dump c data k) :
    Move portDesc s .write
      { s with tmp := some (data.tokens.take (k + 1)), pc := .dump c data (k + 1) }
  | close {c : Caller} {data : Json} (hpc : s.pc = .dump c data data.tokens.length) :
    Move portDesc s .close { s with pc := .replace c data }
  | fail {c : Caller} {data : Json} {k kept : ℕ} (hpc : s.pc = .dump c data k) :
    Move portDesc s (.fail kept) { s with tmp := some (data.tokens.take kept), pc := c.back }
  | replace {c : Caller} {data : Json} {text : List Json.Token} (hpc : s.pc = .replace c data)
    (htmp : s.tmp = some text) :
    Move portDesc s (.replace true) { s with out := text, tmp := none, pc := c.back }
  | replaceFails {c : Caller} {data : Json} (hpc : s.pc = .replace c data) :
    Move portDesc s (.replace false) { s with pc := c.back }
  | interrupt {kept : ℕ} {tmp : Option (List Json.Token)} (hload : s.pc ≠ .load) :
    Move portDesc s (.interrupt kept) { s with tmp, pc := .save .final }

theorem step_move {e : Event} (h : (machine portDesc).Step s e t) : Move portDesc s e t := by
  obtain ⟨hen, hst⟩ := h
  change s.pc.allows e = true at hen
  change exec portDesc s e = some t at hst
  unfold exec at hst
  split at hst
  case h_1 ok hpc =>
    cases ok with
    | true =>
      obtain ⟨results, hload, rfl⟩ := Option.map_eq_some_iff.mp hst
      exact .load hpc hload
    | false =>
      obtain rfl := Option.some.inj hst
      exact .loadFails hpc
  case h_2 cid rec hpc =>
    obtain rfl := Option.some.inj hst
    exact .capture hpc
  case h_3 hpc =>
    obtain rfl := Option.some.inj hst
    exact .cancel hpc
  case h_4 cid hpc =>
    split at hst
    · obtain rfl := Option.some.inj hst
      exact .clearNone hpc
    · obtain rfl := Option.some.inj hst
      exact @Move.clear portDesc s cid s.pc hpc (.inl hpc)
    · obtain rfl := Option.some.inj hst
      exact .clear hpc (.inr rfl)
  case h_5 hpc =>
    obtain rfl := Option.some.inj hst
    exact .quit hpc
  case h_6 c now ok hpc =>
    cases ok with
    | true =>
      obtain rfl := Option.some.inj hst
      exact .openTmp hpc
    | false =>
      obtain rfl := Option.some.inj hst
      exact .openFails hpc
  case h_7 c data k hpc =>
    obtain rfl := Option.some.inj hst
    exact .write hpc
  case h_8 c data k hpc =>
    obtain rfl := Option.some.inj hst
    rw [hpc] at hen
    obtain rfl : k = data.tokens.length := of_decide_eq_true hen
    exact .close hpc
  case h_9 c data k kept hpc =>
    obtain rfl := Option.some.inj hst
    exact .fail hpc
  case h_10 c data ok hpc =>
    cases ok with
    | true =>
      obtain ⟨text, htmp, rfl⟩ := Option.map_eq_some_iff.mp hst
      exact .replace hpc htmp
    | false =>
      obtain rfl := Option.some.inj hst
      exact .replaceFails hpc
  case h_11 data k kept hpc =>
    obtain rfl := Option.some.inj hst
    exact .interrupt (by simp [hpc])
  case h_12 kept hpc =>
    obtain rfl := Option.some.inj hst
    exact @Move.interrupt portDesc s kept s.tmp (by simp [hpc])
  case h_13 data kept hpc =>
    obtain rfl := Option.some.inj hst
    exact @Move.interrupt portDesc s kept s.tmp (by simp [hpc])
  case h_14 => cases hst

/-! ## What holds of all sessions -/

/-- The record that the session starts from. -/
def Session.expected (g : Session) (cid : String) : Option Json :=
  if g.loaded then record g.first cid else none

/-- The records are those that the session has started from, but for the controls it has
    saved or cleared. -/
def Session.Agrees (g : Session) (r : String → Option Json) : Prop :=
  ∀ cid, cid ∉ g.touched → r cid = g.expected cid

/-- The temporary file holds as much of the document as has been written. -/
def Store.Writes (s : Store) : Prop :=
  match s.pc with
  | .dump _ data k => s.tmp = some (data.tokens.take k) ∧
      ∃ portDesc now, data = document portDesc now s.results
  | .replace _ data => s.tmp = some data.tokens ∧
      ∃ portDesc now, data = document portDesc now s.results
  | .load | .tui | .save _ | .exited => True

structure StoreInv (s : Store) (g : Session) : Prop where
  first : Complete g.first
  out : Complete s.out
  unread : s.pc = .load → g.replaced = false
  kept : g.replaced = false → s.out = g.first
  wrote : g.replaced = true → g.Agrees (record s.out)
  results : s.pc ≠ .load → g.Agrees fun cid => s.results.lookup cid
  writes : s.Writes

/-- `main` goes on, with the file and the results as they are. -/
theorem StoreInv.goto (h : StoreInv s g) (hload : s.pc ≠ .load) (hout : t.out = s.out)
    (hres : t.results = s.results) (hpc : t.pc ≠ .load) (hwrites : t.Writes) : StoreInv t g := by
  refine ⟨h.first, ?_, fun hpc' => absurd hpc' hpc, ?_, ?_, fun _ => ?_, hwrites⟩
  · rw [hout]
    exact h.out
  · rw [hout]
    exact h.kept
  · rw [hout]
    exact h.wrote
  · rw [hres]
    exact h.results hload

/-- A control is saved or cleared. -/
theorem StoreInv.touch (h : StoreInv s g) {cid : String} (hload : s.pc ≠ .load)
    (hout : t.out = s.out) (hres : ∀ k, k ≠ cid → t.results.lookup k = s.results.lookup k)
    (hpc : t.pc ≠ .load) (hwrites : t.Writes) :
    StoreInv t { g with touched := cid :: g.touched } := by
  refine ⟨h.first, ?_, fun hpc' => absurd hpc' hpc, ?_, fun hrep k hk => ?_, fun _ k hk => ?_,
    hwrites⟩
  · rw [hout]
    exact h.out
  · rw [hout]
    exact h.kept
  · rw [hout]
    exact h.wrote hrep k fun hmem => hk (List.mem_cons_of_mem cid hmem)
  · have hne : k ≠ cid := by
      rintro rfl
      exact hk List.mem_cons_self
    exact (hres k hne).trans (h.results hload k fun hmem => hk (List.mem_cons_of_mem cid hmem))

theorem Caller.back_ne (c : Caller) : c.back ≠ .load := by
  cases c <;> simp [Caller.back]

/-- Nothing is being written when `save_results` returns. -/
theorem Store.writes_back {c : Caller} (hpc : s.pc = c.back) : s.Writes := by
  unfold Store.Writes
  rw [hpc]
  cases c <;> trivial

/-- A step keeps the store in order. -/
theorem StoreInv.step {e : Event} (h : StoreInv s g) (hst : (machine portDesc).Step s e t) :
    StoreInv t (g.next s e t) := by
  cases step_move hst with
  | @load results hpc hload =>
    have hrep := h.unread hpc
    have hnot : g.replaced ≠ true := by simp [hrep]
    refine ⟨h.first, h.out, fun _ => hrep, h.kept, fun hrep' => absurd hrep' hnot,
      fun _ cid _ => ?_, trivial⟩
    simp only [Session.next, Session.expected, if_true, record, ← h.kept hrep, hload,
      Option.bind_some]
  | loadFails hpc =>
    have hrep := h.unread hpc
    have hnot : g.replaced ≠ true := by simp [hrep]
    refine ⟨h.first, h.out, fun _ => hrep, h.kept, fun hrep' => absurd hrep' hnot,
      fun _ cid _ => ?_, trivial⟩
    simp only [Session.next, Session.expected, if_false, Bool.false_eq_true, AList.lookup_empty]
  | capture hpc =>
    refine h.touch (by simp [hpc]) rfl (fun k hk => ?_) (by simp) trivial
    exact AList.lookup_insert_ne hk
  | cancel => exact h
  | clearNone hpc =>
    have hload : s.pc ≠ .load := by simp [hpc]
    exact h.touch hload rfl (fun k _ => rfl) hload h.writes
  | clear hpc hnext =>
    refine h.touch (by simp [hpc]) rfl (fun k hk => AList.lookup_erase_ne hk) ?_ ?_
    · rcases hnext with rfl | rfl <;> simp
    · rcases hnext with rfl | rfl <;> trivial
  | quit hpc => exact h.goto (by simp [hpc]) rfl rfl (by simp) trivial
  | openTmp hpc =>
    exact h.goto (by simp [hpc]) rfl rfl (by simp) ⟨by simp, _, _, rfl⟩
  | @openFails c _ hpc =>
    exact h.goto (by simp [hpc]) rfl rfl c.back_ne (Store.writes_back rfl)
  | write hpc =>
    have hwrites := h.writes
    simp only [Store.Writes, hpc] at hwrites
    exact h.goto (by simp [hpc]) rfl rfl (by simp) ⟨rfl, hwrites.2⟩
  | close hpc =>
    have hwrites := h.writes
    simp only [Store.Writes, hpc, List.take_length] at hwrites
    exact h.goto (by simp [hpc]) rfl rfl (by simp) hwrites
  | @fail c _ _ _ hpc =>
    exact h.goto (by simp [hpc]) rfl rfl c.back_ne (Store.writes_back rfl)
  | @replace c data text hpc htmp =>
    have hwrites := h.writes
    simp only [Store.Writes, hpc, htmp, Option.some.injEq] at hwrites
    obtain ⟨rfl, portDesc', now, rfl⟩ := hwrites
    have hresults := h.results (by simp [hpc])
    refine ⟨h.first, ⟨_, _, _, rfl⟩, fun hpc' => absurd hpc' c.back_ne, fun hrep => ?_,
      fun _ cid hcid => ?_, fun _ => hresults, Store.writes_back rfl⟩
    · simp [Session.next] at hrep
    · exact (record_document _ _ _ cid).trans (hresults cid hcid)
  | @replaceFails c data hpc =>
    have hnext : g.next s (.replace false) { s with pc := c.back } = g := by
      simp [Session.next]
    rw [hnext]
    exact h.goto (by simp [hpc]) rfl rfl c.back_ne (Store.writes_back rfl)
  | interrupt hload => exact h.goto hload rfl rfl (by simp) trivial

theorem store_inv {e : Store × Session} (h : (sessionMachine portDesc).Reach e) :
    StoreInv e.1 e.2 := by
  refine Machine.ReachIf.observe (C := fun _ _ _ => True) (I := StoreInv) h ?_ ?_
  · rintro s ⟨hout, _, hpc⟩
    refine ⟨hout, hout, fun _ => rfl, fun _ => rfl, fun hrep => absurd hrep Bool.false_ne_true,
      fun hne => absurd hpc hne, ?_⟩
    simp only [Store.Writes, hpc]
  · intro s e t g _ hI hst _
    exact hI.step hst

/-- An interrupt that is possible is handled. -/
theorem interrupt_defined {kept : ℕ} (hen : s.pc.allows (.interrupt kept) = true) :
    (exec portDesc s (.interrupt kept)).isSome := by
  unfold exec
  cases hpc : s.pc with
  | load | tui | exited => simp [hpc, Pc.allows] at hen
  | save c | dump c data k | replace c data =>
    cases c with
    | tui => rfl
    | final => simp [hpc, Pc.allows] at hen

/-- A read of the document succeeds, and a `replace` finds the temporary file. -/
theorem event_defined {e : Event} (hmap : (loadResults s.out).isSome) (hwrites : s.Writes)
    (hen : s.pc.allows e = true) : (exec portDesc s e).isSome := by
  cases e with
  | interrupt kept => exact interrupt_defined hen
  | load ok =>
    cases hpc : s.pc with
    | load =>
      cases ok with
      | true => simpa [exec, hpc] using hmap
      | false => simp [exec, hpc]
    | _ => simp [hpc, Pc.allows] at hen
  | replace ok =>
    cases hpc : s.pc with
    | replace c data =>
      simp only [Store.Writes, hpc] at hwrites
      cases ok with
      | true => simp [exec, hpc, hwrites.1]
      | false => simp [exec, hpc]
    | _ => simp [hpc, Pc.allows] at hen
  | clear cid =>
    unfold exec
    cases hpc : s.pc with
    | tui =>
      simp only
      split <;> rfl
    | _ => simp [hpc, Pc.allows] at hen
  | openTmp now ok =>
    cases hpc : s.pc with
    | save c => cases ok <;> simp [exec, hpc]
    | _ => simp [hpc, Pc.allows] at hen
  | capture | cancel | quit =>
    cases hpc : s.pc with
    | tui => simp [exec, hpc]
    | _ => simp [hpc, Pc.allows] at hen
  | write | close | fail =>
    cases hpc : s.pc with
    | dump c data k => simp [exec, hpc]
    | _ => simp [hpc, Pc.allows] at hen

/-- The process is never stuck but at its end: what `load_results` returns is a map, and
    the temporary file is there when it is renamed. -/
theorem store_defined {e : Store × Session} (h : (sessionMachine portDesc).Reach e) :
    (sessionMachine portDesc).Defined e := by
  have hinv := store_inv h
  obtain ⟨s, g⟩ := e
  have hmap : (loadResults s.out).isSome := by
    obtain ⟨portDesc', now, results, hout⟩ := hinv.out
    simp only at hout
    rw [hout, loadResults_document]
    rfl
  intro e hen
  change s.pc.allows e = true at hen
  change ((exec portDesc s e).map _).isSome
  rw [Option.isSome_map]
  exact event_defined hmap hinv.writes hen

/-! ## The calibration -/

/-- A file with one record. -/
def oneRecord : List Json.Token :=
  (document "128:0" "2026-01-01" ((∅ : Json.Dict).insert "crossfader" (.obj []))).tokens

def start : Store × Session := (⟨oneRecord, none, ∅, .load⟩, ⟨oneRecord, false, false, []⟩)

theorem start_init : (sessionMachine "128:0").init start :=
  ⟨⟨⟨_, _, _, rfl⟩, rfl, rfl⟩, rfl⟩

/-- `save_results` succeeds in writing `n` tokens. -/
def saves (n : ℕ) : List Event :=
  .openTmp "2026-01-02" true :: List.replicate n .write ++ [.close, .replace true]

/-- The file cannot be read, and the user quits. The session has touched no control, and
    its only record is gone. -/
theorem failed_load_loses :
    ¬ ∀ e, (sessionMachine "128:0").Reach e → e.1.pc = .exited →
      ∀ cid, cid ∉ e.2.touched → record e.1.out cid = record e.2.first cid := by
  intro h
  have hrun : ∃ e, (sessionMachine "128:0").play start (.load false :: .quit :: saves 14) = some e ∧
      e.1.pc = .exited ∧ e.1.out = (document "128:0" "2026-01-02" ∅).tokens ∧
      e.2.touched = [] ∧ e.2.first = oneRecord := ⟨_, rfl, rfl, rfl, rfl, rfl⟩
  obtain ⟨e, hplay, hpc, hout, htouched, hfirst⟩ := hrun
  have hkept := h e (Machine.play_reach start_init hplay) hpc "crossfader" (by simp [htouched])
  rw [hout, hfirst, oneRecord, record_document, record_document, AList.lookup_empty,
    AList.lookup_insert] at hkept
  cases hkept

/-- **Calibration.** At any time the file is a complete document. The controls that the
    session has neither saved nor cleared have the records they had exactly if the file
    was read, or has not been replaced, or no control has been left untouched that had a
    record. -/
theorem calibration_kept {e : Store × Session} (h : (sessionMachine portDesc).Reach e) :
    Complete e.1.out ∧
      ((∀ cid, cid ∉ e.2.touched → record e.1.out cid = record e.2.first cid) ↔
        e.2.loaded = true ∨ e.2.replaced = false ∨
          ∀ cid, record e.2.first cid ≠ none → cid ∈ e.2.touched) := by
  have hinv := store_inv h
  refine ⟨hinv.out, ?_, ?_⟩
  · intro hkept
    by_cases hload : e.2.loaded = true
    · exact .inl hload
    · cases hrep : e.2.replaced with
      | false => exact .inr (.inl rfl)
      | true =>
        refine .inr (.inr fun cid hcid => ?_)
        by_contra hnot
        have hlost := hinv.wrote hrep cid hnot
        rw [Session.expected, if_neg hload, hkept cid hnot] at hlost
        exact hcid hlost
  · intro hcond cid hcid
    cases hrep : e.2.replaced with
    | false => rw [hinv.kept hrep]
    | true =>
      rw [hinv.wrote hrep cid hcid, Session.expected]
      split_ifs with hload
      · rfl
      · -- nothing was read, so all recorded controls have been touched
        rcases hcond with hcond | hcond | hcond
        · exact absurd hcond hload
        · exact absurd (hrep.symm.trans hcond) (by decide)
        · by_contra hne
          exact hcid (hcond cid (Ne.symm hne))

/-- The file is read, one control is captured, and the first attempt to save fails. -/
theorem calibration_kept_retry : ∃ e, (sessionMachine "128:0").play start
      ([.load true, .capture "ch1_trim" [], .openTmp "2026-01-02" true, .write, .fail 1, .quit] ++
        saves 23) = some e ∧
    e.1.pc = .exited ∧ e.2.touched = ["ch1_trim"] ∧ Complete e.1.out ∧
      record e.1.out "crossfader" = record e.2.first "crossfader" := by
  have hrun : ∃ e, (sessionMachine "128:0").play start
      ([.load true, .capture "ch1_trim" [], .openTmp "2026-01-02" true, .write, .fail 1, .quit] ++
        saves 23) = some e ∧ e.1.pc = .exited ∧ e.2.touched = ["ch1_trim"] ∧ e.2.loaded = true :=
    ⟨_, rfl, rfl, rfl, rfl⟩
  obtain ⟨e, hplay, hpc, htouched, hload⟩ := hrun
  obtain ⟨hout, hkept⟩ := calibration_kept (Machine.play_reach start_init hplay)
  exact ⟨e, hplay, hpc, htouched, hout,
    hkept.mpr (.inl hload) "crossfader" (by simp [htouched])⟩

end DjmT1.Tools
