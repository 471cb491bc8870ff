import DjmT1.Lib.PySeq
import DjmT1.Lib.Machine
import DjmT1.Tools.Capture

/-!
# The list of controls

`run_tui` (tools/calibrate.py:527-597) shows the controls under the headers of their
sections and takes one key after another. The control that is selected has an index among
the controls (`sel`), one among the rows (`sel_row`) and a place on the screen, from the row
`top` on. `navMachine` takes two steps for each iteration: up to the drawing, with the
height the terminal has then, and from the key on.

* `filter_buildRows`: the controls among the rows are all the controls, in order.
* `scrollTop_shows`: the two corrections of `top` leave the selected row in view.
* `scroll_view`, `keyStep_keeps`: what the two steps keep; `keyStep_acts`: what a key does.
* `navigation`: in every iteration the three indices belong to one control, and the keys act
  on it.
-/

namespace DjmT1.Tools

open DjmT1.Lib DjmT1.Lib.PySeq

/-! ## The rows -/

inductive Row
  | header (sec : String)
  | control (c : Control)

/-- `r[0] == "control"` -/
def Row.isControl : Row → Bool
  | .header _ => false
  | .control _ => true

/-- The body of the loop of `build_rows`, on `rows` and `last`. -/
def addRow (s : List Row × Option String) (c : Control) : List Row × Option String :=
  let (rows, last) := s
  let (rows, last) :=
    if some c.sec ≠ last then (rows ++ [.header c.sec], some c.sec) else (rows, last)
  (rows ++ [.control c], last)

/-- `build_rows` (lines 357-364). -/
def buildRows (controls : List Control) : List Row := (controls.foldl addRow ([], none)).1

/-- `ctl_rows` (line 545). -/
def ctlRows (controls : List Control) : List ℤ := positions Row.isControl (buildRows controls)

/-! ## `run_tui` -/

/-- `KEY_DOWN`, `KEY_UP`, `KEY_HOME`, `KEY_DC`, `KEY_NPAGE`, `KEY_PPAGE` and `KEY_END` of
    `curses`. -/
abbrev keyDown : ℤ := 258
abbrev keyUp : ℤ := 259
abbrev keyHome : ℤ := 262
abbrev keyDc : ℤ := 330
abbrev keyNpage : ℤ := 338
abbrev keyPpage : ℤ := 339
abbrev keyEnd : ℤ := 360

/-- The keys of line 590. -/
def enterKeys : List ℤ := [10, keyEnter, 10, 13, 32]

/-- The keys of line 585. -/
def clearKeys : List ℤ := [100, keyDc]

/-- The saved records; a record is a dictionary. -/
abbrev Results : Type := AList fun _ : String => Record

/-- Where `run_tui` is. -/
inductive NavPc
  /-- at the head of the loop -/
  | head
  /-- in `stdscr.getch()`, with the list drawn at height `h` -/
  | key (h selRow : ℤ)
  | exited

/-- The variables of `run_tui`. -/
structure Nav where
  results : Results
  sel : ℤ
  top : ℤ
  flash : String
  pc : NavPc

/-- What happens next. -/
inductive NavLabel
  /-- the list is drawn at height `h` -/
  | scroll (h : ℤ)
  /-- `getch` returns `ch`; `rec` is what `do_capture` returns, and `ok` what `save_results`
      returns, if they are called -/
  | key (ch : ℤ) (rec : Option Record) (ok : Bool)

/-- `view_h` (line 552). -/
def viewHeight (h : ℤ) : ℤ := max 1 (h - 2)

/-- Lines 553-556. -/
def scrollTop (top selRow h : ℤ) : ℤ :=
  let top := if selRow < top + 1 then max 0 (selRow - 1) else top
  if selRow > top + viewHeight h - 1 then selRow - viewHeight h + 1 else top

/-- `not results.get(CONTROLS[k][0], {}).get("tested")` -/
def untested (controls : List Control) (results : Results) (k : ℤ) : Option Bool := do
  let c ← index controls k
  return !((results.lookup c.cid).map Record.tested).getD false

/-- Lines 578-584, for the key `n`. -/
def nextStep (controls : List Control) (s : Nav) : Option Nav := do
  let n : ℤ := (ctlRows controls).length
  let nxt ← next (untested controls s.results) (range (s.sel + 1) n)
  let nxt ← match nxt with
    | some k => some (some k)
    | none => next (untested controls s.results) (range 0 n)
  match nxt with
  | none => return { s with flash := " all controls tested ", pc := .head }
  | some k => return { s with sel := k, pc := .head }

/-- Lines 586-589, for the keys that clear a record. -/
def clearStep (controls : List Control) (s : Nav) : Option Nav := do
  let c ← index controls s.sel
  match s.results.lookup c.cid with
  | none => return { s with pc := .head }
  | some _ =>
    return { s with
      results := s.results.erase c.cid
      flash := " cleared " ++ c.label ++ " "
      pc := .head }

/-- Lines 591-596, for the keys that test a control. -/
def enterStep (controls : List Control) (s : Nav) (selRow : ℤ) (rec : Option Record) (ok : Bool) :
    Option Nav :=
  match index (buildRows controls) selRow with
  | some (.control control) =>
    match rec with
    | none => some { s with pc := .head }
    | some rec =>
      some { s with
        results := s.results.insert control.cid rec
        flash := (if ok then " saved " else " SAVE FAILED ") ++ control.label ++ ": " ++
          summaryStr (some rec) ++ " "
        pc := .head }
  | _ => none

/-- Lines 560-597: a key. -/
def keyStep (controls : List Control) (s : Nav) (h selRow ch : ℤ) (rec : Option Record)
    (ok : Bool) : Option Nav :=
  let n : ℤ := (ctlRows controls).length
  let page := max 1 (viewHeight h / 2)
  if ch ∈ [113, 81] then some { s with pc := .exited }
  else if ch ∈ [keyDown, 106] then some { s with sel := min (n - 1) (s.sel + 1), pc := .head }
  else if ch ∈ [keyUp, 107] then some { s with sel := max 0 (s.sel - 1), pc := .head }
  else if ch = keyNpage then some { s with sel := min (n - 1) (s.sel + page), pc := .head }
  else if ch = keyPpage then some { s with sel := max 0 (s.sel - page), pc := .head }
  else if ch ∈ [keyHome, 103] then some { s with sel := 0, pc := .head }
  else if ch ∈ [keyEnd, 71] then some { s with sel := n - 1, pc := .head }
  -- `?` shows the help
  else if ch = 63 then some { s with pc := .head }
  else if ch = 110 then nextStep controls s
  else if ch ∈ clearKeys then clearStep controls s
  else if ch ∈ enterKeys then enterStep controls s selRow rec ok
  else some { s with pc := .head }

/-- The state after a step; `none` is an exception, or not the next step of `run_tui`. -/
def navExec (controls : List Control) (s : Nav) (l : NavLabel) : Option Nav :=
  match l, s.pc with
  | .scroll h, .head => do
    let selRow ← index (ctlRows controls) s.sel
    -- the old `flash` has been shown
    return { s with top := scrollTop s.top selRow h, flash := "", pc := .key h selRow }
  | .key ch rec ok, .key h selRow => keyStep controls s h selRow ch rec ok
  | _, _ => none

/-- What may happen at a point of `run_tui`. -/
def NavPc.allows : NavPc → NavLabel → Bool
  | .head, .scroll _ => true
  | .key _ _, .key _ _ _ => true
  | _, _ => false

/-- `run_tui`, with any records. -/
def navMachine (controls : List Control) : Machine Nav NavLabel where
  init s := s.sel = 0 ∧ s.top = 0 ∧ s.flash = "" ∧ s.pc = .head
  enabled s l := s.pc.allows l
  exec := navExec controls

instance (controls : List Control) (s : Nav) (l : NavLabel) :
    Decidable ((navMachine controls).enabled s l) :=
  inferInstanceAs (Decidable (s.pc.allows l = true))

/-! ## The rows of the controls -/

theorem filter_buildRows (controls : List Control) :
    (buildRows controls).filter Row.isControl = controls.map Row.control := by
  induction controls using List.reverseRecOn with
  | nil => rfl
  | append_singleton controls c ih =>
    rw [buildRows] at ih ⊢
    rw [List.foldl_append, List.foldl_cons, List.foldl_nil, addRow, List.map_append, ← ih]
    split_ifs <;> simp [Row.isControl]

variable {controls : List Control}

theorem map_index_ctlRows (controls : List Control) :
    (ctlRows controls).map (index (buildRows controls)) =
      controls.map fun c => some (.control c) := by
  rw [ctlRows, map_index_positions, filter_buildRows, List.map_map]
  rfl

theorem length_ctlRows (controls : List Control) :
    (ctlRows controls).length = controls.length := by
  have hlen := congrArg List.length (map_index_ctlRows controls)
  rwa [List.length_map, List.length_map] at hlen

/-- The row of a control, by its index among the controls. -/
theorem ctlRows_row {sel : ℤ} (h0 : 0 ≤ sel) (h1 : sel < controls.length) :
    ∃ selRow c, index (ctlRows controls) sel = some selRow ∧ 0 ≤ selRow ∧
      index (buildRows controls) selRow = some (.control c) ∧ index controls sel = some c := by
  obtain ⟨k, rfl⟩ := Int.eq_ofNat_of_zero_le h0
  have hk : k < controls.length := by omega
  have hk' : k < (ctlRows controls).length := by rwa [length_ctlRows]
  have hrow := congrArg (·[k]?) (map_index_ctlRows controls)
  simp only [List.getElem?_map, List.getElem?_eq_getElem hk, List.getElem?_eq_getElem hk',
    Option.map_some, Option.some.injEq] at hrow
  obtain ⟨j, _, hj⟩ := lt_of_mem_positions (List.getElem_mem hk')
  refine ⟨(ctlRows controls)[k], controls[k], ?_, ?_, hrow, ?_⟩
  · rw [index_natCast, List.getElem?_eq_getElem hk']
  · omega
  · rw [index_natCast, List.getElem?_eq_getElem hk]

/-! ## What is kept -/

variable {s t : Nav}

/-- The control that is selected is one of the list, and `top` is a row. -/
structure InList (controls : List Control) (s : Nav) : Prop where
  sel_nonneg : 0 ≤ s.sel
  sel_lt : s.sel < controls.length
  top_nonneg : 0 ≤ s.top

/-- The list is drawn at height `h` from row `top` on, and the control `c` is highlighted. -/
structure View (controls : List Control) (s : Nav) (h selRow : ℤ) (c : Control) : Prop where
  inList : InList controls s
  top_le : s.top ≤ selRow
  le_bottom : selRow ≤ s.top + max 1 (h - 2) - 1
  ctlRow : index (ctlRows controls) s.sel = some selRow
  row : index (buildRows controls) selRow = some (.control c)
  control : index controls s.sel = some c
  flash : s.flash = ""

/-- The corrections of `top` leave the selected row in view, whatever `top` was. -/
theorem scrollTop_shows {top selRow : ℤ} (ht : 0 ≤ top) (hr : 0 ≤ selRow) (h : ℤ) :
    0 ≤ scrollTop top selRow h ∧ scrollTop top selRow h ≤ selRow ∧
      selRow ≤ scrollTop top selRow h + max 1 (h - 2) - 1 := by
  simp only [scrollTop, viewHeight]
  split_ifs <;> omega

/-- Drawing brings the selected control into view. -/
theorem scroll_view (hs : InList controls s) (h : ℤ) : ∃ selRow c,
    index (ctlRows controls) s.sel = some selRow ∧
    View controls { s with top := scrollTop s.top selRow h, flash := "", pc := .key h selRow }
      h selRow c := by
  obtain ⟨selRow, c, hrow, h0, hcontrol, hc⟩ := ctlRows_row hs.sel_nonneg hs.sel_lt
  obtain ⟨htop, hle, hbottom⟩ := scrollTop_shows hs.top_nonneg h0 h
  exact ⟨selRow, c, hrow, ⟨⟨hs.sel_nonneg, hs.sel_lt, htop⟩, hle, hbottom, hrow, hcontrol, hc, rfl⟩⟩

theorem untested_isSome {k : ℤ} (results : Results) (h0 : 0 ≤ k) (h1 : k < controls.length) :
    (untested controls results k).isSome := by
  obtain ⟨c, hc⟩ := index_eq_some h0 h1
  rw [untested, hc]
  rfl

/-- The first untested control in cyclic order from the one after the selected one on. -/
def firstUntested (controls : List Control) (s : Nav) : Option ℤ :=
  (cyclic controls.length s.sel).find? fun k => untested controls s.results k == some true

/-- `n` selects the first untested control in cyclic order, or reports that there is
    none. -/
theorem nextStep_eq (hs : InList controls s) : nextStep controls s =
    match firstUntested controls s with
    | none => some { s with flash := " all controls tested ", pc := .head }
    | some k => some { s with sel := k, pc := .head } := by
  have hafter : next (untested controls s.results) (range (s.sel + 1) controls.length) =
      some ((range (s.sel + 1) controls.length).find?
        fun k => untested controls s.results k == some true) := by
    refine next_eq fun k hk => ?_
    obtain ⟨hlow, hhigh⟩ := mem_range.mp hk
    exact untested_isSome s.results (by have := hs.sel_nonneg; omega) hhigh
  have hfirst : next (untested controls s.results) (range 0 controls.length) =
      some ((range 0 controls.length).find?
        fun k => untested controls s.results k == some true) := by
    refine next_eq fun k hk => ?_
    obtain ⟨hlow, hhigh⟩ := mem_range.mp hk
    exact untested_isSome s.results hlow hhigh
  rw [firstUntested, ← find?_cyclic hs.sel_nonneg hs.sel_lt, nextStep, length_ctlRows, hafter,
    hfirst]
  cases (range (s.sel + 1) controls.length).find?
    fun k => untested controls s.results k == some true with
  | some k => rfl
  | none =>
    cases (range 0 controls.length).find?
      fun k => untested controls s.results k == some true <;> rfl

theorem firstUntested_mem {k : ℤ} (hs : InList controls s)
    (hk : firstUntested controls s = some k) : 0 ≤ k ∧ k < controls.length :=
  (mem_cyclic hs.sel_nonneg hs.sel_lt).mp (List.mem_of_find?_eq_some hk)

/-! ## A key -/

/-- A key leaves the selected control in the list and all records but that of `c` alone. -/
structure Keeps (controls : List Control) (c : Control) (s t : Nav) : Prop where
  inList : InList controls t
  others : ∀ cid ≠ c.cid, t.results.lookup cid = s.results.lookup cid
  done : t.pc = .head ∨ t.pc = .exited

/-- A key that only selects. -/
theorem Keeps.select {c : Control} {sel : ℤ} {flash : String} (hs : InList controls s)
    (h0 : 0 ≤ sel) (h1 : sel < controls.length) :
    Keeps controls c s { s with sel, flash, pc := .head } :=
  ⟨⟨h0, h1, hs.top_nonneg⟩, fun _ _ => rfl, .inl rfl⟩

section Keys

variable {h selRow : ℤ} {c : Control}

/-- The key `n`. -/
theorem nextStep_keeps (hv : View controls s h selRow c) :
    ∃ t, nextStep controls s = some t ∧ Keeps controls c s t := by
  rw [nextStep_eq hv.inList]
  cases hk : firstUntested controls s with
  | none => exact ⟨_, rfl, .select hv.inList hv.inList.sel_nonneg hv.inList.sel_lt⟩
  | some k =>
    obtain ⟨h0, h1⟩ := firstUntested_mem hv.inList hk
    exact ⟨_, rfl, .select hv.inList h0 h1⟩

/-- A key that clears a record clears that of the highlighted control. -/
theorem clearStep_keeps (hv : View controls s h selRow c) :
    ∃ t, clearStep controls s = some t ∧ Keeps controls c s t ∧ t.sel = s.sel ∧
      t.results.lookup c.cid = none := by
  simp only [clearStep, hv.control, Option.bind_eq_bind, Option.bind_some]
  cases hrec : s.results.lookup c.cid with
  | none =>
    exact ⟨_, rfl, .select hv.inList hv.inList.sel_nonneg hv.inList.sel_lt, rfl, hrec⟩
  | some rec =>
    refine ⟨_, rfl, ⟨⟨hv.inList.sel_nonneg, hv.inList.sel_lt, hv.inList.top_nonneg⟩, ?_, .inl rfl⟩,
      rfl, AList.lookup_erase c.cid s.results⟩
    exact fun cid hne => AList.lookup_erase_ne hne

/-- A key that tests a control tests the highlighted one. -/
theorem enterStep_keeps (hv : View controls s h selRow c) (rec : Option Record) (ok : Bool) :
    ∃ t, enterStep controls s selRow rec ok = some t ∧ Keeps controls c s t ∧ t.sel = s.sel ∧
      t.results.lookup c.cid = rec.or (s.results.lookup c.cid) := by
  rw [enterStep, hv.row]
  cases rec with
  | none =>
    refine ⟨_, rfl, .select hv.inList hv.inList.sel_nonneg hv.inList.sel_lt, rfl, ?_⟩
    rw [Option.none_or]
  | some rec =>
    refine ⟨_, rfl, ⟨⟨hv.inList.sel_nonneg, hv.inList.sel_lt, hv.inList.top_nonneg⟩, ?_, .inl rfl⟩,
      rfl, ?_⟩
    · exact fun cid hne => AList.lookup_insert_ne hne
    · rw [Option.some_or]
      exact AList.lookup_insert s.results

/-- A choice between two steps keeps what both keep. -/
theorem ite_keeps {P : Prop} [Decidable P] {x y : Option Nav}
    (hx : ∃ t, x = some t ∧ Keeps controls c s t) (hy : ∃ t, y = some t ∧ Keeps controls c s t) :
    ∃ t, (if P then x else y) = some t ∧ Keeps controls c s t := by
  by_cases hP : P
  · rwa [if_pos hP]
  · rwa [if_neg hP]

/-- Whatever the key is. -/
theorem keyStep_keeps (hv : View controls s h selRow c) (ch : ℤ) (rec : Option Record)
    (ok : Bool) :
    ∃ t, keyStep controls s h selRow ch rec ok = some t ∧ Keeps controls c s t := by
  have h0 := hv.inList.sel_nonneg
  have h1 := hv.inList.sel_lt
  have hpage : 1 ≤ max 1 (viewHeight h / 2) := le_max_left _ _
  unfold keyStep
  rw [length_ctlRows]
  extract_lets n page
  -- one goal for each key, in the order of the source
  refine ite_keeps ?_ (ite_keeps ?_ (ite_keeps ?_ (ite_keeps ?_ (ite_keeps ?_ (ite_keeps ?_
    (ite_keeps ?_ (ite_keeps ?_ (ite_keeps ?_ (ite_keeps ?_ (ite_keeps ?_ ?_))))))))))
  · exact ⟨_, rfl, ⟨h0, h1, hv.inList.top_nonneg⟩, fun _ _ => rfl, .inr rfl⟩
  · exact ⟨_, rfl, .select hv.inList (by omega) (by omega)⟩
  · exact ⟨_, rfl, .select hv.inList (by omega) (by omega)⟩
  · exact ⟨_, rfl, .select hv.inList (by omega) (by omega)⟩
  · exact ⟨_, rfl, .select hv.inList (by omega) (by omega)⟩
  · exact ⟨_, rfl, .select hv.inList le_rfl (by omega)⟩
  · exact ⟨_, rfl, .select hv.inList (by omega) (by omega)⟩
  · exact ⟨_, rfl, .select hv.inList h0 h1⟩
  · exact nextStep_keeps hv
  · obtain ⟨t, ht, hkeeps, _⟩ := clearStep_keeps hv
    exact ⟨t, ht, hkeeps⟩
  · obtain ⟨t, ht, hkeeps, _⟩ := enterStep_keeps hv rec ok
    exact ⟨t, ht, hkeeps⟩
  · exact ⟨_, rfl, .select hv.inList h0 h1⟩

theorem keyStep_next (controls : List Control) (s : Nav) (h selRow : ℤ) (rec : Option Record)
    (ok : Bool) : keyStep controls s h selRow 110 rec ok = nextStep controls s := rfl

theorem keyStep_clear {ch : ℤ} (hch : ch ∈ clearKeys) (rec : Option Record) (ok : Bool) :
    keyStep controls s h selRow ch rec ok = clearStep controls s := by
  simp only [clearKeys, List.mem_cons, List.not_mem_nil, or_false] at hch
  rcases hch with rfl | rfl <;> rfl

theorem keyStep_enter {ch : ℤ} (hch : ch ∈ enterKeys) (rec : Option Record) (ok : Bool) :
    keyStep controls s h selRow ch rec ok = enterStep controls s selRow rec ok := by
  simp only [enterKeys, List.mem_cons, List.not_mem_nil, or_false] at hch
  rcases hch with rfl | rfl | rfl | rfl | rfl <;> rfl

end Keys

/-! ## Every run -/

/-- The selected control is in the list, and it is in view whenever a key is awaited. -/
structure NavInv (controls : List Control) (s : Nav) : Prop where
  inList : InList controls s
  view : ∀ h selRow, s.pc = .key h selRow → ∃ c, View controls s h selRow c

/-- At the head of the loop nothing is drawn. -/
theorem Keeps.inv {c : Control} (hk : Keeps controls c s t) : NavInv controls t := by
  refine ⟨hk.inList, fun h selRow hpc => ?_⟩
  rcases hk.done with hdone | hdone <;> exact absurd (hdone.symm.trans hpc) (by simp)

/-- The two steps of an iteration. -/
theorem allows_cases {pc : NavPc} {l : NavLabel} (h : pc.allows l) :
    (pc = .head ∧ ∃ height, l = .scroll height) ∨
      ∃ height selRow ch rec ok, pc = .key height selRow ∧ l = .key ch rec ok := by
  cases pc with
  | head =>
    cases l with
    | scroll height => exact .inl ⟨rfl, height, rfl⟩
    | key ch rec ok => exact absurd h Bool.false_ne_true
  | key height selRow =>
    cases l with
    | scroll height => exact absurd h Bool.false_ne_true
    | key ch rec ok => exact .inr ⟨height, selRow, ch, rec, ok, rfl, rfl⟩
  | exited => exact absurd h Bool.false_ne_true

/-- A step is defined, and keeps the invariant. -/
theorem navExec_keeps {l : NavLabel} (hs : NavInv controls s) (hl : s.pc.allows l) :
    ∃ t, navExec controls s l = some t ∧ NavInv controls t := by
  rcases allows_cases hl with ⟨hpc, h, rfl⟩ | ⟨h, selRow, ch, rec, ok, hpc, rfl⟩
  · obtain ⟨selRow, c, hrow, hview⟩ := scroll_view hs.inList h
    refine ⟨_, ?_, ⟨hview.inList, fun h' selRow' hkey => ?_⟩⟩
    · simp only [navExec, hpc, hrow, Option.bind_eq_bind, Option.bind_some, Option.pure_def]
    · obtain ⟨rfl, rfl⟩ := NavPc.key.inj hkey
      exact ⟨c, hview⟩
  · obtain ⟨c, hview⟩ := hs.view h selRow hpc
    obtain ⟨t, ht, hkeeps⟩ := keyStep_keeps hview ch rec ok
    refine ⟨t, ?_, hkeeps.inv⟩
    simp only [navExec, hpc, ht]

theorem nav_inv (hne : controls ≠ []) (hs : (navMachine controls).Reach s) :
    NavInv controls s := by
  refine hs.invariant ?_ ?_
  · rintro s ⟨hsel, htop, _, hpc⟩
    have hlen := List.length_pos_iff.mpr hne
    refine ⟨⟨hsel.ge, by omega, htop.ge⟩, fun h selRow hkey => ?_⟩
    exact absurd (hpc.symm.trans hkey) (by simp)
  · intro s l t _ hs hstep _
    obtain ⟨u, hu, hinv⟩ := navExec_keeps hs hstep.1
    obtain rfl : u = t := Option.some.inj (hu.symm.trans hstep.2)
    exact hinv

/-- What a key may do while the control `c` is highlighted. -/
structure ActsOn (controls : List Control) (s : Nav) (c : Control) (ch : ℤ) (rec : Option Record)
    (t : Nav) : Prop where
  others : ∀ cid ≠ c.cid, t.results.lookup cid = s.results.lookup cid
  enter : ch ∈ enterKeys → t.sel = s.sel ∧
    t.results.lookup c.cid = rec.or (s.results.lookup c.cid)
  clear : ch ∈ clearKeys → t.sel = s.sel ∧ t.results.lookup c.cid = none
  next : ch = 110 → match firstUntested controls s with
    | some k => t.sel = k ∧ t.flash = ""
    | none => t.sel = s.sel ∧ t.flash = " all controls tested "

/-- A key acts on the highlighted control. -/
theorem keyStep_acts {h selRow ch : ℤ} {c : Control} {rec : Option Record} {ok : Bool}
    (hview : View controls s h selRow c) (hkey : keyStep controls s h selRow ch rec ok = some t) :
    ActsOn controls s c ch rec t := by
  refine ⟨?_, fun hch => ?_, fun hch => ?_, fun hch => ?_⟩
  · obtain ⟨u, hu, hkeeps⟩ := keyStep_keeps hview ch rec ok
    obtain rfl : u = t := Option.some.inj (hu.symm.trans hkey)
    exact hkeeps.others
  · obtain ⟨u, hu, _, hacts⟩ := enterStep_keeps hview rec ok
    rw [keyStep_enter hch] at hkey
    obtain rfl : u = t := Option.some.inj (hu.symm.trans hkey)
    exact hacts
  · obtain ⟨u, hu, _, hacts⟩ := clearStep_keeps hview
    rw [keyStep_clear hch] at hkey
    obtain rfl : u = t := Option.some.inj (hu.symm.trans hkey)
    exact hacts
  · subst hch
    rw [keyStep_next, nextStep_eq hview.inList] at hkey
    cases hk : firstUntested controls s with
    | some k =>
      rw [hk] at hkey
      obtain rfl := Option.some.inj hkey
      exact ⟨rfl, hview.flash⟩
    | none =>
      rw [hk] at hkey
      obtain rfl := Option.some.inj hkey
      exact ⟨rfl, rfl⟩

/-- **Navigation.** Whenever a key is awaited, in any run of `run_tui` on a list of controls
    that is not empty, with any records, keys and heights: the selected control is in the
    list, its row is in view and is the row of that control, and whatever the key is, the
    next step is defined and acts on this control. -/
theorem navigation (hne : controls ≠ []) (hs : (navMachine controls).Reach s) :
    (navMachine controls).Defined s ∧
    ∀ h selRow, s.pc = .key h selRow → ∃ c, View controls s h selRow c ∧
      ∀ ch rec ok t, (navMachine controls).Step s (.key ch rec ok) t →
        ActsOn controls s c ch rec t := by
  have hinv := nav_inv hne hs
  constructor
  · intro l hl
    obtain ⟨t, ht, _⟩ := navExec_keeps hinv hl
    exact Option.isSome_iff_exists.mpr ⟨t, ht⟩
  · intro h selRow hpc
    obtain ⟨c, hview⟩ := hinv.view h selRow hpc
    refine ⟨c, hview, fun ch rec ok t hstep => ?_⟩
    have hexec : navExec controls s (.key ch rec ok) = some t := hstep.2
    simp only [navExec, hpc] at hexec
    exact keyStep_acts hview hexec

/-- Two controls of one section, of which the second one has been tested. -/
def globalControls : List Control :=
  [⟨"snap", "Global", "SNAP / QUANTIZE button", "button", false⟩,
    ⟨"shift", "Global", "SHIFT button", "button", false⟩]

def navStart : Nav :=
  ⟨AList.singleton "shift"
    (buildRecord ⟨"shift", "Global", "SHIFT button", "button", false⟩ [] ""),
    0, 0, "", .head⟩

/-- The second control is selected, the window shrinks to three lines, and a record is
    cleared. -/
theorem navigation_globalControls : ∃ s t c,
    (navMachine globalControls).play navStart [.scroll 24, .key keyDown none true, .scroll 3] =
      some s ∧
    s.pc = .key 3 2 ∧ View globalControls s 3 2 c ∧
    (navMachine globalControls).Step s (.key 100 none true) t ∧
    ActsOn globalControls s c 100 none t := by
  have hrun : ∃ s, (navMachine globalControls).play navStart
      [.scroll 24, .key keyDown none true, .scroll 3] = some s ∧ s.pc = .key 3 2 := ⟨_, rfl, rfl⟩
  obtain ⟨s, hplay, hpc⟩ := hrun
  have hinit : (navMachine globalControls).init navStart := ⟨rfl, rfl, rfl, rfl⟩
  obtain ⟨hdef, hview⟩ := navigation (List.cons_ne_nil _ _) (Machine.play_reach hinit hplay)
  obtain ⟨c, hv, hacts⟩ := hview 3 2 hpc
  have hallows : s.pc.allows (.key 100 none true) := by rw [hpc]; rfl
  obtain ⟨t, ht⟩ := Option.isSome_iff_exists.mp (hdef (.key 100 none true) hallows)
  exact ⟨s, t, c, hplay, hpc, hv, ⟨hallows, ht⟩, hacts _ _ _ _ ⟨hallows, ht⟩⟩

end DjmT1.Tools
