import DjmT1.Lib.Tally
import DjmT1.Tools.Calibrate

/-!
# Records of a capture

`calibrate.py` sums the MIDI events of a capture up by their type, channel and number
(`aggregate`), makes a record of that (`build_record`), and shows the record in its list
(`summary_str`), also after it has been saved and loaded again.

* `aggregate_eq`: `aggregate` is the tally of the events.
* `record_reloaded`: a record that has been saved is read back.
* `aggregate_and_record`: what an aggregate, a record and its summary say about the events.
-/

namespace DjmT1.Tools

open DjmT1.Lib DjmT1.Lib.Tally

/-! ## Events -/

/-- The types of events (tools/calibrate.py:169-180). -/
inductive EventType
  | cc | noteOn | noteOff | pitchbend | program
  deriving DecidableEq

/-- The text of a type. -/
def EventType.text : EventType → String
  | .cc => "cc"
  | .noteOn => "note_on"
  | .noteOff => "note_off"
  | .pitchbend => "pitchbend"
  | .program => "program"

/-- An event as `parse` returns it. -/
inductive MidiEvent
  | cc (channel number value : ℕ)
  | noteOn (channel number value : ℕ)
  | noteOff (channel number value : ℕ)
  | pitchbend (channel : ℕ) (value : ℤ)
  | program (channel number : ℕ)
  deriving DecidableEq

/-- Type, channel and number of an event. -/
structure Key where
  type : EventType
  channel : ℕ
  number : Option ℕ
  deriving DecidableEq

/-- A pitch bend has no number. -/
def MidiEvent.key : MidiEvent → Key
  | .cc ch num _ => ⟨.cc, ch, some num⟩
  | .noteOn ch num _ => ⟨.noteOn, ch, some num⟩
  | .noteOff ch num _ => ⟨.noteOff, ch, some num⟩
  | .pitchbend ch _ => ⟨.pitchbend, ch, none⟩
  | .program ch num => ⟨.program, ch, some num⟩

/-- The value; a program change has none. -/
def MidiEvent.value : MidiEvent → Option ℤ
  | .cc _ _ val | .noteOn _ _ val | .noteOff _ _ val => some val
  | .pitchbend _ val => some val
  | .program _ _ => none

/-! ## `aggregate` -/

/-- An entry of the aggregate. -/
structure Entry extends Key where
  count : ℕ
  vmin : Option ℤ
  vmax : Option ℤ
  last : Option ℤ
  deriving DecidableEq

/-- The entry that line 187 adds. -/
def Entry.fresh (key : Key) : Entry := ⟨key, 0, none, none, none⟩

/-- Lines 190-195. -/
def Entry.add (a : Entry) (val : Option ℤ) : Entry :=
  let a := { a with count := a.count + 1 }
  match val with
  | none => a
  | some val =>
    { a with
      vmin := some (a.vmin.elim val fun m => min m val)
      vmax := some (a.vmax.elim val fun m => max m val)
      last := some val }

/-- The body of the loop of `aggregate` on `agg` and `order`. -/
def aggregateStep (s : (Key → Option Entry) × List Key) (e : MidiEvent) :
    (Key → Option Entry) × List Key :=
  let s := if (s.1 e.key).isNone
    then (Function.update s.1 e.key (some (Entry.fresh e.key)), s.2 ++ [e.key]) else s
  (Function.update s.1 e.key ((s.1 e.key).map fun a => a.add e.value), s.2)

/-- `aggregate` (lines 182-196). -/
def aggregate (events : List MidiEvent) : List Entry :=
  let s := events.foldl aggregateStep (fun _ => none, [])
  s.2.filterMap s.1

/-- An event as a keyed reading. -/
def MidiEvent.reading (e : MidiEvent) : Key × Option ℤ := (e.key, e.value)

/-- The summary of a key. -/
def entryOf (l : List (Key × Option ℤ)) (k : Key) : Entry where
  toKey := k
  count := (readings l k).length
  vmin := (values l k).min?
  vmax := (values l k).max?
  last := (values l k).getLast?

/-- One more reading of a key. -/
theorem entryOf_append (l : List (Key × Option ℤ)) (e : Key × Option ℤ) (k : Key) :
    entryOf (l ++ [e]) k = if e.1 = k then (entryOf l k).add e.2 else entryOf l k := by
  split_ifs with h
  · obtain ⟨key, val⟩ := e
    cases val with
    | none =>
      simp only [entryOf, readings_append, values_append, if_pos h, Option.toList_none,
        List.append_nil, Entry.add, List.length_append, List.length_singleton]
    | some val =>
      simp only [entryOf, readings_append, values_append, if_pos h, Option.toList_some, Entry.add,
        List.length_append, List.length_singleton, min?_append_singleton, max?_append_singleton,
        List.getLast?_concat]
  · simp only [entryOf, readings_append, values_append, if_neg h]

theorem entryOf_fresh {l : List (Key × Option ℤ)} {k : Key} (h : k ∉ l.map Prod.fst) :
    entryOf l k = Entry.fresh k := by
  simp [entryOf, values, readings_of_notMem h, Entry.fresh]

/-- The dictionary and the order that `aggregate` keeps. -/
theorem foldl_aggregateStep (events : List MidiEvent) :
    events.foldl aggregateStep (fun _ => none, []) =
      (fun k => if k ∈ events.map MidiEvent.key then
        some (entryOf (events.map MidiEvent.reading) k) else none,
      firsts (events.map MidiEvent.key)) := by
  induction events using List.reverseRecOn with
  | nil => simp
  | append_singleton events e ih =>
    have hkeys : (events.map MidiEvent.reading).map Prod.fst = events.map MidiEvent.key := by
      simp [MidiEvent.reading]
    rw [List.foldl_append, ih, List.foldl_cons, List.foldl_nil, List.map_append, List.map_append,
      List.map_singleton, List.map_singleton, firsts_append]
    by_cases hmem : e.key ∈ events.map MidiEvent.key
    · refine Prod.ext (funext fun k => ?_) ?_
      · by_cases hk : e.key = k
        · subst hk
          simp [aggregateStep, List.mem_map.mp hmem, entryOf_append, MidiEvent.reading]
        · simp [aggregateStep, hmem, entryOf_append, MidiEvent.reading, hk, Ne.symm hk]
      · simp [aggregateStep, hmem]
    · refine Prod.ext (funext fun k => ?_) ?_
      · by_cases hk : e.key = k
        · subst hk
          have hfresh := entryOf_fresh (hkeys ▸ hmem)
          simp [aggregateStep, hmem, entryOf_append, MidiEvent.reading, hfresh]
        · simp [aggregateStep, hmem, entryOf_append, MidiEvent.reading, hk, Ne.symm hk]
      · simp [aggregateStep, hmem]

/-- `aggregate` has the entry of every key, in the order in which the keys first appear. -/
theorem aggregate_eq (events : List MidiEvent) :
    aggregate events =
      (firsts (events.map MidiEvent.key)).map (entryOf (events.map MidiEvent.reading)) := by
  rw [aggregate, foldl_aggregateStep, List.filterMap_eq_map_iff_forall_eq_some.mpr]
  intro k hk
  exact if_pos (mem_firsts.mp hk)

/-! ## `build_record` -/

/-- A row of `CONTROLS` (line 47), without the hint that is shown with it. -/
structure Control where
  cid : String
  sec : String
  label : String
  kind : String
  detent : Bool

/-- A record (lines 294-309). A key that is missing is `none`. -/
structure Record where
  label : String
  sec : String
  kind : String
  detent : Bool
  tested : Bool
  captured : Bool
  events : List Entry
  capturedAt : String
  primaryCc : Option ℕ
  resting : Option ℤ
  centerOffset : Option ℤ
  noteNumbers : Option (List ℕ)

/-- `sorted(set(l))` -/
def sortedSet (l : List ℕ) : List ℕ := l.dedup.insertionSort (· ≤ ·)

/-- `[a for a in agg if a["type"] == "cc"]` -/
def ccsOf (agg : List Entry) : List Entry := agg.filter fun a => a.type = .cc

/-- `max(ccs, key=lambda a: a["count"])`, the first entry of the greatest count. -/
def primOf (agg : List Entry) : Option Entry := (ccsOf agg).argmax Entry.count

/-- `[a["number"] for a in agg if a["type"] in ("note_on", "note_off")]` -/
def notesOf (agg : List Entry) : List ℕ :=
  (agg.filter fun a => a.type = .noteOn ∨ a.type = .noteOff).filterMap fun a => a.number

/-- `build_record` (lines 294-309). `now` is the time. -/
def buildRecord (control : Control) (agg : List Entry) (now : String) : Record where
  label := control.label
  sec := control.sec
  kind := control.kind
  detent := control.detent
  tested := true
  captured := !agg.isEmpty
  events := agg
  capturedAt := now
  primaryCc := (primOf agg).bind fun prim => prim.number
  resting := (primOf agg).bind fun prim => prim.last
  centerOffset :=
    if control.detent then ((primOf agg).bind fun prim => prim.last).map fun last => last - 64
    else none
  noteNumbers := if notesOf agg ≠ [] then some (sortedSet (notesOf agg)) else none

/-! ## `summary_str` -/

/-- `f"{n}"` of a number or `None`. -/
def pyInt (n : Option ℤ) : String := n.elim "None" Int.repr

/-- `f"{n:+d}"` -/
def pySigned (n : ℤ) : String := if n < 0 then n.repr else "+" ++ n.repr

/-- `f"{n:02X}"` -/
def pyHex (n : ℕ) : String :=
  let digits := (Nat.toDigits 16 n).map Char.toUpper
  String.ofList (List.replicate (2 - digits.length) '0' ++ digits)

/-- Lines 319-327: the text for the controllers of a record. -/
def ccSummary (prim : Entry) (resting centerOffset : Option ℤ) (others : List ℕ) : String :=
  let s := "CC" ++ pyInt (prim.number.map Int.ofNat) ++ " " ++ pyInt prim.vmin ++ ".." ++
    pyInt prim.vmax
  let s := match resting with
    | none => s
    | some resting =>
      let s := s ++ " @" ++ resting.repr
      match centerOffset with
      | none => s
      | some off => s ++ " (off " ++ pySigned off ++ ")"
  if others ≠ [] then s ++ " +CC" ++ ",".intercalate (others.map Nat.repr) else s

/-- `summary_str` (lines 311-332). -/
def summaryStr (rec : Option Record) : String :=
  match rec with
  | none => "· not tested"
  | some rec =>
    if !rec.tested then "· not tested"
    else if !rec.captured then "— silent (no MIDI)"
    else
      match primOf rec.events with
      | some prim =>
        ccSummary prim rec.resting rec.centerOffset
          (sortedSet (((ccsOf rec.events).filterMap fun a => a.number).filter
            fun n => some n ≠ prim.number))
      | none =>
        let notes := sortedSet (notesOf rec.events)
        if notes ≠ [] then
          "Note " ++ ",".intercalate (notes.map fun n => n.repr ++ "(0x" ++ pyHex n ++ ")")
        else
          match rec.events with
          | a :: _ => a.type.text
          | [] => "?"

/-! ## Saving and loading -/

def EventType.ofText (s : String) : Option EventType :=
  [.cc, .noteOn, .noteOff, .pitchbend, .program].find? fun t : EventType => t.text = s

theorem EventType.ofText_text (t : EventType) : EventType.ofText t.text = some t := by
  cases t <;> rfl

/-- A number or `null`, for a number that is not negative. -/
def natOption (n : Option ℕ) : Json := Json.ofIntOption (n.map Int.ofNat)

/-- The dictionary of line 187. -/
def Entry.members (a : Entry) : List (String × Json) :=
  [("type", .str a.type.text), ("channel", .ofNat a.channel), ("number", natOption a.number),
    ("count", .ofNat a.count), ("vmin", .ofIntOption a.vmin), ("vmax", .ofIntOption a.vmax),
    ("last", .ofIntOption a.last)]

/-- An entry as it is saved. -/
def Entry.toJson (a : Entry) : Json := .obj a.members

/-- An entry that has been loaded. -/
def Entry.ofJson (j : Json) : Option Entry := do
  let text ← (← j.member "type").toText
  let type ← EventType.ofText text
  let channel ← (← j.member "channel").toNat
  let number ← (← j.member "number").toIntOption
  let count ← (← j.member "count").toNat
  let vmin ← (← j.member "vmin").toIntOption
  let vmax ← (← j.member "vmax").toIntOption
  let last ← (← j.member "last").toIntOption
  return { type, channel, number := number.map Int.toNat, count, vmin, vmax, last }

/-- The members of a record, in the order in which `build_record` adds them. -/
def Record.members (rec : Record) : List (String × Json) :=
  [("label", .str rec.label), ("section", .str rec.sec), ("kind", .str rec.kind),
    ("detent", .bool rec.detent), ("tested", .bool rec.tested), ("captured", .bool rec.captured),
    ("events", .arr (rec.events.map Entry.toJson)), ("captured_at", .str rec.capturedAt)] ++
  (Json.optional "primary_cc" Json.ofNat rec.primaryCc ++
    (Json.optional "resting" Json.ofInt rec.resting ++
      (Json.optional "center_offset" Json.ofInt rec.centerOffset ++
        Json.optional "note_numbers" (fun l => .arr (l.map Json.ofNat)) rec.noteNumbers)))

/-- A record as it is saved. -/
def Record.toJson (rec : Record) : Json := .obj rec.members

/-- `rec.get(k)`, read with `f`. -/
def getOption {α : Type} (j : Json) (k : String) (f : Json → Option α) : Option (Option α) :=
  match j.member k with
  | none => some none
  | some v => (f v).map some

/-- A record that has been loaded. -/
def Record.ofJson (j : Json) : Option Record := do
  let label ← (← j.member "label").toText
  let sec ← (← j.member "section").toText
  let kind ← (← j.member "kind").toText
  let detent ← (← j.member "detent").toBool
  let tested ← (← j.member "tested").toBool
  let captured ← (← j.member "captured").toBool
  let events ← (← (← j.member "events").toList).mapM Entry.ofJson
  let capturedAt ← (← j.member "captured_at").toText
  let primaryCc ← getOption j "primary_cc" Json.toNat
  let resting ← getOption j "resting" Json.toInt
  let centerOffset ← getOption j "center_offset" Json.toInt
  let noteNumbers ← getOption j "note_numbers" fun v => v.toList.bind fun l => l.mapM Json.toNat
  return ⟨label, sec, kind, detent, tested, captured, events, capturedAt, primaryCc, resting,
    centerOffset, noteNumbers⟩

theorem Entry.ofJson_toJson (a : Entry) : Entry.ofJson a.toJson = some a := by
  have hmember : ∀ k, a.toJson.member k = a.members.lookup k := fun k =>
    Json.lookup_dict_of_nodup (by simp [Entry.members]) k
  have hnumber : (a.number.map Int.ofNat).map Int.toNat = a.number := by cases a.number <;> rfl
  simp [Entry.ofJson, hmember, Entry.members, List.lookup_cons, natOption, Json.toText,
    EventType.ofText_text, hnumber]

/-- The names of the members of a record are different. -/
theorem Record.nodup_members (rec : Record) : (rec.members.map Prod.fst).Nodup := by
  have hall : ["label", "section", "kind", "detent", "tested", "captured", "events",
      "captured_at", "primary_cc", "resting", "center_offset", "note_numbers"].Nodup := by decide
  refine hall.sublist ?_
  simp only [Record.members, List.map_append]
  exact (List.Sublist.refl _).append ((Json.optional_keys_sublist _ _ _).append
    ((Json.optional_keys_sublist _ _ _).append ((Json.optional_keys_sublist _ _ _).append
      (Json.optional_keys_sublist _ _ _))))

theorem Record.ofJson_toJson (rec : Record) : Record.ofJson rec.toJson = some rec := by
  have hmember : ∀ k, rec.toJson.member k = rec.members.lookup k := fun k =>
    Json.lookup_dict_of_nodup rec.nodup_members k
  have hget : ∀ {α : Type} (k : String) (f : Json → Option α) (g : α → Json) (x : Option α),
      (∀ y, f (g y) = some y) → rec.members.lookup k = x.map g →
      getOption rec.toJson k f = some x := by
    intro α k f g x hfg hlookup
    rw [getOption, hmember, hlookup]
    cases x with
    | none => rfl
    | some y => simp [hfg]
  have hprimary := hget "primary_cc" Json.toNat Json.ofNat rec.primaryCc Json.toNat_ofNat
    (by simp [Record.members, List.lookup_append, List.lookup_cons, Json.lookup_optional])
  have hresting := hget "resting" Json.toInt Json.ofInt rec.resting Json.toInt_ofInt
    (by simp [Record.members, List.lookup_append, List.lookup_cons, Json.lookup_optional])
  have hoffset := hget "center_offset" Json.toInt Json.ofInt rec.centerOffset Json.toInt_ofInt
    (by simp [Record.members, List.lookup_append, List.lookup_cons, Json.lookup_optional])
  have hnotes := hget "note_numbers" (fun v => v.toList.bind fun l => l.mapM Json.toNat)
    (fun l => .arr (l.map Json.ofNat)) rec.noteNumbers
    (fun l => Json.mapM_map_eq_some Json.toNat_ofNat l)
    (by simp [Record.members, List.lookup_append, List.lookup_cons, Json.lookup_optional])
  have hevents := Json.mapM_map_eq_some Entry.ofJson_toJson rec.events
  simp only [Record.ofJson, hprimary, hresting, hoffset, hnotes]
  simp [hmember, Record.members, List.lookup_cons, Json.toText, Json.toBool, Json.toList, hevents]

/-- The record of a control in a file that `save_results` has written, once it is loaded. -/
def reloaded (text : List Json.Token) (cid : String) : Option Record :=
  (record text cid).bind Record.ofJson

/-- A record that has been saved is read back. -/
theorem record_reloaded {results : Json.Dict} {cid : String} {rec : Record}
    (h : results.lookup cid = some rec.toJson) (portDesc now : String) :
    reloaded (document portDesc now results).tokens cid = some rec := by
  rw [reloaded, record_document, h, Option.bind_some, Record.ofJson_toJson]

/-! ## What the aggregate and the record say -/

/-- The values of the events of a key. -/
def valuesOf (events : List MidiEvent) (k : Key) : List ℤ :=
  (events.filter fun e => e.key = k).filterMap MidiEvent.value

/-- The aggregate of a list of events. -/
structure Aggregated (events : List MidiEvent) (agg : List Entry) : Prop where
  nodup : (agg.map Entry.toKey).Nodup
  mem : ∀ k, k ∈ agg.map Entry.toKey ↔ k ∈ events.map MidiEvent.key
  order : (agg.map Entry.toKey).Pairwise fun a b =>
    (events.map MidiEvent.key).idxOf a < (events.map MidiEvent.key).idxOf b
  count : ∀ a ∈ agg, a.count = (events.map MidiEvent.key).count a.toKey
  vmin : ∀ a ∈ agg, a.vmin = (valuesOf events a.toKey).min?
  vmax : ∀ a ∈ agg, a.vmax = (valuesOf events a.toKey).max?
  last : ∀ a ∈ agg, a.last = (valuesOf events a.toKey).getLast?
  total : (agg.map Entry.count).sum = events.length

theorem keys_readings (events : List MidiEvent) :
    (events.map MidiEvent.reading).map Prod.fst = events.map MidiEvent.key := by
  simp [MidiEvent.reading]

theorem values_reading (events : List MidiEvent) (k : Key) :
    values (events.map MidiEvent.reading) k = valuesOf events k := by
  simp only [values, readings, valuesOf, List.filter_map, List.map_map, List.filterMap_map]
  rfl

@[simp] theorem toKey_entryOf (l : List (Key × Option ℤ)) (k : Key) :
    (entryOf l k).toKey = k := rfl

theorem mem_aggregate {events : List MidiEvent} {a : Entry} :
    a ∈ aggregate events ↔
      a.toKey ∈ events.map MidiEvent.key ∧ a = entryOf (events.map MidiEvent.reading) a.toKey := by
  rw [aggregate_eq, List.mem_map]
  constructor
  · rintro ⟨k, hk, rfl⟩
    exact ⟨mem_firsts.mp hk, rfl⟩
  · rintro ⟨hk, ha⟩
    exact ⟨a.toKey, mem_firsts.mpr hk, ha.symm⟩

theorem keys_aggregate (events : List MidiEvent) :
    (aggregate events).map Entry.toKey = firsts (events.map MidiEvent.key) := by
  rw [aggregate_eq, List.map_map]
  exact List.map_id _

theorem aggregated (events : List MidiEvent) : Aggregated events (aggregate events) where
  nodup := by
    rw [keys_aggregate]
    exact nodup_firsts _
  mem k := by rw [keys_aggregate, mem_firsts]
  order := by
    rw [keys_aggregate]
    exact firsts_pairwise _
  count a ha := by
    rw [← keys_readings, ← length_readings]
    exact congrArg Entry.count (mem_aggregate.mp ha).2
  vmin a ha := by
    rw [← values_reading]
    exact congrArg Entry.vmin (mem_aggregate.mp ha).2
  vmax a ha := by
    rw [← values_reading]
    exact congrArg Entry.vmax (mem_aggregate.mp ha).2
  last a ha := by
    rw [← values_reading]
    exact congrArg Entry.last (mem_aggregate.mp ha).2
  total := by
    have hcount : (aggregate events).map Entry.count = (firsts (events.map MidiEvent.key)).map
        fun k => (events.map MidiEvent.key).count k := by
      rw [aggregate_eq, List.map_map]
      refine List.map_congr_left fun k _ => ?_
      rw [← keys_readings, ← length_readings]
      rfl
    rw [hcount, sum_count_firsts, List.length_map]

/-! ### Numbers and values -/

/-- An event that is not a pitch bend has a number. -/
theorem MidiEvent.number_of_type {e : MidiEvent} (h : e.key.type ≠ .pitchbend) :
    ∃ n, e.key.number = some n := by
  cases e with
  | pitchbend => exact absurd rfl h
  | cc => exact ⟨_, rfl⟩
  | noteOn => exact ⟨_, rfl⟩
  | noteOff => exact ⟨_, rfl⟩
  | program => exact ⟨_, rfl⟩

/-- An event that is not a program change has a value. -/
theorem MidiEvent.value_of_type {e : MidiEvent} (h : e.key.type ≠ .program) :
    ∃ v, e.value = some v := by
  cases e with
  | program => exact absurd rfl h
  | cc => exact ⟨_, rfl⟩
  | noteOn => exact ⟨_, rfl⟩
  | noteOff => exact ⟨_, rfl⟩
  | pitchbend => exact ⟨_, rfl⟩

/-- An entry for a controller has a number, a range and a last value. -/
theorem cc_entry {events : List MidiEvent} {a : Entry} (ha : a ∈ aggregate events)
    (hcc : a.type = .cc) : ∃ n lo hi last, a.number = some n ∧ a.vmin = some lo ∧
      a.vmax = some hi ∧ a.last = some last := by
  obtain ⟨e, he, hkey⟩ := List.mem_map.mp (mem_aggregate.mp ha).1
  have htype : e.key.type = .cc := by
    rw [hkey]
    exact hcc
  obtain ⟨n, hn⟩ := MidiEvent.number_of_type (e := e) (by rw [htype]; decide)
  obtain ⟨v, hv⟩ := MidiEvent.value_of_type (e := e) (by rw [htype]; decide)
  have hmem : v ∈ valuesOf events a.toKey :=
    List.mem_filterMap.mpr ⟨e, List.mem_filter.mpr ⟨he, decide_eq_true hkey⟩, hv⟩
  have hne : valuesOf events a.toKey ≠ [] := List.ne_nil_of_mem hmem
  obtain ⟨lo, hlo⟩ := Option.ne_none_iff_exists'.mp (mt List.min?_eq_none_iff.mp hne)
  obtain ⟨hi, hhi⟩ := Option.ne_none_iff_exists'.mp (mt List.max?_eq_none_iff.mp hne)
  obtain ⟨last, hlast⟩ := Option.ne_none_iff_exists'.mp (mt List.getLast?_eq_none_iff.mp hne)
  have hagg := aggregated events
  refine ⟨n, lo, hi, last, ?_, (hagg.vmin a ha).trans hlo, (hagg.vmax a ha).trans hhi,
    (hagg.last a ha).trans hlast⟩
  rw [hkey] at hn
  exact hn

theorem mem_sortedSet {l : List ℕ} {n : ℕ} : n ∈ sortedSet l ↔ n ∈ l := by
  rw [sortedSet, List.mem_insertionSort, List.mem_dedup]

/-- A sorted set is in increasing order. -/
theorem sortedSet_pairwise (l : List ℕ) : (sortedSet l).Pairwise (· < ·) := by
  have hnodup : (sortedSet l).Nodup :=
    (List.perm_insertionSort _ _).nodup_iff.mpr (List.nodup_dedup l)
  exact (hnodup.and (List.pairwise_insertionSort (· ≤ ·) l.dedup)).imp fun h =>
    lt_of_le_of_ne h.2 h.1

/-! ### The primary controller -/

/-- The entry for the controller that was seen first among those with the most events. -/
structure Primary (events : List MidiEvent) (a : Entry) : Prop where
  mem : a ∈ aggregate events
  cc : a.type = .cc
  most : ∀ b ∈ aggregate events, b.type = .cc → b.count ≤ a.count
  earliest : ∀ b ∈ aggregate events, b.type = .cc → b.count = a.count →
    (events.map MidiEvent.key).idxOf a.toKey ≤ (events.map MidiEvent.key).idxOf b.toKey

theorem mem_ccsOf {agg : List Entry} {a : Entry} : a ∈ ccsOf agg ↔ a ∈ agg ∧ a.type = .cc := by
  rw [ccsOf, List.mem_filter, decide_eq_true_iff]

/-- An event of a type has an entry of that type, with its number. -/
theorem exists_entry {events : List MidiEvent} {e : MidiEvent} (he : e ∈ events) :
    ∃ a ∈ aggregate events, a.toKey = e.key := by
  have hkey := ((aggregated events).mem e.key).mpr (List.mem_map_of_mem he)
  exact List.mem_map.mp hkey

/-- An entry comes from an event. -/
theorem exists_event {events : List MidiEvent} {a : Entry} (ha : a ∈ aggregate events) :
    ∃ e ∈ events, e.key = a.toKey :=
  List.mem_map.mp (mem_aggregate.mp ha).1

theorem primOf_aggregate {events : List MidiEvent} (h : ∃ e ∈ events, e.key.type = .cc) :
    ∃ a, primOf (aggregate events) = some a ∧ Primary events a := by
  obtain ⟨e, he, hcc⟩ := h
  obtain ⟨a, ha, hkey⟩ := exists_entry he
  have hmem : a ∈ ccsOf (aggregate events) := by
    refine mem_ccsOf.mpr ⟨ha, ?_⟩
    rw [hkey]
    exact hcc
  obtain ⟨prim, hprim⟩ := Option.ne_none_iff_exists'.mp
    (mt List.argmax_eq_none.mp (List.ne_nil_of_mem hmem) :
      primOf (aggregate events) ≠ none)
  obtain ⟨hin, hmost, _⟩ := List.argmax_eq_some_iff.mp hprim
  obtain ⟨hagg, htype⟩ := mem_ccsOf.mp hin
  refine ⟨prim, hprim, hagg, htype, fun b hb hbcc => hmost b (mem_ccsOf.mpr ⟨hb, hbcc⟩), ?_⟩
  intro b hb hbcc hcount
  by_cases hne : b = prim
  · rw [hne]
  · have horder := List.pairwise_map.mp (aggregated events).order
    exact (argmax_before hprim (horder.sublist List.filter_sublist) (mem_ccsOf.mpr ⟨hb, hbcc⟩)
      hcount.ge hne).le

/-- The numbers of the controllers other than `n`. -/
def othersOf (agg : List Entry) (n : ℕ) : List ℕ :=
  sortedSet (((ccsOf agg).filterMap fun a => a.number).filter fun m => some m ≠ some n)

theorem mem_othersOf {events : List MidiEvent} {n m : ℕ} :
    m ∈ othersOf (aggregate events) n ↔
      m ≠ n ∧ ∃ e ∈ events, e.key.type = .cc ∧ e.key.number = some m := by
  rw [othersOf, mem_sortedSet, List.mem_filter, decide_eq_true_iff, List.mem_filterMap, and_comm]
  refine and_congr (not_congr Option.some_inj) ⟨?_, ?_⟩
  · rintro ⟨a, ha, hnum⟩
    obtain ⟨hagg, hcc⟩ := mem_ccsOf.mp ha
    obtain ⟨e, he, hkey⟩ := exists_event hagg
    exact ⟨e, he, hkey ▸ hcc, hkey ▸ hnum⟩
  · rintro ⟨e, he, hcc, hnum⟩
    obtain ⟨a, ha, hkey⟩ := exists_entry he
    exact ⟨a, mem_ccsOf.mpr ⟨ha, by rw [hkey]; exact hcc⟩, by rw [hkey]; exact hnum⟩

theorem mem_notesOf {events : List MidiEvent} {n : ℕ} : n ∈ notesOf (aggregate events) ↔
    ∃ e ∈ events, (e.key.type = .noteOn ∨ e.key.type = .noteOff) ∧ e.key.number = some n := by
  rw [notesOf, List.mem_filterMap]
  constructor
  · rintro ⟨a, ha, hnum⟩
    obtain ⟨hagg, htype⟩ := List.mem_filter.mp ha
    obtain ⟨e, he, hkey⟩ := exists_event hagg
    exact ⟨e, he, hkey ▸ of_decide_eq_true htype, hkey ▸ hnum⟩
  · rintro ⟨e, he, htype, hnum⟩
    obtain ⟨a, ha, hkey⟩ := exists_entry he
    refine ⟨a, List.mem_filter.mpr ⟨ha, decide_eq_true ?_⟩, by rw [hkey]; exact hnum⟩
    rw [hkey]
    exact htype

/-- The text shown for a controller `n` with values from `lo` to `hi`, that rests at `last`,
    with the other controllers `others`. -/
def ccText (n : ℕ) (lo hi last : ℤ) (detent : Bool) (others : List ℕ) : String :=
  "CC" ++ n.repr ++ " " ++ lo.repr ++ ".." ++ hi.repr ++ " @" ++ last.repr ++
    (if detent then " (off " ++ pySigned (last - 64) ++ ")" else "") ++
    (if others = [] then "" else " +CC" ++ ",".intercalate (others.map Nat.repr))

theorem ccSummary_eq {a : Entry} {n : ℕ} {lo hi last : ℤ} (hnum : a.number = some n)
    (hlo : a.vmin = some lo) (hhi : a.vmax = some hi) (detent : Bool) (others : List ℕ) :
    ccSummary a (some last) (if detent then some (last - 64) else none) others =
      ccText n lo hi last detent others := by
  have hrepr : pyInt ((some n).map Int.ofNat) = n.repr := rfl
  rw [ccSummary, hnum, hlo, hhi, ccText, hrepr]
  by_cases hothers : others = []
  · cases detent <;> simp [hothers, pyInt, String.append_assoc]
  · cases detent <;> simp only [hothers, pyInt, ne_eq, not_false_eq_true, Bool.false_eq_true,
      if_true, if_false, Option.elim_some, String.append_assoc, String.append_empty]

/-- What is shown for the record of events with a controller among them. -/
theorem summaryStr_buildRecord {events : List MidiEvent} {control : Control} {now : String}
    {a : Entry} {n : ℕ} {lo hi last : ℤ} (hprim : primOf (aggregate events) = some a)
    (hnum : a.number = some n) (hlo : a.vmin = some lo) (hhi : a.vmax = some hi)
    (hlast : a.last = some last) :
    summaryStr (some (buildRecord control (aggregate events) now)) =
      ccText n lo hi last control.detent (othersOf (aggregate events) n) := by
  have hagg : (aggregate events).isEmpty = false := by
    rw [List.isEmpty_eq_false_iff]
    intro hnil
    rw [hnil] at hprim
    cases hprim
  simp only [summaryStr, buildRecord, hagg, hprim, hnum, hlast, Bool.not_true, Bool.not_false,
    Bool.false_eq_true, if_false, Option.bind_some, Option.map_some]
  exact ccSummary_eq hnum hlo hhi control.detent _

/-- **Aggregate and record.** For every list of events, the aggregate has one entry for each
    type, channel and number, in the order in which they appear, with the number of its
    events and the smallest, greatest and last of their values. If there is an event of a
    controller, the record says the number and the last value of the primary controller and
    how far it is from 64; once saved and loaded it is shown with the same numbers and with
    the numbers of the other controllers. If there is a note, the record has the numbers of
    the notes. -/
theorem aggregate_and_record (events : List MidiEvent) (control : Control) (now : String) :
    Aggregated events (aggregate events) ∧
    ((∃ e ∈ events, e.key.type = .cc) → ∃ a n lo hi last others, Primary events a ∧
      a.number = some n ∧ a.vmin = some lo ∧ a.vmax = some hi ∧ a.last = some last ∧
      (buildRecord control (aggregate events) now).primaryCc = some n ∧
      (buildRecord control (aggregate events) now).resting = some last ∧
      (control.detent = true →
        (buildRecord control (aggregate events) now).centerOffset = some (last - 64)) ∧
      others.Pairwise (· < ·) ∧
      (∀ m, m ∈ others ↔ m ≠ n ∧ ∃ e ∈ events, e.key.type = .cc ∧ e.key.number = some m) ∧
      ∀ (results : Json.Dict) (portDesc savedAt : String),
        results.lookup control.cid =
          some (buildRecord control (aggregate events) now).toJson →
        ∃ rec, reloaded (document portDesc savedAt results).tokens control.cid = some rec ∧
          summaryStr (some rec) = ccText n lo hi last control.detent others) ∧
    ((∃ e ∈ events, e.key.type = .noteOn ∨ e.key.type = .noteOff) → ∃ notes,
      (buildRecord control (aggregate events) now).noteNumbers = some notes ∧
      notes.Pairwise (· < ·) ∧
      ∀ m, m ∈ notes ↔ ∃ e ∈ events, (e.key.type = .noteOn ∨ e.key.type = .noteOff) ∧
        e.key.number = some m) := by
  refine ⟨aggregated events, fun hcc => ?_, fun hnote => ?_⟩
  · obtain ⟨a, hprim, hprimary⟩ := primOf_aggregate hcc
    obtain ⟨n, lo, hi, last, hnum, hlo, hhi, hlast⟩ := cc_entry hprimary.mem hprimary.cc
    refine ⟨a, n, lo, hi, last, othersOf (aggregate events) n, hprimary, hnum, hlo, hhi, hlast,
      ?_, ?_, fun hdetent => ?_, sortedSet_pairwise _, fun m => mem_othersOf,
      fun results portDesc savedAt hsaved => ?_⟩
    · simp only [buildRecord, hprim, Option.bind_some, hnum]
    · simp only [buildRecord, hprim, Option.bind_some, hlast]
    · simp only [buildRecord, hprim, Option.bind_some, hlast, hdetent, if_true, Option.map_some]
    · exact ⟨_, record_reloaded hsaved portDesc savedAt,
        summaryStr_buildRecord hprim hnum hlo hhi hlast⟩
  · obtain ⟨e, he, htype⟩ := hnote
    obtain ⟨n, hn⟩ := MidiEvent.number_of_type (e := e) (by rcases htype with h | h <;> simp [h])
    have hmem : n ∈ notesOf (aggregate events) := mem_notesOf.mpr ⟨e, he, htype, hn⟩
    refine ⟨sortedSet (notesOf (aggregate events)), ?_, sortedSet_pairwise _, fun m => ?_⟩
    · exact if_pos (List.ne_nil_of_mem hmem)
    · rw [mem_sortedSet, mem_notesOf]

/-- A crossfader with its mirrored controller, at rest two steps from the middle. -/
example : summaryStr (some (buildRecord
    ⟨"crossfader", "Master", "Crossfader", "crossfader", true⟩
    (aggregate [.cc 0 23 10, .cc 0 24 117, .cc 0 23 66]) "")) =
      "CC23 10..66 @66 (off +2) +CC24" := by decide +kernel

end DjmT1.Tools
