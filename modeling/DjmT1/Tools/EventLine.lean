import DjmT1.Lib.Pattern
import DjmT1.Tools.Aggregate

/-!
# The lines of events

`calibrate.py` reads the MIDI events from the lines that `aseqdump` prints, with the regular
expressions of `parse`. In an ASCII line `\d` and `\s` are the digits and blanks below, and
`int` takes numerals of up to 4300 digits; `parse` is modelled on such lines (`AsciiLine`).

* `best_recordRe`: the numbers of an event, whatever lies behind them.
* `parse_written`: `parse` reads an event from its line, wherever its text stands.
* `written_of_parse`: what `parse` returns stands in the line.
-/

namespace DjmT1.Tools

open DjmT1.Lib

/-! ## The regular expressions -/

/-- `\s`. -/
def isSpace (c : Char) : Bool :=
  c = ' ' || (9 ≤ c.toNat && c.toNat ≤ 13) || (28 ≤ c.toNat && c.toNat ≤ 31)

def lit (s : String) : Pattern Char := .text s.toList

/-- `(\d+)`. -/
def digits : Pattern Char := .group (.many1 Char.isDigit)

/-- `(-?\d+)`. -/
def signed : Pattern Char :=
  .group (.seq (.alt (lit "-") (.text [])) (.many1 Char.isDigit))

/-- A word, a number, and further numbers with their labels. -/
def recordRe (word : String) (labels : List String) : Pattern Char :=
  .cat (lit word :: .many1 isSpace :: digits :: labels.flatMap fun label => [lit label, digits])

/-- `RE` (tools/calibrate.py:161-167). -/
def reCc : Pattern Char := recordRe "Control change" [", controller ", ", value "]

def reOn : Pattern Char := recordRe "Note on" [", note ", ", velocity "]

def reOff : Pattern Char := recordRe "Note off" [", note ", ", velocity "]

def rePb : Pattern Char :=
  .cat [lit "Pitchbend", .many1 isSpace, digits, lit ", value ", signed]

def rePgm : Pattern Char := recordRe "Program change" [", program "]

/-! ## `parse` -/

/-- A line of ASCII characters without a numeral that `int` refuses. -/
structure AsciiLine where
  chars : List Char
  ascii : ∀ c ∈ chars, c.toNat < 128
  short : ∀ a, a <:+: chars → (∀ c ∈ a, c.isDigit) → a.length ≤ 4300

/-- No numeral is longer than its line. -/
def AsciiLine.ofLength (chars : List Char) (ascii : ∀ c ∈ chars, c.toNat < 128)
    (h : chars.length ≤ 4300) : AsciiLine :=
  ⟨chars, ascii, fun _ ha _ => ha.length_le.trans h⟩

/-- `m.group(k)`. -/
def matchGroup (m : List (List Char) × List Char) (k : ℕ) : List Char := m.1.getD (k - 1) []

/-- `int` of some digits, and of digits with a sign. -/
def pyNat (s : List Char) : ℕ := Nat.ofDigitChars 10 s 0

def pySignedNat : List Char → ℤ
  | '-' :: s => -pyNat s
  | s => pyNat s

/-- `parse` (lines 169-180). -/
def parse (line : AsciiLine) : Option MidiEvent :=
  ((reCc.search line.chars).map fun m =>
    .cc (pyNat (matchGroup m 1)) (pyNat (matchGroup m 2)) (pyNat (matchGroup m 3))).or <|
  ((reOn.search line.chars).map fun m =>
    .noteOn (pyNat (matchGroup m 1)) (pyNat (matchGroup m 2)) (pyNat (matchGroup m 3))).or <|
  ((reOff.search line.chars).map fun m =>
    .noteOff (pyNat (matchGroup m 1)) (pyNat (matchGroup m 2)) (pyNat (matchGroup m 3))).or <|
  ((rePb.search line.chars).map fun m =>
    .pitchbend (pyNat (matchGroup m 1)) (pySignedNat (matchGroup m 2))).or <|
  (rePgm.search line.chars).map fun m =>
    .program (pyNat (matchGroup m 1)) (pyNat (matchGroup m 2))

/-! ## The text of an event -/

/-- The digits of a number, with a sign, and the blanks before it. -/
structure Numeral (a : List Char) : Prop where
  ne_nil : a ≠ []
  digit : ∀ c ∈ a, c.isDigit

def SignedNumeral (a : List Char) : Prop := ∃ b, Numeral b ∧ (a = b ∨ a = '-' :: b)

structure Blank (gap : List Char) : Prop where
  ne_nil : gap ≠ []
  space : ∀ c ∈ gap, isSpace c

/-- Labelled numbers. -/
def fieldsText (fields : List (String × List Char)) : List Char :=
  fields.flatMap fun f => f.1.toList ++ f.2

/-- A word, a number, and further numbers with their labels. -/
def recordText (word : String) (gap a : List Char) (fields : List (String × List Char)) :
    List Char :=
  word.toList ++ (gap ++ (a ++ fieldsText fields))

/-- A text that stands for an event, in the words of the regular expressions. -/
inductive Written : MidiEvent → List Char → Prop
  | cc {gap a b c : List Char} (hgap : Blank gap) (ha : Numeral a) (hb : Numeral b)
      (hc : Numeral c) : Written (.cc (pyNat a) (pyNat b) (pyNat c))
        (recordText "Control change" gap a [(", controller ", b), (", value ", c)])
  | noteOn {gap a b c : List Char} (hgap : Blank gap) (ha : Numeral a) (hb : Numeral b)
      (hc : Numeral c) : Written (.noteOn (pyNat a) (pyNat b) (pyNat c))
        (recordText "Note on" gap a [(", note ", b), (", velocity ", c)])
  | noteOff {gap a b c : List Char} (hgap : Blank gap) (ha : Numeral a) (hb : Numeral b)
      (hc : Numeral c) : Written (.noteOff (pyNat a) (pyNat b) (pyNat c))
        (recordText "Note off" gap a [(", note ", b), (", velocity ", c)])
  | pitchbend {gap a b : List Char} (hgap : Blank gap) (ha : Numeral a) (hb : SignedNumeral b) :
      Written (.pitchbend (pyNat a) (pySignedNat b))
        (recordText "Pitchbend" gap a [(", value ", b)])
  | program {gap a b : List Char} (hgap : Blank gap) (ha : Numeral a) (hb : Numeral b) :
      Written (.program (pyNat a) (pyNat b))
        (recordText "Program change" gap a [(", program ", b)])

/-- No more digits. -/
def Ends (s : List Char) : Prop := ∀ c, s.head? = some c → ¬ c.isDigit

theorem Numeral.span {a s : List Char} (h : Numeral a) (hs : Ends s) :
    Pattern.Span Char.isDigit a s := ⟨h.digit, hs⟩

theorem Numeral.ends {a s : List Char} (h : Numeral a) {p : Char → Bool}
    (hp : ∀ c : Char, c.isDigit → ¬ p c) : ∀ c, (a ++ s).head? = some c → ¬ p c := by
  obtain ⟨d, t, rfl⟩ := List.exists_cons_of_ne_nil h.ne_nil
  intro c hc
  rw [← Option.some.inj hc]
  exact hp d (h.digit d List.mem_cons_self)

theorem not_isSpace_of_isDigit {c : Char} (h : c.isDigit) : ¬ isSpace c := by
  have h0 : 48 ≤ c.toNat := (Char.isDigit_iff_toNat.mp h).1
  have hblank : c ≠ ' ' := by
    rintro rfl
    exact absurd h (by decide)
  simp only [isSpace, Bool.or_eq_true, Bool.and_eq_true, decide_eq_true_eq, hblank, false_or]
  omega

theorem digits_rejects {p : Char → Bool} (h : ∀ c : Char, c.isDigit → ¬ p c) (b : Pattern Char) :
    (Pattern.seq digits b).Rejects p := by
  intro c s hc
  have hnone : ¬ c.isDigit := fun hd => h c hd hc
  rw [Pattern.run, digits, Pattern.run, Pattern.run_many1_nil hnone, List.map_nil, List.flatMap_nil]

/-! ## The numbers of an event -/

section

variable {b : Pattern Char} {s : List Char} {x : List (List Char) × List Char}

/-- A number, and what comes behind it. -/
theorem best_digits (h : Pattern.Best b s x) (hs : Ends s)
    (hb : b = .text [] ∨ b.Rejects Char.isDigit) {a : List Char} (ha : Numeral a) :
    Pattern.Best (.seq digits b) (a ++ s) (a :: x.1, x.2) := by
  rcases hb with rfl | hb
  · obtain ⟨more, hrun, _⟩ := h
    have hx : ([], s) = x := (List.cons_eq_cons.mp hrun).1
    have hlast := (Pattern.best_class (ha.span hs) ha.ne_nil).group.last
    rw [List.length_append, Nat.add_sub_cancel, List.take_left] at hlast
    rw [← hx]
    exact hlast
  · exact h.group_seq (ha.span hs) ha.ne_nil hb

theorem best_label (h : Pattern.Best b s x) (label : String) :
    Pattern.Best (.seq (lit label) b) (label.toList ++ s) x :=
  h.of_run_eq (Pattern.run_text_seq _ _ _)

/-- A word and its number. -/
theorem best_head (h : Pattern.Best b s x) (hs : Ends s)
    (hb : b = .text [] ∨ b.Rejects Char.isDigit) (word : String) {gap a : List Char}
    (hgap : Blank gap) (ha : Numeral a) :
    Pattern.Best (.seq (lit word) (.seq (.many1 isSpace) (.seq digits b)))
      (word.toList ++ (gap ++ (a ++ s))) (a :: x.1, x.2) := by
  have hspan : Pattern.Span isSpace gap (a ++ s) :=
    ⟨hgap.space, ha.ends fun c hc => not_isSpace_of_isDigit hc⟩
  have hrejects : (Pattern.seq digits b).Rejects isSpace :=
    digits_rejects (fun c hc => not_isSpace_of_isDigit hc) b
  have hnumber := (best_digits h hs hb ha).of_run_eq
    (Pattern.run_class_seq hspan hgap.ne_nil hrejects)
  exact best_label hnumber word

end

/-- The labels of a pattern, and numbers with these labels. -/
structure Fields (labels : List String) (fields : List (String × List Char)) : Prop where
  names : fields.map Prod.fst = labels
  comma : ∀ label ∈ labels, ∃ t, label.toList = ',' :: t
  numeral : ∀ f ∈ fields, Numeral f.2

theorem fieldsText_ends {labels : List String} {fields : List (String × List Char)}
    (h : Fields labels fields) {s : List Char} (hs : Ends s) : Ends (fieldsText fields ++ s) := by
  cases fields with
  | nil => exact hs
  | cons f fields =>
    obtain ⟨t, ht⟩ := h.comma f.1 (h.names ▸ List.mem_cons_self)
    intro c hc
    rw [fieldsText, List.flatMap_cons, ht] at hc
    rw [← Option.some.inj hc]
    decide

/-- The labelled numbers of a pattern. -/
abbrev fieldsRe (labels : List String) : Pattern Char :=
  .cat (labels.flatMap fun label => [lit label, digits])

theorem fields_rejects {labels : List String} (h : ∀ label ∈ labels, ∃ t, label.toList = ',' :: t) :
    fieldsRe labels = .text [] ∨ (fieldsRe labels).Rejects Char.isDigit := by
  cases labels with
  | nil => exact .inl rfl
  | cons label labels =>
    obtain ⟨t, ht⟩ := h label List.mem_cons_self
    refine .inr ?_
    change (Pattern.seq (lit label) _).Rejects Char.isDigit
    rw [lit, ht]
    exact Pattern.rejects_text (by decide) t _

theorem best_fields {labels : List String} {fields : List (String × List Char)}
    (h : Fields labels fields) {s : List Char} (hs : Ends s) :
    Pattern.Best (fieldsRe labels) (fieldsText fields ++ s) (fields.map Prod.snd, s) := by
  induction fields generalizing labels with
  | nil =>
    obtain rfl := h.names
    exact ⟨[], Pattern.run_text_append [] s, fun y hy => absurd hy List.not_mem_nil⟩
  | cons f fields ih =>
    obtain rfl := h.names
    have hcomma : ∀ label ∈ fields.map Prod.fst, ∃ t, label.toList = ',' :: t := fun label hl =>
      h.comma label (List.mem_cons_of_mem _ hl)
    have htail : Fields (fields.map Prod.fst) fields :=
      ⟨rfl, hcomma, fun g hg => h.numeral g (List.mem_cons_of_mem f hg)⟩
    have hrest := best_digits (ih htail) (fieldsText_ends htail hs) (fields_rejects hcomma)
      (h.numeral f List.mem_cons_self)
    have hfield := best_label hrest f.1
    rw [fieldsText, List.flatMap_cons, List.append_assoc, List.append_assoc]
    exact hfield

/-- The numbers of an event, whatever lies behind them. -/
theorem best_recordRe {labels : List String} {fields : List (String × List Char)}
    (h : Fields labels fields) {s : List Char} (hs : Ends s) (word : String) {gap a : List Char}
    (hgap : Blank gap) (ha : Numeral a) :
    Pattern.Best (recordRe word labels) (recordText word gap a fields ++ s)
      (a :: fields.map Prod.snd, s) := by
  have hbest := best_head (best_fields h hs) (fieldsText_ends h hs) (fields_rejects h.comma)
    word hgap ha
  rw [recordText]
  simp only [List.append_assoc]
  exact hbest

/-- A number with a sign at the end of a pattern. -/
theorem best_signed {a : List Char} (ha : SignedNumeral a) {s : List Char} (hs : Ends s) :
    Pattern.Best (.seq signed (.text [])) (a ++ s) ([a], s) := by
  obtain ⟨b, hb, hab⟩ := ha
  have hclass := Pattern.best_class (hb.span hs) hb.ne_nil
  have hbest : Pattern.Best (.seq (.alt (lit "-") (.text [])) (.many1 Char.isDigit))
      (a ++ s) ([], s) := by
    rcases hab with rfl | rfl
    · obtain ⟨c, t, rfl⟩ := List.exists_cons_of_ne_nil hb.ne_nil
      have hminus : c ≠ '-' := by
        rintro rfl
        exact absurd (hb.digit '-' List.mem_cons_self) (by decide)
      exact hclass.of_run_eq (Pattern.run_opt_skip hminus)
    · exact hclass.of_run_eq (Pattern.run_opt (Pattern.run_many1_nil (by decide) _))
  have hlast := hbest.group.last
  rw [List.length_append, Nat.add_sub_cancel, List.take_left] at hlast
  exact hlast

/-- A pitch bend. -/
theorem best_rePb {gap a b : List Char} (hgap : Blank gap) (ha : Numeral a) (hb : SignedNumeral b)
    {s : List Char} (hs : Ends s) :
    Pattern.Best rePb (recordText "Pitchbend" gap a [(", value ", b)] ++ s) ([a, b], s) := by
  have hends : Ends (", value ".toList ++ (b ++ s)) := by
    intro c hc
    rw [← Option.some.inj hc]
    decide
  have hrejects : (Pattern.seq (lit ", value ") (.seq signed (.text []))).Rejects Char.isDigit :=
    Pattern.rejects_text (by decide) _ _
  have hbest := best_head (best_label (best_signed hb hs) ", value ") hends (.inr hrejects)
    "Pitchbend" hgap ha
  rw [recordText]
  simp only [fieldsText, List.flatMap_cons, List.flatMap_nil, List.append_nil, List.append_assoc]
  exact hbest

/-! ## Letters -/

/-- No letters. -/
def Margin (s : List Char) : Prop := ∀ c ∈ s, !c.isAlpha

/-- No capital letters. -/
def Low (s : List Char) : Prop := ∀ c ∈ s, !c.isUpper

theorem Margin.low {s : List Char} (h : Margin s) : Low s := by
  intro c hc
  have halpha := h c hc
  rw [Char.isAlpha, Bool.not_or, Bool.and_eq_true] at halpha
  exact halpha.1

theorem Low.append {s t : List Char} (hs : Low s) (ht : Low t) : Low (s ++ t) :=
  List.forall_mem_append.mpr ⟨hs, ht⟩

theorem Margin.append {s t : List Char} (hs : Margin s) (ht : Margin t) : Margin (s ++ t) :=
  List.forall_mem_append.mpr ⟨hs, ht⟩

theorem isAlpha_of_lt {c : Char} (h : c.toNat < 65) : !c.isAlpha := by
  have hA : 'A'.toNat = 65 := rfl
  have ha : 'a'.toNat = 97 := rfl
  simp only [Char.isAlpha, Char.isUpper, Char.isLower, ge_iff_le, UInt32.le_iff_toNat_le,
    Char.toNat_val, Bool.not_eq_true', Bool.or_eq_false_iff, Bool.and_eq_false_iff,
    decide_eq_false_iff_not]
  omega

theorem Numeral.margin {a : List Char} (h : Numeral a) : Margin a := by
  intro c hc
  have h9 : c.toNat ≤ 57 := (Char.isDigit_iff_toNat.mp (h.digit c hc)).2
  exact isAlpha_of_lt (by omega)

theorem SignedNumeral.margin {a : List Char} (h : SignedNumeral a) : Margin a := by
  obtain ⟨b, hb, rfl | rfl⟩ := h
  · exact hb.margin
  · exact List.forall_mem_cons.mpr ⟨rfl, hb.margin⟩

theorem Blank.margin {gap : List Char} (h : Blank gap) : Margin gap := by
  intro c hc
  have hspace := h.space c hc
  simp only [isSpace, Bool.or_eq_true, Bool.and_eq_true, decide_eq_true_eq] at hspace
  rcases hspace with (rfl | hlt) | hlt
  · rfl
  · exact isAlpha_of_lt (by omega)
  · exact isAlpha_of_lt (by omega)

/-! ## `parse` on the line of an event -/

/-- The word that begins the text of an event. -/
def MidiEvent.word : MidiEvent → String
  | .cc _ _ _ => "Control change"
  | .noteOn _ _ _ => "Note on"
  | .noteOff _ _ _ => "Note off"
  | .pitchbend _ _ => "Pitchbend"
  | .program _ _ => "Program change"

theorem MidiEvent.word_eq (e : MidiEvent) : ∃ c w, e.word.toList = c :: w ∧ Low w := by
  cases e with
  | cc _ _ _ => exact ⟨'C', "ontrol change".toList, by simp [word], by simp [Low]⟩
  | noteOn _ _ _ => exact ⟨'N', "ote on".toList, by simp [word], by simp [Low]⟩
  | noteOff _ _ _ => exact ⟨'N', "ote off".toList, by simp [word], by simp [Low]⟩
  | pitchbend _ _ => exact ⟨'P', "itchbend".toList, by simp [word], by simp [Low]⟩
  | program _ _ => exact ⟨'P', "rogram change".toList, by simp [word], by simp [Low]⟩

theorem recordText_eq (word : String) {gap a : List Char} {fields : List (String × List Char)}
    (hgap : Blank gap) (ha : Numeral a) (h : ∀ f ∈ fields, Low f.1.toList ∧ Margin f.2) :
    ∃ t, recordText word gap a fields = word.toList ++ t ∧ Low t := by
  refine ⟨_, rfl, hgap.margin.low.append (ha.margin.low.append ?_)⟩
  intro c hc
  obtain ⟨f, hf, hc⟩ := List.mem_flatMap.mp hc
  obtain ⟨hlabel, hnumber⟩ := h f hf
  exact hlabel.append hnumber.low c hc

/-- In the text of an event only the first letter is a capital. -/
theorem Written.eq_word {e : MidiEvent} {t : List Char} (h : Written e t) :
    ∃ u, t = e.word.toList ++ u ∧ Low u := by
  cases h with
  | cc hgap ha hb hc | noteOn hgap ha hb hc | noteOff hgap ha hb hc =>
    exact recordText_eq _ hgap ha (by simp [Low, hb.margin, hc.margin])
  | pitchbend hgap ha hb => exact recordText_eq _ hgap ha (by simp [Low, hb.margin])
  | program hgap ha hb => exact recordText_eq _ hgap ha (by simp [Low, hb.margin])

section

variable {word : String} {as : List (Pattern Char)} {pre t post : List Char} {e : MidiEvent}

theorem run_cat_lit {s : List Char} (h : ¬ word.toList <+: s) :
    (Pattern.cat (lit word :: as)).run s = [] := by
  change (Pattern.seq (lit word) _).run s = []
  rw [Pattern.run, lit, Pattern.run, if_neg h, List.flatMap_nil]

theorem cat_lit_rejects {p : Char → Bool} (h : ∀ c, word.toList.head? = some c → ¬ p c)
    (hne : word.toList ≠ []) : (Pattern.cat (lit word :: as)).Rejects p := by
  obtain ⟨c, u, hu⟩ := List.exists_cons_of_ne_nil hne
  change (Pattern.seq (lit word) _).Rejects _
  rw [lit, hu]
  exact Pattern.rejects_text (h c (by rw [hu]; rfl)) u _

/-- A pattern with another word finds nothing in the line of an event. -/
theorem search_other (h : ∀ c, word.toList.head? = some c → c.isUpper) (hne : word.toList ≠ [])
    (hword : ∀ u, ¬ word.toList <+: e.word.toList ++ u) (ht : Written e t) (hpre : Low pre)
    (hpost : Low post) : (Pattern.cat (lit word :: as)).search (pre ++ (t ++ post)) = none := by
  obtain ⟨u, rfl, hlow⟩ := ht.eq_word
  obtain ⟨c, w, hw, hloww⟩ := e.word_eq
  have hrejects : (Pattern.cat (lit word :: as)).Rejects fun c => !c.isUpper :=
    cat_lit_rejects (fun c hc => by simp [h c hc]) hne
  have hrun : (Pattern.cat (lit word :: as)).run (c :: (w ++ (u ++ post))) = [] := by
    rw [← List.cons_append, ← hw]
    exact run_cat_lit (hword _)
  have hnil : (Pattern.cat (lit word :: as)).search [] = none := by
    rw [Pattern.search, run_cat_lit fun hpre => hne (List.prefix_nil.mp hpre)]
    rfl
  rw [hw, List.append_assoc, List.cons_append, Pattern.search_append hrejects hpre,
    Pattern.search_skip hrun, ← List.append_nil (w ++ (u ++ post)),
    Pattern.search_append hrejects (hloww.append (hlow.append hpost)), hnil]

/-- A pattern that takes the text of an event finds it in the line. -/
theorem search_event {x : List (List Char) × List Char}
    (h : ∀ c, word.toList.head? = some c → c.isUpper) (hne : word.toList ≠ []) (hpre : Low pre)
    (hbest : Pattern.Best (.cat (lit word :: as)) (t ++ post) x) :
    (Pattern.cat (lit word :: as)).search (pre ++ (t ++ post)) = some x := by
  have hrejects : (Pattern.cat (lit word :: as)).Rejects fun c => !c.isUpper :=
    cat_lit_rejects (fun c hc => by simp [h c hc]) hne
  rw [Pattern.search_append hrejects hpre, hbest.search]

/-- `parse` reads an event from its line, wherever its text stands. -/
theorem parse_written {line : AsciiLine} (hline : line.chars = pre ++ (t ++ post))
    (ht : Written e t) (hpre : Low pre) (hpost : Low post) (hends : Ends post) :
    parse line = some e := by
  have hnone {word : String} (as : List (Pattern Char))
      (h : ∀ c, word.toList.head? = some c → c.isUpper) (hne : word.toList ≠ [])
      (hword : ∀ t, ¬ word.toList <+: e.word.toList ++ t) :
      (Pattern.cat (lit word :: as)).search (pre ++ (t ++ post)) = none :=
    search_other h hne hword ht hpre hpost
  cases ht with
  | @cc gap a b c hgap ha hb hc =>
    have hfields : Fields [", controller ", ", value "] [(", controller ", b), (", value ", c)] :=
      ⟨rfl, by simp, by simp [hb, hc]⟩
    have hcc := search_event (by simp) (by simp) hpre
      (best_recordRe hfields hends "Control change" hgap ha)
    rw [parse, hline, reCc, recordRe, hcc]
    simp [matchGroup]
  | @noteOn gap a b c hgap ha hb hc =>
    have hfields : Fields [", note ", ", velocity "] [(", note ", b), (", velocity ", c)] :=
      ⟨rfl, by simp, by simp [hb, hc]⟩
    have hon := search_event (by simp) (by simp) hpre
      (best_recordRe hfields hends "Note on" hgap ha)
    rw [parse, hline, reCc, recordRe, hnone _ (by simp) (by simp) (by simp [MidiEvent.word]), reOn,
      recordRe, hon]
    simp [matchGroup]
  | @noteOff gap a b c hgap ha hb hc =>
    have hfields : Fields [", note ", ", velocity "] [(", note ", b), (", velocity ", c)] :=
      ⟨rfl, by simp, by simp [hb, hc]⟩
    have hoff := search_event (by simp) (by simp) hpre
      (best_recordRe hfields hends "Note off" hgap ha)
    rw [parse, hline, reCc, recordRe, hnone _ (by simp) (by simp) (by simp [MidiEvent.word]), reOn,
      recordRe, hnone _ (by simp) (by simp) (by simp [MidiEvent.word]), reOff, recordRe, hoff]
    simp [matchGroup]
  | @pitchbend gap a b hgap ha hb =>
    have hpb := search_event (by simp) (by simp) hpre (best_rePb hgap ha hb hends)
    rw [parse, hline, reCc, recordRe, hnone _ (by simp) (by simp) (by simp [MidiEvent.word]), reOn,
      recordRe, hnone _ (by simp) (by simp) (by simp [MidiEvent.word]), reOff, recordRe,
      hnone _ (by simp) (by simp) (by simp [MidiEvent.word]), rePb, hpb]
    simp [matchGroup]
  | @program gap a b hgap ha hb =>
    have hfields : Fields [", program "] [(", program ", b)] := ⟨rfl, by simp, by simp [hb]⟩
    have hpgm := search_event (by simp) (by simp) hpre
      (best_recordRe hfields hends "Program change" hgap ha)
    rw [parse, hline, reCc, recordRe, hnone _ (by simp) (by simp) (by simp [MidiEvent.word]), reOn,
      recordRe, hnone _ (by simp) (by simp) (by simp [MidiEvent.word]), reOff, recordRe,
      hnone _ (by simp) (by simp) (by simp [MidiEvent.word]), rePb,
      hnone _ (by simp) (by simp) (by simp [MidiEvent.word]), rePgm, recordRe, hpgm]
    simp [matchGroup]

end

/-! ## What `parse` accepts -/

theorem spells_digits {t : List Char} {cs : List (List Char)} (h : digits.Spells t cs) :
    cs = [t] ∧ Numeral t := by
  obtain ⟨inner, rfl, h⟩ := h
  obtain ⟨hne, hall, rfl⟩ := Pattern.spells_many1 h
  exact ⟨rfl, hne, hall⟩

theorem spells_signed {t : List Char} {cs : List (List Char)} (h : signed.Spells t cs) :
    cs = [t] ∧ SignedNumeral t := by
  obtain ⟨inner, rfl, x, y, rfl, rfl, hx, hy⟩ := h
  obtain ⟨hne, hall, hys⟩ := Pattern.spells_many1 hy
  rw [hys]
  rcases hx with ⟨hx, hxs⟩ | ⟨hx, hxs⟩
  · rw [hx, hxs]
    exact ⟨rfl, y.1, ⟨hne, hall⟩, .inr rfl⟩
  · rw [hx, hxs]
    exact ⟨rfl, y.1, ⟨hne, hall⟩, .inl rfl⟩

theorem spells_fieldsRe {labels : List String} {t : List Char} {cs : List (List Char)}
    (h : (fieldsRe labels).Spells t cs) : ∃ fields, fields.map Prod.fst = labels ∧
      fields.map Prod.snd = cs ∧ t = fieldsText fields ∧ ∀ f ∈ fields, Numeral f.2 := by
  induction labels generalizing t cs with
  | nil =>
    obtain ⟨rfl, rfl⟩ := h
    exact ⟨[], rfl, rfl, rfl, fun f hf => absurd hf List.not_mem_nil⟩
  | cons label labels ih =>
    obtain ⟨x, y, rfl, rfl, ⟨hx, hxs⟩, z, w, hy, hys, hz, hw⟩ := h
    obtain ⟨hzs, hnumeral⟩ := spells_digits hz
    obtain ⟨fields, hnames, hvalues, htext, hall⟩ := ih hw
    refine ⟨(label, z.1) :: fields, by rw [List.map_cons, hnames], ?_, ?_, ?_⟩
    · rw [List.map_cons, hvalues, hxs, hys, hzs]
      rfl
    · rw [hx, hy, htext, fieldsText, fieldsText, List.flatMap_cons, List.append_assoc]
    · exact List.forall_mem_cons.mpr ⟨hnumeral, hall⟩

/-- A word and its number, and what else the pattern has. -/
theorem spells_head {word : String} {as : List (Pattern Char)} {t : List Char}
    {cs : List (List Char)}
    (h : (Pattern.cat (lit word :: .many1 isSpace :: digits :: as)).Spells t cs) :
    ∃ gap a u ds, t = word.toList ++ (gap ++ (a ++ u)) ∧ cs = a :: ds ∧ Blank gap ∧ Numeral a ∧
      (Pattern.cat as).Spells u ds := by
  obtain ⟨x, y, rfl, rfl, ⟨hx, hxs⟩, gap, z, hy, hys, hgap, a, u, hz, hzs, ha, hu⟩ := h
  obtain ⟨hne, hspace, hgaps⟩ := Pattern.spells_many1 hgap
  obtain ⟨has, hnumeral⟩ := spells_digits ha
  refine ⟨gap.1, a.1, u.1, u.2, by rw [hx, hy, hz], ?_, ⟨hne, hspace⟩, hnumeral, hu⟩
  rw [hxs, hys, hgaps, hzs, has]
  rfl

theorem spells_recordRe {word : String} {labels : List String} {t : List Char}
    {cs : List (List Char)} (h : (recordRe word labels).Spells t cs) :
    ∃ gap a fields, t = recordText word gap a fields ∧ cs = a :: fields.map Prod.snd ∧ Blank gap ∧
      Numeral a ∧ fields.map Prod.fst = labels ∧ ∀ f ∈ fields, Numeral f.2 := by
  obtain ⟨gap, a, u, ds, rfl, rfl, hgap, ha, hu⟩ := spells_head h
  obtain ⟨fields, hnames, rfl, rfl, hall⟩ := spells_fieldsRe hu
  exact ⟨gap, a, fields, rfl, rfl, hgap, ha, hnames, hall⟩

theorem spells_rePb {t : List Char} {cs : List (List Char)} (h : rePb.Spells t cs) :
    ∃ gap a b, t = recordText "Pitchbend" gap a [(", value ", b)] ∧ cs = [a, b] ∧ Blank gap ∧
      Numeral a ∧ SignedNumeral b := by
  obtain ⟨gap, a, u, ds, rfl, rfl, hgap, ha, hu⟩ := spells_head h
  obtain ⟨x, y, rfl, rfl, ⟨hx, hxs⟩, z, w, hy, hys, hz, hw, hws⟩ := hu
  obtain ⟨hzs, hb⟩ := spells_signed hz
  refine ⟨gap, a, z.1, ?_, ?_, hgap, ha, hb⟩
  · rw [hx, hy, hw]
    simp [recordText, fieldsText]
  · rw [hxs, hys, hzs, hws]
    rfl

/-- Two labels, two numbers. -/
theorem fields_two {l l' : String} {fields : List (String × List Char)}
    (h : fields.map Prod.fst = [l, l']) : ∃ b c, fields = [(l, b), (l', c)] := by
  rcases fields with _ | ⟨f, _ | ⟨g, _ | ⟨k, fields⟩⟩⟩
  · exact absurd h (by simp)
  · exact absurd h (by simp)
  · simp only [List.map_cons, List.map_nil, List.cons.injEq, and_true] at h
    exact ⟨f.2, g.2, by rw [← h.1, ← h.2]⟩
  · exact absurd h (by simp)

theorem fields_one {l : String} {fields : List (String × List Char)}
    (h : fields.map Prod.fst = [l]) : ∃ b, fields = [(l, b)] := by
  rcases fields with _ | ⟨f, _ | ⟨g, fields⟩⟩
  · exact absurd h (by simp)
  · simp only [List.map_cons, List.map_nil, List.cons.injEq, and_true] at h
    exact ⟨f.2, by rw [← h]⟩
  · exact absurd h (by simp)

/-- Wherever a pattern with two labels matches, there is a text with two labelled numbers. -/
theorem written_of_search {word l l' : String} {line : List Char}
    {m : List (List Char) × List Char} (h : (recordRe word [l, l']).search line = some m) :
    ∃ pre gap a b c post, line = pre ++ (recordText word gap a [(l, b), (l', c)] ++ post) ∧
      m.1 = [a, b, c] ∧ Blank gap ∧ Numeral a ∧ Numeral b ∧ Numeral c := by
  obtain ⟨pre, t, rfl, hspells⟩ := Pattern.search_sound h
  obtain ⟨gap, a, fields, rfl, hcs, hgap, ha, hnames, hall⟩ := spells_recordRe hspells
  obtain ⟨b, c, rfl⟩ := fields_two hnames
  simp only [List.forall_mem_cons] at hall
  exact ⟨pre, gap, a, b, c, m.2, by rw [List.append_assoc], hcs, hgap, ha, hall.1, hall.2.1⟩

/-- What `parse` returns stands in the line. -/
theorem written_of_parse {line : AsciiLine} {e : MidiEvent} (h : parse line = some e) :
    ∃ pre t post, line.chars = pre ++ (t ++ post) ∧ Written e t := by
  simp only [parse, Option.or_eq_some_iff, Option.map_eq_some_iff] at h
  rcases h with ⟨m, hm, rfl⟩ | ⟨_, ⟨m, hm, rfl⟩ | ⟨_, ⟨m, hm, rfl⟩ | ⟨_, ⟨m, hm, rfl⟩ |
    ⟨_, m, hm, rfl⟩⟩⟩⟩
  · obtain ⟨pre, gap, a, b, c, post, hline, hcs, hgap, ha, hb, hc⟩ := written_of_search hm
    refine ⟨pre, _, post, hline, ?_⟩
    simp only [matchGroup, hcs]
    exact .cc hgap ha hb hc
  · obtain ⟨pre, gap, a, b, c, post, hline, hcs, hgap, ha, hb, hc⟩ := written_of_search hm
    refine ⟨pre, _, post, hline, ?_⟩
    simp only [matchGroup, hcs]
    exact .noteOn hgap ha hb hc
  · obtain ⟨pre, gap, a, b, c, post, hline, hcs, hgap, ha, hb, hc⟩ := written_of_search hm
    refine ⟨pre, _, post, hline, ?_⟩
    simp only [matchGroup, hcs]
    exact .noteOff hgap ha hb hc
  · obtain ⟨pre, t, hline, hspells⟩ := Pattern.search_sound hm
    obtain ⟨gap, a, b, rfl, hcs, hgap, ha, hb⟩ := spells_rePb hspells
    refine ⟨pre, _, m.2, hline.trans (List.append_assoc ..), ?_⟩
    simp only [matchGroup, hcs]
    exact .pitchbend hgap ha hb
  · obtain ⟨pre, t, hline, hspells⟩ := Pattern.search_sound hm
    obtain ⟨gap, a, fields, rfl, hcs, hgap, ha, hnames, hall⟩ := spells_recordRe hspells
    obtain ⟨b, rfl⟩ := fields_one hnames
    refine ⟨pre, _, m.2, hline.trans (List.append_assoc ..), ?_⟩
    simp only [matchGroup, hcs]
    exact .program hgap ha (hall _ List.mem_cons_self)

/-- **Parser.** Wherever a text that stands for an event lies in a line, among characters
    that are no capital letters and with no digit behind it, `parse` returns the event; and
    whatever `parse` returns for any line stands in it. -/
theorem parse_event (line : AsciiLine) (e : MidiEvent) :
    (∀ pre t post, line.chars = pre ++ (t ++ post) → Written e t → Low pre → Low post →
      Ends post → parse line = some e) ∧
    (parse line = some e →
      ∃ pre t post, line.chars = pre ++ (t ++ post) ∧ Written e t) := by
  refine ⟨?_, written_of_parse⟩
  intro pre t post hline ht hpre hpost hends
  exact parse_written hline ht hpre hpost hends

/-- A fader, in a line of `aseqdump`. -/
def faderLine : AsciiLine :=
  .ofLength " 24:0   Control change          0, controller 21, value 064\n".toList (by simp)
    (by simp)

theorem parse_event_fader : parse faderLine = some (.cc 0 21 64) := by
  have hgap : Blank "          ".toList := ⟨by simp, by simp [isSpace]⟩
  have ha : Numeral "0".toList := ⟨by simp, by simp⟩
  have hb : Numeral "21".toList := ⟨by simp, by simp⟩
  have hc : Numeral "064".toList := ⟨by simp, by simp⟩
  have hline : faderLine.chars =
      " 24:0   ".toList ++ (recordText "Control change" "          ".toList "0".toList
        [(", controller ", "21".toList), (", value ", "064".toList)] ++ "\n".toList) := by
    decide
  have hends : Ends "\n".toList := fun c hc => by
    rw [← Option.some.inj hc]
    decide
  exact (parse_event _ _).1 _ _ _ hline (.cc hgap ha hb hc) (by simp [Low]) (by simp [Low]) hends

end DjmT1.Tools
