import DjmT1.Tools.CalQuick
import DjmT1.Tools.EventLine

/-!
# The event log

`cal-quick.sh` reads the same lines with `grep -o`, `sed` and the fields of `awk`. On an
ASCII log of printed events among other lines it agrees with `calibrate.py`, where the
numbers are those of MIDI.

* `LogLine.reads`: what the tools make of one line.
* `logs_agree`: the events, pairs and notes that they read, and what `aggregate` and the
  arrays of `awk` hold in the end.
-/

namespace DjmT1.Tools

open DjmT1.Lib DjmT1.Lib.Tally

/-! ## `cal-quick.sh` -/

/-- `controller [0-9]+, value [0-9]+`, for `grep` and, with its groups, for `sed`
    (tools/cal-quick.sh:67). -/
def rePair : Pattern Char := .cat [lit "controller ", digits, lit ", value ", digits]

/-- `Note (on|off) +[0-9]+, note [0-9]+` and `note [0-9]+` (line 68). -/
def reNote : Pattern Char :=
  .cat [lit "Note ", .alt (lit "on") (lit "off"), .many1 (· = ' '), digits, lit ", note ", digits]

def reNoteNumber : Pattern Char := .cat [lit "note ", digits]

/-- `s/controller ([0-9]+), value ([0-9]+)/\1 \2/`. -/
def sedPair (s : List Char) : List Char :=
  rePair.subst (fun cs => cs.getD 0 [] ++ ' ' :: cs.getD 1 []) s

/-- `$1` and `$2` of `awk` (line 79). -/
def awkFields (s : List Char) : List (List Char) := (s.splitOnP (· = ' ')).filter (· ≠ [])

def awkPair (s : List Char) : ℕ × ℕ :=
  (pyNat ((awkFields s).getD 0 []), pyNat ((awkFields s).getD 1 []))

/-- What `awk` reads of `pairs`, from the lines of a log. -/
def pairsOf (log : List AsciiLine) : List (ℕ × ℕ) :=
  ((log.flatMap fun line => rePair.findAll line.chars).map sedPair).map awkPair

/-- `notes`, before `sort | uniq -c`. -/
def noteTexts (log : List AsciiLine) : List (List Char) :=
  (log.flatMap fun line => reNote.findAll line.chars).flatMap reNoteNumber.findAll

/-! ## A log -/

/-- A number as it is printed. -/
def dec (n : ℕ) : List Char := Nat.toDigits 10 n

def decSigned : ℤ → List Char
  | .ofNat n => dec n
  | .negSucc n => '-' :: dec (n + 1)

/-- An event as it is printed. -/
def printed (gap : ℕ) : MidiEvent → List Char
  | .cc ch num val => recordText "Control change" (List.replicate (gap + 1) ' ') (dec ch)
      [(", controller ", dec num), (", value ", dec val)]
  | .noteOn ch num val => recordText "Note on" (List.replicate (gap + 1) ' ') (dec ch)
      [(", note ", dec num), (", velocity ", dec val)]
  | .noteOff ch num val => recordText "Note off" (List.replicate (gap + 1) ' ') (dec ch)
      [(", note ", dec num), (", velocity ", dec val)]
  | .pitchbend ch val => recordText "Pitchbend" (List.replicate (gap + 1) ' ') (dec ch)
      [(", value ", decSigned val)]
  | .program ch num => recordText "Program change" (List.replicate (gap + 1) ' ') (dec ch)
      [(", program ", dec num)]

/-- The numbers that MIDI has. -/
def MidiEvent.InRange : MidiEvent → Prop
  | .cc ch num val | .noteOn ch num val | .noteOff ch num val => ch < 16 ∧ num < 128 ∧ val < 128
  | .pitchbend ch val => ch < 16 ∧ -8192 ≤ val ∧ val < 8192
  | .program ch num => ch < 16 ∧ num < 128

/-- A line of the log: an event between other characters that are no letters, or a line
    without any of the words that the tools look for. -/
inductive LogLine : List Char → Option MidiEvent → Prop
  | event {pre post : List Char} (gap : ℕ) (e : MidiEvent) (hrange : e.InRange)
      (hpre : Margin pre) (hpost : Margin post) (hends : Ends post) :
      LogLine (pre ++ (printed gap e ++ post)) (some e)
  | other {line : List Char} (h : ∀ word ∈ ["Control change", "Note ", "Pitchbend",
      "Program change", "controller "], ¬ word.toList <:+: line) : LogLine line none

/-- The controller and the value, and the note. -/
def ccPair : MidiEvent → Option (ℕ × ℕ)
  | .cc _ num val => some (num, val)
  | .noteOn _ _ _ | .noteOff _ _ _ | .pitchbend _ _ | .program _ _ => none

def noteNumber : MidiEvent → Option ℕ
  | .noteOn _ num _ | .noteOff _ num _ => some num
  | .cc _ _ _ | .pitchbend _ _ | .program _ _ => none

theorem dec_numeral (n : ℕ) : Numeral (dec n) :=
  ⟨Nat.toDigits_ne_nil, fun _ hc => Nat.isDigit_of_mem_toDigits (by decide) le_rfl hc⟩

theorem pyNat_dec (n : ℕ) : pyNat (dec n) = n := Nat.ofDigitChars_toDigits (by decide) le_rfl

theorem decSigned_numeral (v : ℤ) : SignedNumeral (decSigned v) := by
  cases v with
  | ofNat n => exact ⟨dec n, dec_numeral n, .inl rfl⟩
  | negSucc n => exact ⟨dec (n + 1), dec_numeral (n + 1), .inr rfl⟩

theorem pySignedNat_decSigned (v : ℤ) : pySignedNat (decSigned v) = v := by
  cases v with
  | ofNat n =>
    obtain ⟨c, t, ht⟩ := List.exists_cons_of_ne_nil (dec_numeral n).ne_nil
    have hminus : c ≠ '-' := by
      rintro rfl
      exact absurd ((dec_numeral n).digit '-' (ht ▸ List.mem_cons_self)) (by decide)
    rw [decSigned, ht, pySignedNat, ← ht, pyNat_dec]
    · rfl
    · intro s hs
      exact hminus (List.cons_eq_cons.mp hs).1
  | negSucc n =>
    rw [decSigned, pySignedNat, pyNat_dec]
    rfl

theorem blank_replicate (gap : ℕ) : Blank (List.replicate (gap + 1) ' ') :=
  ⟨by simp, fun c hc => by rw [List.eq_of_mem_replicate hc]; rfl⟩

theorem written_printed (gap : ℕ) (e : MidiEvent) : Written e (printed gap e) := by
  have hgap := blank_replicate gap
  cases e with
  | cc ch num val =>
    have h := Written.cc hgap (dec_numeral ch) (dec_numeral num) (dec_numeral val)
    rwa [pyNat_dec, pyNat_dec, pyNat_dec] at h
  | noteOn ch num val =>
    have h := Written.noteOn hgap (dec_numeral ch) (dec_numeral num) (dec_numeral val)
    rwa [pyNat_dec, pyNat_dec, pyNat_dec] at h
  | noteOff ch num val =>
    have h := Written.noteOff hgap (dec_numeral ch) (dec_numeral num) (dec_numeral val)
    rwa [pyNat_dec, pyNat_dec, pyNat_dec] at h
  | pitchbend ch val =>
    have h := Written.pitchbend hgap (dec_numeral ch) (decSigned_numeral val)
    rwa [pyNat_dec, pySignedNat_decSigned] at h
  | program ch num =>
    have h := Written.program hgap (dec_numeral ch) (dec_numeral num)
    rwa [pyNat_dec, pyNat_dec] at h

/-! ## `cal-quick.sh` on a line -/

/-- Without a character there is no match that begins with it. -/
def Free (c : Char) (s : List Char) : Prop := ∀ d ∈ s, d ≠ c

theorem Margin.free {s : List Char} (h : Margin s) {c : Char} (hc : c.isAlpha) : Free c s := by
  rintro d hd rfl
  have hno := h d hd
  rw [hc] at hno
  exact absurd hno (by decide)

theorem Low.free {s : List Char} (h : Low s) {c : Char} (hc : c.isUpper) : Free c s := by
  rintro d hd rfl
  have hno := h d hd
  rw [hc] at hno
  exact absurd hno (by decide)

theorem Free.append {c : Char} {s t : List Char} (hs : Free c s) (ht : Free c t) :
    Free c (s ++ t) := List.forall_mem_append.mpr ⟨hs, ht⟩

section

variable {word : String} {as : List (Pattern Char)} {c : Char} {u s : List Char}

theorem cat_lit_rejects_ne (hword : word.toList.head? = some c) :
    (Pattern.cat (lit word :: as)).Rejects fun d => decide (d ≠ c) :=
  cat_lit_rejects (fun d hd => by simpa using (Option.some.inj (hd.symm.trans hword)))
    (fun hnil => by simp [hnil] at hword)

/-- What does not have the first character of a pattern is passed over. -/
theorem findAll_free (hword : word.toList.head? = some c) (hu : Free c u) :
    (Pattern.cat (lit word :: as)).findAll (u ++ s) = (Pattern.cat (lit word :: as)).findAll s :=
  Pattern.findAll_append (cat_lit_rejects_ne hword) fun d hd => decide_eq_true (hu d hd)

theorem findAll_free_nil (hword : word.toList.head? = some c) (hu : Free c u) :
    (Pattern.cat (lit word :: as)).findAll u = [] :=
  Pattern.findAll_none (cat_lit_rejects_ne hword) fun d hd => decide_eq_true (hu d hd)

/-- So is that character where the word is another one. -/
theorem findAll_other (hword : word.toList.head? = some c) (hu : Free c u)
    (hne : ¬ word.toList <+: c :: s) : (Pattern.cat (lit word :: as)).findAll (u ++ c :: s) =
      (Pattern.cat (lit word :: as)).findAll s := by
  rw [findAll_free hword hu, Pattern.findAll_skip (run_cat_lit hne)]

end

theorem best_nil (s : List Char) : Pattern.Best (.text []) s ([], s) :=
  ⟨[], Pattern.run_text_append [] s, fun _ hy => absurd hy List.not_mem_nil⟩

theorem label_ends {label : String} {t : List Char} (h : label.toList = ',' :: t) (s : List Char) :
    Ends (label.toList ++ s) := by
  intro c hc
  rw [h] at hc
  rw [← Option.some.inj hc]
  decide

/-- A number, a label, and a number at the end of a pattern. -/
theorem best_two {label : String} {t : List Char} (hlabel : label.toList = ',' :: t)
    {a b s : List Char} (ha : Numeral a) (hb : Numeral b) (hs : Ends s) :
    Pattern.Best (.seq digits (.seq (lit label) (.seq digits (.text []))))
      (a ++ (label.toList ++ (b ++ s))) ([a, b], s) := by
  have hrejects : (Pattern.seq (lit label) (.seq digits (.text []))).Rejects Char.isDigit := by
    rw [lit, hlabel]
    exact Pattern.rejects_text (by decide) _ _
  have hlast := best_digits (best_nil s) hs (.inl rfl) hb
  exact best_digits (best_label hlast label) (label_ends hlabel _) (.inr hrejects) ha

/-- Two texts with a label between them, before another text. -/
theorem append_labelled (u a v b s : List Char) :
    (u ++ (a ++ (v ++ b))) ++ s = u ++ (a ++ (v ++ (b ++ s))) := by
  simp only [List.append_assoc]

/-- The text of a pair. -/
def pairText (b c : List Char) : List Char :=
  "controller ".toList ++ (b ++ (", value ".toList ++ c))

theorem pairText_ne_nil (b c : List Char) : pairText b c ≠ [] := by
  intro hnil
  have hword : "controller ".toList = [] := (List.append_eq_nil_iff.mp hnil).1
  exact absurd hword (by simp)

theorem best_rePair {b c s : List Char} (hb : Numeral b) (hc : Numeral c) (hs : Ends s) :
    Pattern.Best rePair (pairText b c ++ s) ([b, c], s) := by
  have hlabel : ", value ".toList = ',' :: [' ', 'v', 'a', 'l', 'u', 'e', ' '] := rfl
  have htext : pairText b c ++ s = "controller ".toList ++ (b ++ (", value ".toList ++ (c ++ s))) :=
    append_labelled _ _ _ _ _
  rw [htext]
  exact best_label (best_two hlabel hb hc hs) "controller "

/-- `sed` and `awk` take the numbers from it. -/
theorem awkPair_sedPair {b c : List Char} (hb : Numeral b) (hc : Numeral c) :
    awkPair (sedPair (pairText b c)) = (pyNat b, pyNat c) := by
  have hbest := best_rePair hb hc (s := []) fun d hd => absurd hd (by simp)
  rw [List.append_nil] at hbest
  have hblank {a : List Char} (ha : Numeral a) : ∀ d ∈ a, decide (d = ' ') = false := by
    intro d hd
    rw [decide_eq_false_iff_not]
    rintro rfl
    exact absurd (ha.digit ' ' hd) (by decide)
  have hsed : sedPair (pairText b c) = b ++ ' ' :: c := by
    rw [sedPair, hbest.subst]
    simp
  have hfields : awkFields (b ++ ' ' :: c) = [b, c] := by
    rw [awkFields, List.splitOnP_append_cons_of_forall_mem (hblank hb) ' ' (by decide),
      List.splitOnP_eq_singleton (hblank hc)]
    simp [hb.ne_nil, hc.ne_nil]
  rw [hsed, awkPair, hfields]
  rfl

section

variable {pre post : List Char} {gap : ℕ}

theorem not_controller {w : List Char} (h : w.head? ≠ some 'o') :
    ¬ "controller ".toList <+: 'c' :: w := by
  rintro ⟨t, ht⟩
  have htail := (List.cons_eq_cons.mp ht).2
  exact h (by rw [← htail]; rfl)

/-- A line in which the only `c` begins another word. -/
theorem findAll_rePair_nil {u w : List Char} (hu : Free 'c' u) (hw : Free 'c' w)
    (hne : w.head? ≠ some 'o') : rePair.findAll (u ++ 'c' :: w) = [] := by
  have hhead : "controller ".toList.head? = some 'c' := rfl
  exact (findAll_other hhead hu (not_controller hne)).trans (findAll_free_nil hhead hw)

/-- The line of an event, cut in its word and its first label. -/
theorem record_split {word l v : String} {w w' l₁ l₂ gap a b c : List Char}
    (hword : word.toList = w ++ w') (hlabel : l.toList = l₁ ++ l₂) :
    pre ++ (recordText word gap a [(l, b), (v, c)] ++ post) =
      (pre ++ w) ++ (w' ++ (gap ++ (a ++ l₁)) ++ ((l₂ ++ (b ++ (v.toList ++ c))) ++ post)) := by
  simp only [recordText, fieldsText, List.flatMap_cons, List.flatMap_nil, hword, hlabel,
    List.append_assoc, List.append_nil]

theorem findAll_rePair_cc (hpre : Margin pre) (hpost : Margin post) (hends : Ends post)
    (ch num val : ℕ) : rePair.findAll (pre ++ (printed gap (.cc ch num val) ++ post)) =
      [pairText (dec num) (dec val)] := by
  have hword : "Control change".toList =
    ['C', 'o', 'n', 't', 'r', 'o', 'l', ' '] ++ ['c', 'h', 'a', 'n', 'g', 'e'] := rfl
  have hlabel : ", controller ".toList = [',', ' '] ++ "controller ".toList := rfl
  have hhead : "controller ".toList.head? = some 'c' := rfl
  have hc : 'c'.isAlpha := rfl
  have hgap := (blank_replicate gap).margin.free hc
  have hch := (dec_numeral ch).margin.free hc
  have hfirst : Free 'c' (pre ++ ['C', 'o', 'n', 't', 'r', 'o', 'l', ' ']) :=
    (hpre.free hc).append (by simp [Free])
  have hsecond : Free 'c' (['h', 'a', 'n', 'g', 'e'] ++
      (List.replicate (gap + 1) ' ' ++ (dec ch ++ [',', ' ']))) :=
    Free.append (by simp [Free]) (hgap.append (hch.append (by simp [Free])))
  have hbest := best_rePair (dec_numeral num) (dec_numeral val) hends
  calc rePair.findAll (pre ++ (printed gap (.cc ch num val) ++ post))
      = rePair.findAll ((['h', 'a', 'n', 'g', 'e'] ++
          (List.replicate (gap + 1) ' ' ++ (dec ch ++ [',', ' ']))) ++
            (pairText (dec num) (dec val) ++ post)) := by
        rw [printed, record_split hword hlabel]
        exact findAll_other hhead hfirst (not_controller (by simp))
    _ = rePair.findAll (pairText (dec num) (dec val) ++ post) := findAll_free hhead hsecond
    _ = [pairText (dec num) (dec val)] := by
        rw [hbest.findAll (pairText_ne_nil _ _)]
        exact congrArg _ (findAll_free_nil hhead (hpost.free hc))

/-- The line of an event, cut in its word. -/
theorem word_split {word l : String} {w w' gap a b : List Char} {c : Char}
    (hword : word.toList = w ++ c :: w') :
    pre ++ (recordText word gap a [(l, b)] ++ post) =
      (pre ++ w) ++ c :: (w' ++ (gap ++ (a ++ (l.toList ++ (b ++ post))))) := by
  simp only [recordText, fieldsText, List.flatMap_cons, List.flatMap_nil, hword, List.append_assoc,
    List.append_nil, List.cons_append]

/-- The same, cut in its second label. -/
theorem label_split {word l v : String} {v₁ v₂ gap a b d : List Char} {c : Char}
    (hlabel : v.toList = v₁ ++ c :: v₂) :
    pre ++ (recordText word gap a [(l, b), (v, d)] ++ post) =
      (pre ++ (word.toList ++ (gap ++ (a ++ (l.toList ++ (b ++ v₁)))))) ++
        c :: (v₂ ++ (d ++ post)) := by
  simp only [recordText, fieldsText, List.flatMap_cons, List.flatMap_nil, hlabel, List.append_assoc,
    List.append_nil, List.cons_append]

/-- The line of a note has no pair: its only `c` is in `velocity`. -/
theorem findAll_rePair_note {word : String} {a b c : List Char} (hword : Free 'c' word.toList)
    (hpre : Margin pre) (hpost : Margin post) (ha : Numeral a) (hb : Numeral b) (hc : Numeral c) :
    rePair.findAll (pre ++ (recordText word (List.replicate (gap + 1) ' ') a
      [(", note ", b), (", velocity ", c)] ++ post)) = [] := by
  have hlabel : ", velocity ".toList =
    [',', ' ', 'v', 'e', 'l', 'o'] ++ 'c' :: ['i', 't', 'y', ' '] := rfl
  have hc' : 'c'.isAlpha := rfl
  have hnote : Free 'c' (", note ".toList) := by simp [Free]
  have hfirst : Free 'c' (pre ++ (word.toList ++ (List.replicate (gap + 1) ' ' ++ (a ++
      (", note ".toList ++ (b ++ [',', ' ', 'v', 'e', 'l', 'o'])))))) :=
    (hpre.free hc').append (hword.append (((blank_replicate gap).margin.free hc').append
      ((ha.margin.free hc').append (hnote.append ((hb.margin.free hc').append (by simp [Free]))))))
  have hsecond : Free 'c' (['i', 't', 'y', ' '] ++ (c ++ post)) :=
    Free.append (by simp [Free]) ((hc.margin.free hc').append (hpost.free hc'))
  rw [label_split hlabel]
  exact findAll_rePair_nil hfirst hsecond (by simp)

/-- Nor has a line whose only `c` is in its word. -/
theorem findAll_rePair_word {word l : String} {w w' a b : List Char}
    (hword : word.toList = w ++ 'c' :: 'h' :: w') (hw : Free 'c' w) (hw' : Free 'c' w')
    (hl : Free 'c' l.toList) (hpre : Margin pre) (hpost : Margin post) (ha : Numeral a)
    (hb : Margin b) : rePair.findAll (pre ++ (recordText word (List.replicate (gap + 1) ' ') a
      [(l, b)] ++ post)) = [] := by
  have hc : 'c'.isAlpha := rfl
  have hsecond : Free 'c' ('h' :: w' ++ (List.replicate (gap + 1) ' ' ++ (a ++ (l.toList ++
      (b ++ post))))) :=
    Free.append (List.forall_mem_cons.mpr ⟨by decide, hw'⟩)
      (((blank_replicate gap).margin.free hc).append ((ha.margin.free hc).append
        (hl.append ((hb.free hc).append (hpost.free hc)))))
  rw [word_split hword]
  exact findAll_rePair_nil ((hpre.free hc).append hw) hsecond (by simp)

/-- The lines of other events have no pairs. -/
theorem findAll_rePair_other (hpre : Margin pre) (hpost : Margin post) {e : MidiEvent}
    (h : ccPair e = none) : rePair.findAll (pre ++ (printed gap e ++ post)) = [] := by
  cases e with
  | cc ch num val => exact absurd h (by simp [ccPair])
  | noteOn ch num val | noteOff ch num val =>
    exact findAll_rePair_note (by simp [Free]) hpre hpost (dec_numeral ch) (dec_numeral num)
      (dec_numeral val)
  | pitchbend ch val =>
    have hword : "Pitchbend".toList = ['P', 'i', 't'] ++ 'c' :: 'h' :: ['b', 'e', 'n', 'd'] := rfl
    exact findAll_rePair_word hword (by simp [Free]) (by simp [Free]) (by simp [Free]) hpre hpost
      (dec_numeral ch) (decSigned_numeral val).margin
  | program ch num =>
    have hword : "Program change".toList =
      ['P', 'r', 'o', 'g', 'r', 'a', 'm', ' '] ++ 'c' :: 'h' :: ['a', 'n', 'g', 'e'] := rfl
    exact findAll_rePair_word hword (by simp [Free]) (by simp [Free]) (by simp [Free]) hpre hpost
      (dec_numeral ch) (dec_numeral num).margin

/-- The text of a note up to its number. -/
def noteText (w : String) (gap : ℕ) (a b : List Char) : List Char :=
  "Note ".toList ++ (w.toList ++ (List.replicate (gap + 1) ' ' ++ (a ++ (", note ".toList ++ b))))

theorem noteText_append (w : String) (gap : ℕ) (a b s : List Char) :
    noteText w gap a b ++ s = "Note ".toList ++ (w.toList ++ (List.replicate (gap + 1) ' ' ++
      (a ++ (", note ".toList ++ (b ++ s))))) := by
  unfold noteText
  simp only [List.append_assoc]

theorem best_reNote {w : String} (hw : w = "on" ∨ w = "off") {a b s : List Char} (ha : Numeral a)
    (hb : Numeral b) (hs : Ends s) : Pattern.Best reNote (noteText w gap a b ++ s) ([a, b], s) := by
  have hlabel : ", note ".toList = ',' :: [' ', 'n', 'o', 't', 'e', ' '] := rfl
  have hno : ∀ c : Char, c.isDigit → ¬ decide (c = ' ') := by
    intro c hc heq
    rw [of_decide_eq_true heq] at hc
    exact absurd hc (by decide)
  have hspan : Pattern.Span (fun c => decide (c = ' ')) (List.replicate (gap + 1) ' ')
      (a ++ (", note ".toList ++ (b ++ s))) :=
    ⟨fun c hc => decide_eq_true (List.eq_of_mem_replicate hc), ha.ends hno⟩
  have hgap := (best_two hlabel ha hb hs).of_run_eq
    (Pattern.run_class_seq hspan (by simp) (digits_rejects hno _))
  rw [noteText_append]
  rcases hw with rfl | rfl
  · exact best_label (hgap.of_run_eq (Pattern.run_alt_left (by simp))) "Note "
  · exact best_label (hgap.of_run_eq (Pattern.run_alt_right (by simp))) "Note "

/-- The note in it. -/
theorem findAll_noteText {w : String} (hw : w = "on" ∨ w = "off") {a b : List Char}
    (ha : Numeral a) (hb : Numeral b) :
    reNoteNumber.findAll (noteText w gap a b) = ["note ".toList ++ b] := by
  have hhead : "note ".toList.head? = some 'n' := rfl
  have hword : "Note ".toList = ['N', 'o', 't', 'e', ' '] := rfl
  have hlabel : ", note ".toList = [',', ' '] ++ "note ".toList := rfl
  have hn : 'n'.isAlpha := rfl
  have hfree : Free 'n' (List.replicate (gap + 1) ' ' ++ (a ++ [',', ' '])) :=
    ((blank_replicate gap).margin.free hn).append ((ha.margin.free hn).append (by simp [Free]))
  have hne : "note ".toList ++ b ≠ [] := fun hnil =>
    absurd (List.append_eq_nil_iff.mp hnil).1 (by simp)
  have hlast : reNoteNumber.findAll ("note ".toList ++ b) = ["note ".toList ++ b] := by
    have hbest : Pattern.Best reNoteNumber (("note ".toList ++ b) ++ []) ([b], []) := by
      rw [List.append_assoc]
      exact best_label (best_digits (best_nil []) (fun c hc => absurd hc (by simp)) (.inl rfl) hb)
        "note "
    have hall := hbest.findAll hne
    rw [List.append_nil, Pattern.findAll] at hall
    exact hall
  have hskip : reNoteNumber.findAll ((List.replicate (gap + 1) ' ' ++ (a ++ [',', ' '])) ++
      ("note ".toList ++ b)) = ["note ".toList ++ b] := (findAll_free hhead hfree).trans hlast
  rcases hw with rfl | rfl
  · have htext : noteText "on" gap a b = ['N', 'o', 't', 'e', ' ', 'o'] ++ 'n' ::
        ((List.replicate (gap + 1) ' ' ++ (a ++ [',', ' '])) ++ ("note ".toList ++ b)) := by
      unfold noteText
      rw [hword, hlabel, show "on".toList = ['o', 'n'] from rfl]
      simp only [List.append_assoc, List.cons_append, List.nil_append]
    rw [htext]
    exact (findAll_other hhead (by simp [Free]) (by simp [List.replicate_succ])).trans hskip
  · have htext : noteText "off" gap a b = ['N', 'o', 't', 'e', ' ', 'o', 'f', 'f'] ++
        ((List.replicate (gap + 1) ' ' ++ (a ++ [',', ' '])) ++ ("note ".toList ++ b)) := by
      unfold noteText
      rw [hword, hlabel, show "off".toList = ['o', 'f', 'f'] from rfl]
      simp only [List.append_assoc, List.cons_append, List.nil_append]
    rw [htext]
    exact (findAll_free hhead (by simp [Free])).trans hskip

/-- The line of a note, cut behind its number. -/
theorem findAll_reNote_note {word w : String} (hw : w = "on" ∨ w = "off")
    (hword : word.toList = "Note ".toList ++ w.toList) (hpre : Margin pre) (hpost : Margin post)
    {a b c : List Char} (ha : Numeral a) (hb : Numeral b) (hc : Numeral c) :
    reNote.findAll (pre ++ (recordText word (List.replicate (gap + 1) ' ') a
      [(", note ", b), (", velocity ", c)] ++ post)) = [noteText w gap a b] := by
  have hhead : "Note ".toList.head? = some 'N' := rfl
  have hN : 'N'.isAlpha := rfl
  have hline : pre ++ (recordText word (List.replicate (gap + 1) ' ') a
      [(", note ", b), (", velocity ", c)] ++ post) =
      pre ++ (noteText w gap a b ++ (", velocity ".toList ++ (c ++ post))) := by
    unfold noteText
    simp only [recordText, fieldsText, List.flatMap_cons, List.flatMap_nil, hword,
      List.append_assoc, List.append_nil]
  have hends : Ends (", velocity ".toList ++ (c ++ post)) :=
    label_ends (t := [' ', 'v', 'e', 'l', 'o', 'c', 'i', 't', 'y', ' ']) rfl _
  have hne : noteText w gap a b ≠ [] := fun hnil =>
    absurd (List.append_eq_nil_iff.mp hnil).1 (by simp)
  have hrest : Free 'N' (", velocity ".toList ++ (c ++ post)) :=
    Free.append (by simp [Free]) ((hc.margin.free hN).append (hpost.free hN))
  rw [hline]
  calc reNote.findAll (pre ++ (noteText w gap a b ++ (", velocity ".toList ++ (c ++ post))))
      = reNote.findAll (noteText w gap a b ++ (", velocity ".toList ++ (c ++ post))) :=
        findAll_free hhead (hpre.free hN)
    _ = [noteText w gap a b] := by
        rw [(best_reNote hw ha hb hends).findAll hne]
        exact congrArg _ (findAll_free_nil hhead hrest)

/-- In the lines of other events there is no note. -/
theorem findAll_reNote_other (hpre : Margin pre) (hpost : Margin post) {e : MidiEvent}
    (h : noteNumber e = none) : reNote.findAll (pre ++ (printed gap e ++ post)) = [] := by
  have hhead : "Note ".toList.head? = some 'N' := rfl
  obtain ⟨u, hu, hlow⟩ := (written_printed gap e).eq_word
  have hword : Free 'N' e.word.toList := by
    cases e with
    | cc _ _ _ | pitchbend _ _ | program _ _ => simp [Free, MidiEvent.word]
    | noteOn _ _ _ | noteOff _ _ _ => exact absurd h (by simp [noteNumber])
  have hline : Free 'N' (pre ++ (printed gap e ++ post)) := by
    rw [hu]
    exact (hpre.free rfl).append ((hword.append (hlow.free rfl)).append (hpost.free rfl))
  exact findAll_free_nil hhead hline

end

/-! ## The two tools -/

/-- A pattern finds nothing in a line without its word. -/
theorem spells_cat_lit {word : String} {as : List (Pattern Char)} {t : List Char}
    {cs : List (List Char)} (h : (Pattern.cat (lit word :: as)).Spells t cs) :
    word.toList <+: t := by
  obtain ⟨x, y, rfl, _, ⟨hx, _⟩, _⟩ := h
  rw [hx]
  exact List.prefix_append word.toList y.1

theorem search_absent {word : String} {as : List (Pattern Char)} {line : List Char}
    (h : ¬ word.toList <:+: line) : (Pattern.cat (lit word :: as)).search line = none :=
  Pattern.search_eq_none fun _ _ ht hspells => h ((spells_cat_lit hspells).isInfix.trans ht)

theorem findAll_absent {word : String} {as : List (Pattern Char)} {line : List Char}
    (h : ¬ word.toList <:+: line) : (Pattern.cat (lit word :: as)).findAll line = [] :=
  Pattern.findAll_eq_nil fun _ _ ht hspells => h ((spells_cat_lit hspells).isInfix.trans ht)

/-- A text without line feeds in a line lies before the end of the line. -/
theorem infix_concat {t s : List Char} {c : Char} (h : t <:+: s ++ [c]) (hc : c ∉ t) :
    t <:+: s := by
  obtain ⟨u, v, hv⟩ := h
  induction v using List.reverseRecOn with
  | nil =>
    rw [List.append_nil] at hv
    rcases List.eq_nil_or_concat t with rfl | ⟨w, d, rfl⟩
    · exact List.nil_infix
    · rw [List.concat_eq_append, ← List.append_assoc] at hv
      obtain ⟨_, heq⟩ := List.append_inj' hv rfl
      exact absurd (by simp [List.singleton_inj.mp heq]) hc
  | append_singleton v d _ =>
    rw [← List.append_assoc] at hv
    exact ⟨u, v, (List.append_inj' hv rfl).1⟩

/-- A line as Python reads it. -/
def AsciiLine.feed (line : AsciiLine) : AsciiLine where
  chars := line.chars ++ ['\n']
  ascii := List.forall_mem_append.mpr ⟨line.ascii, by simp⟩
  short a ha hdigit :=
    line.short a (infix_concat ha fun hfeed => absurd (hdigit _ hfeed) (by decide)) hdigit

/-- What the tools make of one line. -/
theorem LogLine.reads {line : AsciiLine} {e : Option MidiEvent} (h : LogLine line.chars e) :
    parse line.feed = e ∧
    ((rePair.findAll line.chars).map sedPair).map awkPair = (e.bind ccPair).toList ∧
    (reNote.findAll line.chars).flatMap reNoteNumber.findAll =
      ((e.bind noteNumber).map fun n => "note ".toList ++ dec n).toList := by
  have hfeed : line.feed.chars = line.chars ++ ['\n'] := rfl
  revert hfeed
  generalize line.feed = fed
  generalize line.chars = s at h ⊢
  intro hfeed
  cases h with
  | @event pre post gap e hrange hpre hpost hends =>
    refine ⟨?_, ?_, ?_⟩
    · have hlow : Low (post ++ ['\n']) := hpost.low.append (by simp [Low])
      have hlast : Ends (post ++ ['\n']) := by
        cases post with
        | nil => exact fun c hc => by rw [← Option.some.inj hc]; decide
        | cons d post => exact hends
      rw [List.append_assoc, List.append_assoc] at hfeed
      exact parse_written hfeed (written_printed gap e) hpre.low hlow hlast
    · rcases hcc : ccPair e with _ | p
      · rw [findAll_rePair_other hpre hpost hcc, Option.bind_some, hcc]
        rfl
      · cases e with
        | cc ch num val =>
          rw [findAll_rePair_cc hpre hpost hends, List.map_singleton, List.map_singleton,
            awkPair_sedPair (dec_numeral num) (dec_numeral val), pyNat_dec, pyNat_dec]
          rfl
        | noteOn _ _ _ | noteOff _ _ _ | pitchbend _ _ | program _ _ =>
          exact absurd hcc (by simp [ccPair])
    · rcases hnote : noteNumber e with _ | n
      · rw [findAll_reNote_other hpre hpost hnote, Option.bind_some, hnote]
        rfl
      · cases e with
        | noteOn ch num val =>
          have hline : reNote.findAll (pre ++ (printed gap (.noteOn ch num val) ++ post)) =
              [noteText "on" gap (dec ch) (dec num)] :=
            findAll_reNote_note (.inl rfl) rfl hpre hpost (dec_numeral ch) (dec_numeral num)
              (dec_numeral val)
          rw [hline, List.flatMap_singleton,
            findAll_noteText (.inl rfl) (dec_numeral ch) (dec_numeral num)]
          rfl
        | noteOff ch num val =>
          have hline : reNote.findAll (pre ++ (printed gap (.noteOff ch num val) ++ post)) =
              [noteText "off" gap (dec ch) (dec num)] :=
            findAll_reNote_note (.inr rfl) rfl hpre hpost (dec_numeral ch) (dec_numeral num)
              (dec_numeral val)
          rw [hline, List.flatMap_singleton,
            findAll_noteText (.inr rfl) (dec_numeral ch) (dec_numeral num)]
          rfl
        | cc _ _ _ | pitchbend _ _ | program _ _ => exact absurd hnote (by simp [noteNumber])
  | other h =>
    have habsent {word : String} (hmem : word ∈ ["Control change", "Note ", "Pitchbend",
        "Program change", "controller "]) (hno : '\n' ∉ word.toList) :
        ¬ word.toList <:+: s ++ ['\n'] := fun hin => h word hmem (infix_concat hin hno)
    have hnote {word : String} (hword : "Note ".toList <+: word.toList) :
        ¬ word.toList <:+: s ++ ['\n'] := by
      have hstem : ¬ "Note ".toList <:+: s ++ ['\n'] := habsent (by simp) (by simp)
      exact fun hin => hstem (hword.isInfix.trans hin)
    refine ⟨?_, ?_, ?_⟩
    · rw [parse, hfeed, reCc, recordRe, search_absent (habsent (by simp) (by simp)), reOn, recordRe,
        search_absent (hnote (by simp)), reOff, recordRe, search_absent (hnote (by simp)), rePb,
        search_absent (habsent (by simp) (by simp)), rePgm, recordRe,
        search_absent (habsent (by simp) (by simp))]
      rfl
    · rw [rePair, findAll_absent (h "controller " (by simp))]
      rfl
    · rw [reNote, findAll_absent (h "Note " (by simp))]
      rfl

/-- The lines of a log as Python reads them, and the events in them. -/
def eventsOf (log : List AsciiLine) : List MidiEvent :=
  (log.map AsciiLine.feed).filterMap parse

/-- What the tools make of a log. -/
theorem reads_log {log : List AsciiLine} {evs : List (Option MidiEvent)}
    (h : List.Forall₂ (fun line => LogLine line.chars) log evs) : eventsOf log = evs.reduceOption ∧
      pairsOf log = evs.reduceOption.filterMap ccPair ∧
      noteTexts log = (evs.reduceOption.filterMap noteNumber).map fun n =>
        "note ".toList ++ dec n := by
  induction h with
  | nil => exact ⟨rfl, rfl, rfl⟩
  | @cons line e log evs hline _ ih =>
    obtain ⟨hparse, hpairs, hnotes⟩ := hline.reads
    obtain ⟨hevents, hpairs', hnotes'⟩ := ih
    have heventsOf : eventsOf (line :: log) = (parse line.feed).toList ++ eventsOf log := by
      rw [eventsOf, List.map_cons, List.filterMap_cons]
      cases parse line.feed <;> rfl
    have hpairsOf : pairsOf (line :: log) =
        ((rePair.findAll line.chars).map sedPair).map awkPair ++ pairsOf log := by
      simp only [pairsOf, List.flatMap_cons, List.map_append]
    have hnoteTexts : noteTexts (line :: log) =
        (reNote.findAll line.chars).flatMap reNoteNumber.findAll ++ noteTexts log := by
      simp only [noteTexts, List.flatMap_cons, List.flatMap_append]
    rw [heventsOf, hpairsOf, hnoteTexts, hparse, hpairs, hnotes, hevents, hpairs', hnotes']
    cases e with
    | none => exact ⟨rfl, rfl, rfl⟩
    | some e =>
      rw [List.reduceOption_cons_of_some, List.filterMap_cons, List.filterMap_cons]
      refine ⟨rfl, ?_, ?_⟩
      · cases hcc : ccPair e <;> simp [hcc]
      · cases hnote : noteNumber e <;> simp [hnote]

/-- The readings of a controller are the same in both tools. -/
theorem readings_pairs {ch : ℕ} {events : List MidiEvent}
    (h : ∀ c n v, MidiEvent.cc c n v ∈ events → c = ch) (cc : ℕ) :
    readings (events.map MidiEvent.reading) ⟨.cc, ch, some cc⟩ =
      readings ((events.filterMap ccPair).map reading) cc := by
  induction events using List.reverseRecOn with
  | nil => rfl
  | append_singleton events e ih =>
    have hevents : ∀ c n v, MidiEvent.cc c n v ∈ events → c = ch := fun c n v hmem =>
      h c n v (List.mem_append_left _ hmem)
    rw [List.map_append, List.map_singleton, readings_append, ih hevents, List.filterMap_append,
      List.map_append]
    cases e with
    | cc c n v =>
      obtain rfl := h c n v (by simp)
      have hread : reading (n, v) = (n, some (v : ℤ)) := rfl
      rw [show [MidiEvent.cc c n v].filterMap ccPair = [(n, v)] from rfl, List.map_singleton,
        readings_append, hread]
      simp [MidiEvent.reading, MidiEvent.key, MidiEvent.value]
    | noteOn _ _ _ | noteOff _ _ _ | pitchbend _ _ | program _ _ =>
      rw [List.filterMap_cons_none rfl, List.filterMap_nil, List.map_nil, List.append_nil]
      simp [MidiEvent.reading, MidiEvent.key]

/-- The entry of a key in an aggregate. -/
theorem find_aggregate (events : List MidiEvent) (k : Key) :
    (aggregate events).find? (fun a => a.toKey = k) =
      if k ∈ events.map MidiEvent.key then some (entryOf (events.map MidiEvent.reading) k)
      else none := by
  rw [aggregate_eq, List.find?_map]
  change ((firsts (events.map MidiEvent.key)).find? fun k' => k' = k).map _ = _
  rcases hfind : (firsts (events.map MidiEvent.key)).find? fun k' => k' = k with _ | x
  · have hnone : k ∉ events.map MidiEvent.key := fun hk =>
      List.find?_eq_none.mp hfind k (mem_firsts.mpr hk) (by simp)
    rw [if_neg hnone]
    rfl
  · have hx := List.find?_some hfind
    obtain rfl : x = k := of_decide_eq_true hx
    rw [if_pos (mem_firsts.mp (List.mem_of_find?_eq_some hfind))]
    rfl

/-- **One log, two tools.** Of a log of printed events among other lines, `calibrate.py` and
    `cal-quick.sh` read all events and the pairs and notes among them, in order. If the
    control changes come on one channel, the arrays of `awk` are the entries of
    `aggregate`: a controller has the same count, smallest, greatest and last value in
    both, or no message in either. -/
theorem logs_agree {log : List AsciiLine} {evs : List (Option MidiEvent)}
    (h : List.Forall₂ (fun line => LogLine line.chars) log evs) :
    eventsOf log = evs.reduceOption ∧ pairsOf log = (eventsOf log).filterMap ccPair ∧
    noteTexts log = ((eventsOf log).filterMap noteNumber).map (fun n =>
      "note ".toList ++ dec n) ∧
    ∀ ch, (∀ c n v, MidiEvent.cc c n v ∈ eventsOf log → c = ch) → ∀ cc,
      (aggregate (eventsOf log)).find? (fun a => a.toKey = ⟨.cc, ch, some cc⟩) =
        let a := (pairsOf log).foldl awkStep Awk.empty
        (a.cnt cc).map fun count => ⟨⟨.cc, ch, some cc⟩, count, a.mn cc, a.mx cc, a.last cc⟩ := by
  obtain ⟨hevents, hpairs, hnotes⟩ := reads_log h
  rw [hevents, hpairs, hnotes]
  refine ⟨rfl, rfl, rfl, ?_⟩
  intro ch hch cc
  have hread := readings_pairs hch cc
  have hvalues : values (evs.reduceOption.map MidiEvent.reading) ⟨.cc, ch, some cc⟩ =
      values ((evs.reduceOption.filterMap ccPair).map reading) cc := by
    rw [values, hread, values]
  have hcount : (⟨.cc, ch, some cc⟩ : Key) ∈ evs.reduceOption.map MidiEvent.key ↔
      countOf (evs.reduceOption.filterMap ccPair) cc ≠ 0 := by
    rw [countOf, ← hread, length_readings, keys_readings, ← Nat.pos_iff_ne_zero,
      List.count_pos_iff]
  rw [find_aggregate, foldl_awkStep]
  by_cases hnone : countOf (evs.reduceOption.filterMap ccPair) cc = 0
  · rw [if_neg fun hk => hcount.mp hk hnone]
    simp [hnone]
  · rw [if_pos (hcount.mpr hnone), entryOf, hread, hvalues]
    simp only [if_neg hnone, Option.map_some]
    rfl

/-- A heading, a fader and a button. -/
def shortLog : List AsciiLine :=
  [.ofLength "Source  Event                  Ch  Data".toList (by simp) (by simp),
    .ofLength " 24:0   Control change          0, controller 21, value 64".toList (by simp)
      (by simp),
    .ofLength " 24:0   Note on                 0, note 47, velocity 127".toList (by simp) (by simp)]

theorem logs_agree_shortLog :
    eventsOf shortLog = [.cc 0 21 64, .noteOn 0 47 127] ∧ pairsOf shortLog = [(21, 64)] ∧
    noteTexts shortLog = ["note 47".toList] ∧
    (aggregate (eventsOf shortLog)).find? (fun a => a.toKey = ⟨.cc, 0, some 21⟩) =
      some ⟨⟨.cc, 0, some 21⟩, 1, some 64, some 64, some 64⟩ := by
  have hmargin : Margin " 24:0   ".toList := by simp [Margin]
  have hends : Ends [] := fun c hc => absurd hc (by simp)
  have hnil : Margin [] := fun c hc => absurd hc List.not_mem_nil
  have hlog : List.Forall₂ (fun line => LogLine line.chars) shortLog
      [none, some (.cc 0 21 64), some (.noteOn 0 47 127)] :=
    .cons (.other (by decide))
      (.cons (.event 9 (.cc 0 21 64) ⟨by decide, by decide, by decide⟩ hmargin hnil hends)
        (.cons (.event 16 (.noteOn 0 47 127) ⟨by decide, by decide, by decide⟩ hmargin hnil hends)
          .nil))
  obtain ⟨hevents, hpairs, hnotes, hall⟩ := logs_agree hlog
  have hevents : eventsOf shortLog = [.cc 0 21 64, .noteOn 0 47 127] := hevents
  rw [hevents] at hpairs hnotes hall ⊢
  have hpairs : pairsOf shortLog = [(21, 64)] := hpairs
  have hfader := hall 0 (by simp +contextual) 21
  rw [hpairs] at hfader
  exact ⟨rfl, hpairs, hnotes, hfader⟩

end DjmT1.Tools
