import Mathlib

/-!
# Patterns

Regular expressions with captures, as far as repeated parts are single characters of a
class. `run` lists the matches at the front of a text in the order in which a backtracking
matcher tries them; `Spells` says what a pattern matches.

* `mem_run`: a match of `run` is a text that the pattern spells.
* `run_class_seq`, `run_group_seq`: a class followed by something that cannot begin with it
  takes all it can.
* `search_append`: a prefix in which the pattern cannot begin is passed over.
* `search_sound`, `search_eq_none`: where a match lies, and when there is none.
-/

namespace DjmT1.Lib

/-- `one p` is a character of a class, `many p` any number of them, as many as possible,
    and a `group` is captured. -/
inductive Pattern (α : Type*)
  | text (t : List α)
  | one (p : α → Bool)
  | many (p : α → Bool)
  | seq (a b : Pattern α)
  | alt (a b : Pattern α)
  | group (a : Pattern α)

namespace Pattern

variable {α : Type*}

/-- What `many p` may leave of a text. -/
def rests (p : α → Bool) : List α → List (List α)
  | [] => [[]]
  | c :: s => (if p c then rests p s else []) ++ [c :: s]

section

variable [DecidableEq α]

/-- The matches at the front of a text, each with its captures and the text behind it, in
    the order of preference. -/
def run : Pattern α → List α → List (List (List α) × List α)
  | text t, s => if t <+: s then [([], s.drop t.length)] else []
  | one _, [] => []
  | one p, c :: s => if p c then [([], s)] else []
  | many p, s => (rests p s).map fun rest => ([], rest)
  | seq a b, s => (a.run s).flatMap fun x => (b.run x.2).map fun y => (x.1 ++ y.1, y.2)
  | alt a b, s => a.run s ++ b.run s
  | group a, s => (a.run s).map fun x => (s.take (s.length - x.2.length) :: x.1, x.2)

/-- One pattern after the other. -/
def cat (as : List (Pattern α)) : Pattern α := as.foldr seq (text [])

/-- A character of a class, or several. -/
def many1 (p : α → Bool) : Pattern α := seq (one p) (many p)

/-- The leftmost match of a backtracking matcher: what is captured, and what lies behind. -/
def search (a : Pattern α) : List α → Option (List (List α) × List α)
  | [] => (a.run []).head?
  | c :: s => (a.run (c :: s)).head?.or (a.search s)

end

/-! ## What a pattern matches -/

/-- The text `t` is a match, with the captures `cs`. -/
def Spells : Pattern α → List α → List (List α) → Prop
  | text u, t, cs => t = u ∧ cs = []
  | one p, t, cs => (∃ c, p c ∧ t = [c]) ∧ cs = []
  | many p, t, cs => (∀ c ∈ t, p c) ∧ cs = []
  | seq a b, t, cs => ∃ x y : List α × List (List α), t = x.1 ++ y.1 ∧ cs = x.2 ++ y.2 ∧
      a.Spells x.1 x.2 ∧ b.Spells y.1 y.2
  | alt a b, t, cs => a.Spells t cs ∨ b.Spells t cs
  | group a, t, cs => ∃ inner, cs = t :: inner ∧ a.Spells t inner

theorem spells_many1 {p : α → Bool} {t : List α} {cs : List (List α)}
    (h : (many1 p).Spells t cs) : t ≠ [] ∧ (∀ c ∈ t, p c) ∧ cs = [] := by
  obtain ⟨x, y, rfl, rfl, ⟨⟨c, hc, hx⟩, hxs⟩, hy, hys⟩ := h
  rw [hx, hxs, hys]
  exact ⟨List.cons_ne_nil c y.1, List.forall_mem_cons.mpr ⟨hc, hy⟩, rfl⟩

theorem mem_rests {p : α → Bool} {s rest : List α} :
    rest ∈ rests p s ↔ ∃ t, s = t ++ rest ∧ ∀ c ∈ t, p c := by
  induction s with
  | nil =>
    rw [rests, List.mem_singleton]
    constructor
    · rintro rfl
      exact ⟨[], rfl, fun c hc => absurd hc List.not_mem_nil⟩
    · rintro ⟨t, ht, _⟩
      exact (List.append_eq_nil_iff.mp ht.symm).2
  | cons c s ih =>
    rw [rests, List.mem_append, List.mem_singleton]
    constructor
    · rintro (hmem | rfl)
      · split_ifs at hmem with hc
        · obtain ⟨t, rfl, ht⟩ := ih.mp hmem
          exact ⟨c :: t, rfl, List.forall_mem_cons.mpr ⟨hc, ht⟩⟩
        · exact absurd hmem List.not_mem_nil
      · exact ⟨[], rfl, fun c hc => absurd hc List.not_mem_nil⟩
    · rintro ⟨t, ht, hall⟩
      cases t with
      | nil => exact .inr ht.symm
      | cons d t =>
        obtain ⟨rfl, rfl⟩ := List.cons_eq_cons.mp ht
        obtain ⟨hc, hall⟩ := List.forall_mem_cons.mp hall
        rw [if_pos hc]
        exact .inl (ih.mpr ⟨t, rfl, hall⟩)

variable [DecidableEq α]

/-- The matcher finds what the pattern matches. -/
theorem mem_run {a : Pattern α} {s : List α} {x : List (List α) × List α} :
    x ∈ a.run s ↔ ∃ t, s = t ++ x.2 ∧ a.Spells t x.1 := by
  induction a generalizing s x with
  | text u =>
    rw [run]
    constructor
    · intro hx
      split_ifs at hx with hpre
      · obtain ⟨rest, rfl⟩ := hpre
        rw [List.mem_singleton.mp hx, List.drop_left]
        exact ⟨u, rfl, rfl, rfl⟩
      · exact absurd hx List.not_mem_nil
    · rintro ⟨t, rfl, rfl, hcs⟩
      rw [if_pos (List.prefix_append _ _), List.drop_left, List.mem_singleton]
      exact Prod.ext hcs rfl
  | one p =>
    cases s with
    | nil =>
      rw [run]
      refine iff_of_false List.not_mem_nil ?_
      rintro ⟨t, ht, ⟨c, _, rfl⟩, _⟩
      exact absurd ht (by simp)
    | cons c s =>
      rw [run]
      constructor
      · intro hx
        split_ifs at hx with hc
        · rw [List.mem_singleton.mp hx]
          exact ⟨[c], rfl, ⟨c, hc, rfl⟩, rfl⟩
        · exact absurd hx List.not_mem_nil
      · rintro ⟨t, ht, ⟨d, hd, rfl⟩, hcs⟩
        obtain ⟨rfl, rfl⟩ := List.cons_eq_cons.mp ht
        rw [if_pos hd, List.mem_singleton]
        exact Prod.ext hcs rfl
  | many p =>
    rw [run, List.mem_map]
    constructor
    · rintro ⟨rest, hrest, rfl⟩
      obtain ⟨t, ht, hall⟩ := mem_rests.mp hrest
      exact ⟨t, ht, hall, rfl⟩
    · rintro ⟨t, ht, hall, hcs⟩
      exact ⟨x.2, mem_rests.mpr ⟨t, ht, hall⟩, Prod.ext hcs.symm rfl⟩
  | seq a b iha ihb =>
    rw [run, List.mem_flatMap]
    constructor
    · rintro ⟨y, hy, hx⟩
      obtain ⟨z, hz, rfl⟩ := List.mem_map.mp hx
      obtain ⟨t, rfl, hta⟩ := iha.mp hy
      obtain ⟨u, hu, hub⟩ := ihb.mp hz
      exact ⟨t ++ u, by rw [hu, List.append_assoc], (t, y.1), (u, z.1), rfl, rfl, hta, hub⟩
    · rintro ⟨t, rfl, y, z, rfl, hcs, hy, hz⟩
      refine ⟨(y.2, z.1 ++ x.2), iha.mpr ⟨y.1, by rw [List.append_assoc], hy⟩, ?_⟩
      exact List.mem_map.mpr ⟨(z.2, x.2), ihb.mpr ⟨z.1, rfl, hz⟩, Prod.ext hcs.symm rfl⟩
  | alt a b iha ihb =>
    rw [run, List.mem_append, iha, ihb, ← exists_or]
    refine exists_congr fun t => ?_
    rw [Spells, and_or_left]
  | group a iha =>
    rw [run, List.mem_map]
    constructor
    · rintro ⟨y, hy, rfl⟩
      obtain ⟨t, rfl, ht⟩ := iha.mp hy
      exact ⟨t, rfl, y.1, by simp, ht⟩
    · rintro ⟨t, rfl, inner, hcs, ht⟩
      refine ⟨(inner, x.2), iha.mpr ⟨t, rfl, ht⟩, ?_⟩
      exact Prod.ext (by simp [hcs]) rfl

/-! ## The preferred match -/

/-- The first match is also the longest one. -/
def Best (a : Pattern α) (s : List α) (x : List (List α) × List α) : Prop :=
  ∃ more, a.run s = x :: more ∧ ∀ y ∈ more, x.2.length < y.2.length

/-- The pattern cannot begin with a character of the class. -/
def Rejects (a : Pattern α) (p : α → Bool) : Prop := ∀ c s, p c → a.run (c :: s) = []

/-- A text of the class `p`, and no more of it behind. -/
structure Span (p : α → Bool) (t s : List α) : Prop where
  all : ∀ c ∈ t, p c
  stop : ∀ c, s.head? = some c → ¬ p c

omit [DecidableEq α] in
theorem rests_stop {p : α → Bool} {s : List α} (h : ∀ c, s.head? = some c → ¬ p c) :
    rests p s = [s] := by
  cases s with
  | nil => rfl
  | cons c s => rw [rests, if_neg (h c rfl), List.nil_append]

omit [DecidableEq α] in
theorem Span.tail {p : α → Bool} {c : α} {t s : List α} (h : Span p (c :: t) s) : Span p t s :=
  ⟨fun d hd => h.all d (List.mem_cons_of_mem c hd), h.stop⟩

omit [DecidableEq α] in
/-- Of what `many p` may leave, all but the end of the span begins with the class. -/
theorem rests_span {p : α → Bool} {t s : List α} (h : Span p t s) :
    ∃ more, rests p (t ++ s) = s :: more ∧
      ∀ r ∈ more, s.length < r.length ∧ ∃ c u, r = c :: u ∧ p c := by
  induction t with
  | nil => exact ⟨[], rests_stop h.stop, fun r hr => absurd hr List.not_mem_nil⟩
  | cons c t ih =>
    have hc : p c := h.all c List.mem_cons_self
    obtain ⟨more, hrests, hmore⟩ := ih h.tail
    refine ⟨more ++ [c :: (t ++ s)], ?_, ?_⟩
    · rw [List.cons_append, rests, if_pos hc, hrests, List.cons_append]
    · intro r hr
      rcases List.mem_append.mp hr with hr | hr
      · exact hmore r hr
      · rw [List.mem_singleton.mp hr]
        refine ⟨?_, c, t ++ s, rfl, hc⟩
        rw [List.length_cons, List.length_append]
        omega

omit [DecidableEq α] in
/-- What fails wherever the class begins is tried at the end of the span only. -/
theorem flatMap_rests {β : Type*} {p : α → Bool} {t s : List α} (h : Span p t s)
    {f : List α → List β} (hf : ∀ c u, p c → f (c :: u) = []) :
    (rests p (t ++ s)).flatMap f = f s := by
  obtain ⟨more, hrests, hmore⟩ := rests_span h
  have hnone : more.flatMap f = [] := by
    rw [List.flatMap_eq_nil_iff]
    intro r hr
    obtain ⟨_, c, u, rfl, hc⟩ := hmore r hr
    exact hf c u hc
  rw [hrests, List.flatMap_cons, hnone, List.append_nil]

theorem run_text_append (t s : List α) : (text t).run (t ++ s) = [([], s)] := by
  rw [run, if_pos (List.prefix_append t s), List.drop_left]

/-- A text at the front. -/
theorem run_text_seq (t : List α) (b : Pattern α) (s : List α) :
    (seq (text t) b).run (t ++ s) = b.run s := by
  simp [run]

theorem rejects_text {c : α} {p : α → Bool} (h : ¬ p c) (t : List α) (b : Pattern α) :
    (seq (text (c :: t)) b).Rejects p := by
  intro d s hd
  have hne : ¬ (c :: t) <+: (d :: s) := by
    rintro ⟨u, hu⟩
    obtain ⟨rfl, _⟩ := List.cons_eq_cons.mp hu
    exact h hd
  rw [run, run, if_neg hne, List.flatMap_nil]

theorem run_many1_nil {p : α → Bool} {c : α} (h : ¬ p c) (s : List α) :
    (many1 p).run (c :: s) = [] := by
  rw [many1, run, run, if_neg h, List.flatMap_nil]

/-- A character that may be missing: it is there, or it is not. -/
theorem run_opt {c : α} {b : Pattern α} {s : List α} (h : b.run (c :: s) = []) :
    (seq (alt (text [c]) (text [])) b).run (c :: s) = b.run s := by
  simp [run, h]

theorem run_opt_skip {c d : α} {b : Pattern α} {s : List α} (h : d ≠ c) :
    (seq (alt (text [c]) (text [])) b).run (d :: s) = b.run (d :: s) := by
  have hne : ¬ c = d := fun heq => h heq.symm
  simp [run, List.cons_prefix_cons, hne]

/-- One of two texts. -/
theorem run_alt_left {u v s : List α} {b : Pattern α} (h : ¬ v <+: u ++ s) :
    (seq (alt (text u) (text v)) b).run (u ++ s) = b.run s := by
  simp [run, h]

theorem run_alt_right {u v s : List α} {b : Pattern α} (h : ¬ u <+: v ++ s) :
    (seq (alt (text u) (text v)) b).run (v ++ s) = b.run s := by
  simp [run, h]

theorem run_seq_assoc (a b c : Pattern α) (s : List α) :
    (seq (seq a b) c).run s = (seq a (seq b c)).run s := by
  simp only [run, List.flatMap_assoc, List.flatMap_map, List.map_flatMap, List.map_map,
    List.append_assoc, Function.comp_def]

/-- A class of which the rest cannot have any takes all of it. -/
theorem run_class_seq {p : α → Bool} {t s : List α} (h : Span p t s) (ht : t ≠ []) {b : Pattern α}
    (hb : b.Rejects p) : (seq (many1 p) b).run (t ++ s) = b.run s := by
  obtain ⟨c, t, rfl⟩ := List.exists_cons_of_ne_nil ht
  have hc : p c := h.all c List.mem_cons_self
  have hmany : (seq (many p) b).run (t ++ s) = b.run s := by
    simp only [run, List.flatMap_map, List.nil_append, Prod.mk.eta, List.map_id']
    exact flatMap_rests h.tail hb
  rw [many1, run_seq_assoc, run, List.cons_append, run, if_pos hc, List.flatMap_singleton, hmany]
  simp

/-- The same, captured. -/
theorem run_group_seq {p : α → Bool} {t s : List α} (h : Span p t s) (ht : t ≠ []) {b : Pattern α}
    (hb : b.Rejects p) :
    (seq (group (many1 p)) b).run (t ++ s) = (b.run s).map fun y => (t :: y.1, y.2) := by
  obtain ⟨c, t, rfl⟩ := List.exists_cons_of_ne_nil ht
  have hc : p c := h.all c List.mem_cons_self
  have hmany : (many1 p).run (c :: (t ++ s)) = (rests p (t ++ s)).map fun r => ([], r) := by
    simp [many1, run, hc]
  have hcapture : (c :: (t ++ s)).take ((c :: (t ++ s)).length - s.length) = c :: t := by
    rw [← List.cons_append, List.length_append, Nat.add_sub_cancel, List.take_left]
  simp only [run, List.cons_append, hmany, List.map_map, List.flatMap_map, Function.comp_def]
  rw [flatMap_rests h.tail fun d u hd => by rw [hb d u hd, List.map_nil], hcapture]
  rfl

section

variable {a b : Pattern α} {s : List α} {x : List (List α) × List α}

theorem Best.of_run_eq (h : Best b s x) {s' : List α} (heq : a.run s' = b.run s) : Best a s' x := by
  obtain ⟨more, hrun, hmore⟩ := h
  exact ⟨more, heq.trans hrun, hmore⟩

/-- A class at the end of a pattern takes all it can. -/
theorem best_class {p : α → Bool} {t s : List α} (h : Span p t s) (ht : t ≠ []) :
    Best (many1 p) (t ++ s) ([], s) := by
  obtain ⟨c, t, rfl⟩ := List.exists_cons_of_ne_nil ht
  have hc : p c := h.all c List.mem_cons_self
  obtain ⟨more, hrests, hmore⟩ := rests_span h.tail
  refine ⟨more.map fun r => ([], r), ?_, ?_⟩
  · simp [many1, run, hc, hrests]
  · intro y hy
    obtain ⟨r, hr, rfl⟩ := List.mem_map.mp hy
    exact (hmore r hr).1

theorem Best.group (h : Best a s x) :
    Best (group a) s (s.take (s.length - x.2.length) :: x.1, x.2) := by
  obtain ⟨more, hrun, hmore⟩ := h
  refine ⟨_, by rw [run, hrun, List.map_cons], ?_⟩
  intro y hy
  obtain ⟨z, hz, rfl⟩ := List.mem_map.mp hy
  exact hmore z hz

/-- The end of a pattern. -/
theorem Best.last (h : Best a s x) : Best (seq a (text [])) s x := by
  have hrun : (seq a (text [])).run s = a.run s := by
    simp [run]
  exact h.of_run_eq hrun

theorem Best.group_seq {p : α → Bool} {t : List α} (h : Best b s x) (hspan : Span p t s)
    (ht : t ≠ []) (hb : b.Rejects p) :
    Best (seq (Pattern.group (many1 p)) b) (t ++ s) (t :: x.1, x.2) := by
  obtain ⟨more, hrun, hmore⟩ := h
  refine ⟨_, by rw [run_group_seq hspan ht hb, hrun, List.map_cons], ?_⟩
  intro y hy
  obtain ⟨z, hz, rfl⟩ := List.mem_map.mp hy
  exact hmore z hz

/-! ## Searching -/

theorem Best.search (h : Best a s x) : a.search s = some x := by
  obtain ⟨more, hrun, _⟩ := h
  cases s with
  | nil => rw [Pattern.search, hrun, List.head?_cons]
  | cons c s => rw [Pattern.search, hrun, List.head?_cons, Option.some_or]

theorem search_skip {c : α} (h : a.run (c :: s) = []) : a.search (c :: s) = a.search s := by
  rw [search, h, List.head?_nil, Option.none_or]

/-- A prefix in which the pattern cannot begin is passed over. -/
theorem search_append {p : α → Bool} (h : a.Rejects p) {pre : List α} (hpre : ∀ c ∈ pre, p c) :
    a.search (pre ++ s) = a.search s := by
  induction pre with
  | nil => rfl
  | cons c pre ih =>
    obtain ⟨hc, hpre⟩ := List.forall_mem_cons.mp hpre
    rw [List.cons_append, search_skip (h c _ hc), ih hpre]

/-- What is found lies somewhere in the text. -/
theorem search_sound (h : a.search s = some x) : ∃ pre t, s = pre ++ t ++ x.2 ∧ a.Spells t x.1 := by
  induction s with
  | nil =>
    obtain ⟨t, ht, hspells⟩ := mem_run.mp (List.mem_of_head? h)
    exact ⟨[], t, ht, hspells⟩
  | cons c s ih =>
    rw [search, Option.or_eq_some_iff] at h
    rcases h with h | ⟨_, h⟩
    · obtain ⟨t, ht, hspells⟩ := mem_run.mp (List.mem_of_head? h)
      exact ⟨[], t, ht, hspells⟩
    · obtain ⟨pre, t, rfl, hspells⟩ := ih h
      exact ⟨c :: pre, t, rfl, hspells⟩

/-- Nothing is found if no part of the text is a match. -/
theorem search_eq_none (h : ∀ t cs, t <:+: s → ¬ a.Spells t cs) : a.search s = none := by
  rw [Option.eq_none_iff_forall_ne_some]
  intro x hx
  obtain ⟨pre, t, rfl, hspells⟩ := search_sound hx
  exact h t x.1 (List.infix_append pre t x.2) hspells

end

/-- The longest match at the front of a text. -/
def longest (a : Pattern α) (s : List α) : Option (List (List α) × List α) :=
  (a.run s).argmin fun x => x.2.length

/-- The matches in a text from left to right, each as long as possible (`grep -o`). -/
def findAll (a : Pattern α) : List α → List (List α)
  | [] => []
  | c :: s =>
    match a.longest (c :: s) with
    | some x =>
      if x.2.length ≤ s.length then
        (c :: s).take ((c :: s).length - x.2.length) :: findAll a x.2
      else findAll a s
    | none => findAll a s
termination_by s => s.length

/-- The leftmost longest match is replaced by a text made from its captures (`sed s///`). -/
def subst (a : Pattern α) (f : List (List α) → List α) : List α → List α
  | [] => ((a.longest []).map fun x => f x.1 ++ x.2).getD []
  | c :: s => ((a.longest (c :: s)).map fun x => f x.1 ++ x.2).getD (c :: subst a f s)

section

variable {a : Pattern α} {s : List α} {x : List (List α) × List α}

theorem Best.longest (h : Best a s x) : a.longest s = some x := by
  obtain ⟨more, hrun, hmore⟩ := h
  rw [Pattern.longest, hrun, List.argmin_eq_some_iff]
  refine ⟨List.mem_cons_self, ?_, ?_⟩
  · intro y hy
    rcases List.mem_cons.mp hy with rfl | hy
    · exact le_rfl
    · exact (hmore y hy).le
  · intro y _ _
    simp

theorem longest_eq_none (h : a.run s = []) : a.longest s = none := by
  rw [longest, h, List.argmin_nil]

theorem findAll_skip {c : α} (h : a.run (c :: s) = []) : a.findAll (c :: s) = a.findAll s := by
  rw [findAll, longest_eq_none h]

theorem findAll_append {p : α → Bool} (h : a.Rejects p) {pre : List α} (hpre : ∀ c ∈ pre, p c) :
    a.findAll (pre ++ s) = a.findAll s := by
  induction pre with
  | nil => rfl
  | cons c pre ih =>
    obtain ⟨hc, hpre⟩ := List.forall_mem_cons.mp hpre
    rw [List.cons_append, findAll_skip (h c _ hc), ih hpre]

theorem findAll_none {p : α → Bool} (h : a.Rejects p) (hs : ∀ c ∈ s, p c) : a.findAll s = [] := by
  rw [← List.append_nil s, findAll_append h hs, findAll]

/-- A match that is not empty. -/
theorem Best.findAll {t : List α} {cs : List (List α)} (h : Best a (t ++ s) (cs, s)) (ht : t ≠ []) :
    a.findAll (t ++ s) = t :: a.findAll s := by
  obtain ⟨c, t, rfl⟩ := List.exists_cons_of_ne_nil ht
  have hmatched : (c :: (t ++ s)).take ((c :: (t ++ s)).length - s.length) = c :: t := by
    rw [← List.cons_append, List.length_append, Nat.add_sub_cancel, List.take_left]
  rw [List.cons_append] at h ⊢
  rw [Pattern.findAll, h.longest]
  simp only
  rw [if_pos (by rw [List.length_append]; omega), hmatched]

theorem findAll_eq_nil (h : ∀ t cs, t <:+: s → ¬ a.Spells t cs) : a.findAll s = [] := by
  induction s with
  | nil => rw [findAll]
  | cons c s ih =>
    have hnone : a.run (c :: s) = [] := by
      rw [List.eq_nil_iff_forall_not_mem]
      intro x hx
      obtain ⟨t, ht, hspells⟩ := mem_run.mp hx
      exact h t x.1 (ht ▸ (List.prefix_append t x.2).isInfix) hspells
    rw [findAll_skip hnone, ih fun t cs ht => h t cs (ht.trans (List.suffix_cons c s).isInfix)]

theorem Best.subst (h : Best a s x) (f : List (List α) → List α) : a.subst f s = f x.1 ++ x.2 := by
  cases s with
  | nil => rw [Pattern.subst, h.longest, Option.map_some, Option.getD_some]
  | cons c s => rw [Pattern.subst, h.longest, Option.map_some, Option.getD_some]

end

end Pattern

end DjmT1.Lib
