import Mathlib

/-!
# JSON documents

A JSON document is the list of its tokens. `Json.tokens` writes a value, and
`Json.parse` reads it back with a stack of the arrays and objects it is in.

* `parse_tokens`: a written value is read back.
* `lookup_dict_entries`: so is a dictionary that is written as an object.
* `lookup_dict_of_nodup`: in an object whose members have different names, each is found.
-/

namespace DjmT1.Lib

/-- A JSON value. A number is kept as it is written, an object as its members in the
    order in which they are written. -/
inductive Json
  | null
  | bool (b : Bool)
  | num (literal : String)
  | str (s : String)
  | arr (xs : List Json)
  | obj (ms : List (String × Json))

namespace Json

inductive Token
  | lbrace | rbrace | lbracket | rbracket | colon | comma
  | null
  | bool (b : Bool)
  | num (literal : String)
  | str (s : String)
  deriving DecidableEq

/-! ## Writing -/

mutual

/-- The tokens of a value. -/
def tokens : Json → List Token
  | .null => [.null]
  | .bool b => [.bool b]
  | .num n => [.num n]
  | .str s => [.str s]
  | .arr [] => [.lbracket, .rbracket]
  | .arr (x :: xs) => .lbracket :: (tokens x ++ elements xs)
  | .obj [] => [.lbrace, .rbrace]
  | .obj ((k, v) :: ms) => .lbrace :: .str k :: .colon :: (tokens v ++ members ms)

/-- The elements of an array from the second on, and its end. -/
def elements : List Json → List Token
  | [] => [.rbracket]
  | x :: xs => .comma :: (tokens x ++ elements xs)

/-- The members of an object from the second on, and its end. -/
def members : List (String × Json) → List Token
  | [] => [.rbrace]
  | (k, v) :: ms => .comma :: .str k :: .colon :: (tokens v ++ members ms)

end

/-! ## Reading -/

/-- An array or an object that has been read in part. -/
inductive Frame
  | arr (xs : List Json)
  /-- `k` is the name of the member that is being read -/
  | obj (ms : List (String × Json)) (k : String)

/-- What may follow; `st` is what has been read in part. -/
inductive State
  /-- a value -/
  | value (st : List Frame)
  /-- a value, or `]` -/
  | first (st : List Frame)
  /-- the name of a member, or `}` -/
  | firstKey (st : List Frame)
  /-- the name of a member -/
  | key (ms : List (String × Json)) (st : List Frame)
  /-- `:` -/
  | colon (ms : List (String × Json)) (k : String) (st : List Frame)
  /-- what may follow the value `v` -/
  | after (v : Json) (st : List Frame)

/-- A token where a value may begin. -/
def begin (st : List Frame) : Token → Option State
  | .null => some (.after .null st)
  | .bool b => some (.after (.bool b) st)
  | .num n => some (.after (.num n) st)
  | .str s => some (.after (.str s) st)
  | .lbracket => some (.first st)
  | .lbrace => some (.firstKey st)
  | .rbrace | .rbracket | .colon | .comma => none

def step : State → Token → Option State
  | .value st, t => begin st t
  | .first st, .rbracket => some (.after (.arr []) st)
  | .first st, t => begin (.arr [] :: st) t
  | .firstKey st, .rbrace => some (.after (.obj []) st)
  | .firstKey st, .str k => some (.colon [] k st)
  | .key ms st, .str k => some (.colon ms k st)
  | .colon ms k st, .colon => some (.value (.obj ms k :: st))
  | .after v (.arr xs :: st), .comma => some (.value (.arr (xs ++ [v]) :: st))
  | .after v (.arr xs :: st), .rbracket => some (.after (.arr (xs ++ [v])) st)
  | .after v (.obj ms k :: st), .comma => some (.key (ms ++ [(k, v)]) st)
  | .after v (.obj ms k :: st), .rbrace => some (.after (.obj (ms ++ [(k, v)])) st)
  | _, _ => none

/-- The value that has been read when the document ends. -/
def State.result : State → Option Json
  | .after v [] => some v
  | _ => none

/-- Read a document. -/
def parse (ts : List Token) : Option Json := (ts.foldlM step (.value [])).bind State.result

/-! ## A value is read back -/

/-- A value does not begin with `]`, so it may be the first element of an array. -/
theorem foldlM_first (j : Json) (st : List Frame) (ts : List Token) :
    (j.tokens ++ ts).foldlM step (.first st) =
      (j.tokens ++ ts).foldlM step (.value (.arr [] :: st)) := by
  cases j with
  | null | bool | num | str => rfl
  | arr xs => cases xs <;> rfl
  | obj ms =>
    cases ms with
    | nil => rfl
    | cons m ms => rfl

/-- The rest of an array, if each of its elements is read back. -/
theorem foldlM_elements (ys : List Json)
    (h : ∀ y ∈ ys, ∀ st, y.tokens.foldlM step (.value st) = some (.after y st)) (v : Json)
    (xs : List Json) (st : List Frame) :
    (elements ys).foldlM step (.after v (.arr xs :: st)) =
      some (.after (.arr (xs ++ v :: ys)) st) := by
  induction ys generalizing v xs with
  | nil => rfl
  | cons y ys ih =>
    rw [elements, List.foldlM_cons, step, Option.bind_eq_bind, Option.bind_some,
      List.foldlM_append, h y List.mem_cons_self, Option.bind_eq_bind, Option.bind_some,
      ih fun z hz => h z (List.mem_cons_of_mem y hz)]
    simp

/-- The rest of an object, if the value of each of its members is read back. -/
theorem foldlM_members (ms : List (String × Json))
    (h : ∀ m ∈ ms, ∀ st, m.2.tokens.foldlM step (.value st) = some (.after m.2 st)) (v : Json)
    (k : String) (ns : List (String × Json)) (st : List Frame) :
    (members ms).foldlM step (.after v (.obj ns k :: st)) =
      some (.after (.obj (ns ++ (k, v) :: ms)) st) := by
  induction ms generalizing v k ns with
  | nil => rfl
  | cons m ms ih =>
    obtain ⟨k', v'⟩ := m
    rw [members, List.foldlM_cons, step, Option.bind_eq_bind, Option.bind_some,
      List.foldlM_cons, step, Option.bind_eq_bind, Option.bind_some,
      List.foldlM_cons, step, Option.bind_eq_bind, Option.bind_some,
      List.foldlM_append, h (k', v') List.mem_cons_self, Option.bind_eq_bind, Option.bind_some,
      ih fun n hn => h n (List.mem_cons_of_mem _ hn)]
    simp

/-- Where a value may stand, a written value is read back. -/
theorem foldlM_value : (j : Json) → ∀ st,
    j.tokens.foldlM step (.value st) = some (.after j st)
  | .null, _ | .bool _, _ | .num _, _ | .str _, _ => rfl
  | .arr [], _ | .obj [], _ => rfl
  | .arr (x :: xs), st => by
    have hxs : ∀ y ∈ xs, ∀ st, y.tokens.foldlM step (.value st) = some (.after y st) :=
      fun y hy st => foldlM_value y st
    rw [tokens, List.foldlM_cons, step, begin, Option.bind_eq_bind, Option.bind_some, foldlM_first,
      List.foldlM_append, foldlM_value x, Option.bind_eq_bind, Option.bind_some,
      foldlM_elements xs hxs]
    rfl
  | .obj ((k, v) :: ms), st => by
    have hms : ∀ m ∈ ms, ∀ st, m.2.tokens.foldlM step (.value st) = some (.after m.2 st) :=
      fun m hm st => foldlM_value m.2 st
    rw [tokens, List.foldlM_cons, step, begin, Option.bind_eq_bind, Option.bind_some,
      List.foldlM_cons, step, Option.bind_eq_bind, Option.bind_some,
      List.foldlM_cons, step, Option.bind_eq_bind, Option.bind_some,
      List.foldlM_append, foldlM_value v, Option.bind_eq_bind, Option.bind_some,
      foldlM_members ms hms]
    rfl
termination_by j => sizeOf j
decreasing_by
  · have := List.sizeOf_lt_of_mem hy
    simp only [arr.sizeOf_spec, List.cons.sizeOf_spec]
    omega
  · simp only [arr.sizeOf_spec, List.cons.sizeOf_spec]
    omega
  · have := List.sizeOf_lt_of_mem hm
    have : sizeOf m = 1 + sizeOf m.1 + sizeOf m.2 := Prod.mk.sizeOf_spec m.1 m.2
    simp only [obj.sizeOf_spec, List.cons.sizeOf_spec]
    omega
  · simp only [obj.sizeOf_spec, List.cons.sizeOf_spec, Prod.mk.sizeOf_spec]
    omega

theorem parse_tokens (j : Json) : parse j.tokens = some j := by
  rw [parse, foldlM_value]
  rfl

/-! ## Objects as dictionaries -/

/-- A dictionary with the names of members as its keys. The order in which it keeps its
    keys means nothing. -/
abbrev Dict : Type := AList fun _ : String => Json

/-- The dictionary of an object: of several members of one name the last one counts. -/
def dict (ms : List (String × Json)) : Dict := ms.foldl (fun d m => d.insert m.1 m.2) ∅

/-- The object of a dictionary. -/
def ofDict (d : Dict) : Json := .obj (d.entries.map fun e => (e.1, e.2))

theorem lookup_foldl_insert (l : List (Sigma fun _ : String => Json)) (hl : l.NodupKeys) (d : Dict)
    (k : String) :
    ((l.map fun e => (e.1, e.2)).foldl (fun d m => d.insert m.1 m.2) d).lookup k =
      (l.dlookup k).or (d.lookup k) := by
  induction l generalizing d with
  | nil => rfl
  | cons e l ih =>
    obtain ⟨hnot, hl⟩ := List.nodupKeys_cons.mp hl
    rw [List.map_cons, List.foldl_cons, ih hl]
    by_cases hk : k = e.1
    · subst hk
      rw [List.dlookup_eq_none.mpr hnot, Option.none_or, AList.lookup_insert,
        List.dlookup_cons_eq, Option.some_or]
    · rw [AList.lookup_insert_ne hk, List.dlookup_cons_ne l e hk]

/-- A dictionary that has been written as an object is read back. -/
theorem lookup_dict_entries (d : Dict) (k : String) :
    (dict (d.entries.map fun e => (e.1, e.2))).lookup k = d.lookup k := by
  rw [dict, lookup_foldl_insert d.entries d.nodupKeys, AList.lookup_empty, Option.or_none]
  rfl

/-- Of members with different names, the one of a given name. -/
theorem lookup_dict_of_nodup {ms : List (String × Json)} (h : (ms.map Prod.fst).Nodup)
    (k : String) : (dict ms).lookup k = ms.lookup k := by
  obtain ⟨l, hl⟩ : ∃ l : List (Sigma fun _ : String => Json),
      l = ms.map fun m => ⟨m.1, m.2⟩ := ⟨_, rfl⟩
  have hms : ms = l.map fun e => (e.1, e.2) := by simp [hl, Function.comp_def]
  have hnodup : l.NodupKeys := by
    rw [hl, List.NodupKeys, List.keys, List.map_map]
    exact h
  have hlookup : l.dlookup k = ms.lookup k := by
    rw [hl]
    clear hl hms hnodup h
    induction ms with
    | nil => rfl
    | cons m ms ih =>
      rw [List.map_cons]
      by_cases hk : k = m.1
      · subst hk
        rw [List.dlookup_cons_eq, List.lookup_cons, beq_self_eq_true]
      · rw [List.dlookup_cons_ne _ _ hk, ih, List.lookup_cons, beq_false_of_ne hk]
  rw [dict]
  nth_rewrite 1 [hms]
  rw [lookup_foldl_insert l hnodup, AList.lookup_empty, Option.or_none, hlookup]

/-! ## Numbers, texts and members -/

def ofNat (n : ℕ) : Json := .num n.repr

def ofInt (n : ℤ) : Json := .num n.repr

/-- A number or `null`. -/
def ofIntOption (n : Option ℤ) : Json := n.elim .null ofInt

def toNat : Json → Option ℕ
  | .num literal => literal.toNat?
  | _ => none

def toInt : Json → Option ℤ
  | .num literal => literal.toInt?
  | _ => none

def toIntOption : Json → Option (Option ℤ)
  | .null => some none
  | j => j.toInt.map some

def toBool : Json → Option Bool
  | .bool b => some b
  | _ => none

def toText : Json → Option String
  | .str s => some s
  | _ => none

def toList : Json → Option (List Json)
  | .arr xs => some xs
  | _ => none

/-- The member of an object. -/
def member (j : Json) (k : String) : Option Json :=
  match j with
  | .obj ms => (dict ms).lookup k
  | _ => none

@[simp] theorem toNat_ofNat (n : ℕ) : (ofNat n).toNat = some n := Nat.toNat?_repr n

@[simp] theorem toInt_ofInt (n : ℤ) : (ofInt n).toInt = some n := Int.toInt?_repr n

@[simp] theorem toIntOption_ofIntOption (n : Option ℤ) :
    (ofIntOption n).toIntOption = some n := by
  cases n with
  | none => rfl
  | some n => exact congrArg (Option.map some) (toInt_ofInt n)

/-- An array is read back element by element. -/
theorem mapM_map_eq_some {α : Type} {f : α → Json} {g : Json → Option α}
    (h : ∀ x, g (f x) = some x) (l : List α) : (l.map f).mapM g = some l := by
  induction l with
  | nil => rfl
  | cons x l ih =>
    rw [List.map_cons, List.mapM_cons, h, ih]
    rfl

/-- A member that is left out if it has no value. -/
def optional {α : Type} (k : String) (f : α → Json) (x : Option α) : List (String × Json) :=
  (x.map fun x => (k, f x)).toList

theorem lookup_optional {α : Type} (k : String) (f : α → Json) (x : Option α) (k' : String) :
    (optional k f x).lookup k' = if k' = k then x.map f else none := by
  cases x with
  | none => simp [optional]
  | some x =>
    by_cases h : k' = k
    · simp [optional, h]
    · simp [optional, List.lookup_cons, h, beq_false_of_ne h]

theorem optional_keys_sublist {α : Type} (k : String) (f : α → Json) (x : Option α) :
    ((optional k f x).map Prod.fst).Sublist [k] := by
  cases x with
  | none => exact List.nil_sublist _
  | some x => exact List.Sublist.refl _

end Json

end DjmT1.Lib
