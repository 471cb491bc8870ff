import DjmT1.Midi.Outbound

/-!
# The Mixxx mapping

`Pioneer-DJM-T1.midi.xml` binds the messages of the mixer to controls of Mixxx, six of
them through the functions of `Pioneer-DJM-T1-scripts.js`, and the PFL controls to the
LEDs of the CUE buttons. A push of a button is a Note-On 0x7F and then a Note-On 0x00.

* `bound_eq`: no message is bound to two controls.
* `input_settings`, `input_toggled`: one message, seen from the control of a toggling
  button.
* `toggles_follow_pushes`: whatever the mixer sends, in whatever packets and transfers, the
  script sets each control once for each push of its own button.
* `drains_spec`: what the calls of `drain_seq_input` write, one after the other.
* `led_shows_pfl`: however pushes and changes inside Mixxx alternate, the last packet
  written to the mixer for a CUE button's LED says what its PFL control is, unless ALSA
  has lost events.
-/

namespace DjmT1.Midi

open DjmT1.Lib

namespace Mixxx

/-! ## The mapping -/

/-- The groups that the mapping names: `[Channel1]`, `[Channel2]`, their equalizer racks,
    `[Master]` and `[Library]`. -/
inductive Group
  | channel1
  | channel2
  | eq1
  | eq2
  | master
  | library
  deriving DecidableEq, Repr

/-- The keys. -/
inductive Key
  | pregain
  | parameter1
  | parameter2
  | parameter3
  | volume
  | crossfader
  | moveVertical
  | goToItem
  | loadSelectedTrack
  | cueDefault
  | pfl
  | play
  | syncEnabled
  deriving DecidableEq, Repr

/-- The functions of the script that are bound to controls. -/
inductive Script
  | togglePFL
  | togglePlay
  | toggleSync
  deriving DecidableEq, Repr

/-- What a message does, by the `<options>` of its control. -/
inductive Binding
  | normal (key : Key)
  | selectknob (key : Key)
  | scriptBinding (f : Script)
  deriving DecidableEq, Repr

/-- A `<control>`. -/
structure Control where
  group : Group
  binding : Binding
  status : Byte
  midino : Byte
  deriving DecidableEq

/-- An `<output>`. There is no `<maximum>`, which is 1 then. -/
structure Output where
  group : Group
  key : Key
  status : Byte
  midino : Byte
  on : Byte
  off : Byte
  minimum : ℚ
  deriving DecidableEq

/-- `<controls>` (lines 12-214). -/
def controls : List Control :=
  [⟨.channel1, .normal .pregain, 0xB0, 0x0D⟩,
    ⟨.eq1, .normal .parameter3, 0xB0, 0x0F⟩,
    ⟨.eq1, .normal .parameter2, 0xB0, 0x11⟩,
    ⟨.eq1, .normal .parameter1, 0xB0, 0x13⟩,
    ⟨.channel1, .normal .volume, 0xB0, 0x15⟩,
    ⟨.channel2, .normal .pregain, 0xB0, 0x0E⟩,
    ⟨.eq2, .normal .parameter3, 0xB0, 0x10⟩,
    ⟨.eq2, .normal .parameter2, 0xB0, 0x12⟩,
    ⟨.eq2, .normal .parameter1, 0xB0, 0x14⟩,
    ⟨.channel2, .normal .volume, 0xB0, 0x16⟩,
    ⟨.master, .normal .crossfader, 0xB0, 0x17⟩,
    ⟨.library, .selectknob .moveVertical, 0xB0, 0x00⟩,
    ⟨.library, .normal .goToItem, 0x90, 0x00⟩,
    ⟨.channel1, .normal .loadSelectedTrack, 0x90, 0x01⟩,
    ⟨.channel2, .normal .loadSelectedTrack, 0x90, 0x02⟩,
    ⟨.channel1, .scriptBinding .togglePFL, 0x90, 0x2F⟩,
    ⟨.channel2, .scriptBinding .togglePFL, 0x90, 0x30⟩,
    ⟨.channel1, .scriptBinding .togglePlay, 0x90, 0x03⟩,
    ⟨.channel1, .normal .cueDefault, 0x90, 0x0B⟩,
    ⟨.channel1, .scriptBinding .toggleSync, 0x90, 0x05⟩,
    ⟨.channel2, .scriptBinding .togglePlay, 0x90, 0x04⟩,
    ⟨.channel2, .normal .cueDefault, 0x90, 0x0C⟩,
    ⟨.channel2, .scriptBinding .toggleSync, 0x90, 0x06⟩]

/-- `<outputs>` (lines 215-240). -/
def outputs : List Output :=
  [⟨.channel1, .pfl, 0x90, 0x2F, 0x7F, 0x00, 1 / 2⟩,
    ⟨.channel2, .pfl, 0x90, 0x30, 0x7F, 0x00, 1 / 2⟩]

/-! ## Mixxx under the mapping -/

/-- What the mapping uses of Mixxx: `engine.getValue` and `engine.setValue`, and what a
    message does whose control is bound without the script. -/
structure Api (E : Type*) where
  getValue : E → Group → Key → ℚ
  setValue : E → Group → Key → ℚ → E
  direct : E → Control → Byte → E

section

variable {E : Type*} (mixxx : Api E)

/-- `DJMT1.toggle` (scripts.js:16-20). -/
def toggle (e : E) (group : Group) (key : Key) (value : Byte) : E :=
  if value = 0x7F then mixxx.setValue e group key (if mixxx.getValue e group key ≠ 0 then 0 else 1)
  else e

/-- `DJMT1.togglePFL`, `DJMT1.togglePlay` and `DJMT1.toggleSync` (scripts.js:23-35). -/
def togglePFL (e : E) (value : Byte) (group : Group) : E := toggle mixxx e group .pfl value

def togglePlay (e : E) (value : Byte) (group : Group) : E := toggle mixxx e group .play value

def toggleSync (e : E) (value : Byte) (group : Group) : E := toggle mixxx e group .syncEnabled value

/-- A message with value `value` reaches its control. -/
def act (value : Byte) (e : E) (c : Control) : E :=
  match c.binding with
  | .normal _ | .selectknob _ => mixxx.direct e c value
  | .scriptBinding .togglePFL => togglePFL mixxx e value c.group
  | .scriptBinding .togglePlay => togglePlay mixxx e value c.group
  | .scriptBinding .toggleSync => toggleSync mixxx e value c.group

/-- The controls with a status and a number. -/
def bound (status midino : Byte) : List Control :=
  controls.filter fun c => c.status = status ∧ c.midino = midino

/-- A message of the mixer. -/
def input (e : E) : Message → E
  | .voice3 status d1 d2 _ _ _ => (bound status d1).foldl (act mixxx d2) e
  | .voice2 _ _ _ _ | .common3 _ _ _ _ | .common2 _ _ _ _ | .common1 _ _ | .realTime _ _
  | .sysEx _ _ => e

end

/-! ## What the script sets -/

/-- A call of `engine.setValue`: its control, the value that the control had, and the new
    one. -/
structure Setting where
  group : Group
  key : Key
  old : ℚ
  new : ℚ

/-- Mixxx, and what the script has set. -/
def Api.logged {E : Type*} (mixxx : Api E) : Api (E × List Setting) where
  getValue e group key := mixxx.getValue e.1 group key
  setValue e group key v :=
    (mixxx.setValue e.1 group key v, e.2 ++ [⟨group, key, mixxx.getValue e.1 group key, v⟩])
  direct e c value := (mixxx.direct e.1 c value, e.2)

/-- The settings of one control. -/
def settingsOf (group : Group) (key : Key) (settings : List Setting) : List Setting :=
  settings.filter fun s => s.group = group ∧ s.key = key

/-! ## What a message does to a control -/

/-- The key that a binding is about. -/
def Script.key : Script → Key
  | .togglePFL => .pfl
  | .togglePlay => .play
  | .toggleSync => .syncEnabled

def Binding.key : Binding → Key
  | .normal key | .selectknob key => key
  | .scriptBinding f => f.key

/-- No two controls have the same message, and no two are bound to the same group and
    key. -/
theorem nodup_messages : (controls.map fun c => (c.status, c.midino)).Nodup := by decide

theorem nodup_targets : (controls.map fun c => (c.group, c.binding.key)).Nodup := by decide

/-- Of elements with different keys one is picked. -/
theorem filter_of_nodup {α β : Type*} [DecidableEq β] {f : α → β} {l : List α} {a : α}
    (h : (l.map f).Nodup) (ha : a ∈ l) : l.filter (fun b => f b = f a) = [a] := by
  induction l with
  | nil => exact absurd ha List.not_mem_nil
  | cons b l ih =>
    rw [List.map_cons, List.nodup_cons] at h
    rcases List.mem_cons.mp ha with rfl | ha
    · have hnone : l.filter (fun b => f b = f a) = [] := by
        rw [List.filter_eq_nil_iff]
        intro b hb heq
        exact h.1 (List.mem_map.mpr ⟨b, hb, of_decide_eq_true heq⟩)
      rw [List.filter_cons_of_pos (by simp), hnone]
    · have hne : f b ≠ f a := fun heq => h.1 (heq ▸ List.mem_map_of_mem ha)
      rw [List.filter_cons_of_neg (by simpa using hne)]
      exact ih h.2 ha

/-- No message is bound to two controls. -/
theorem bound_eq {c : Control} (hc : c ∈ controls) : bound c.status c.midino = [c] := by
  have hpick := filter_of_nodup nodup_messages hc
  simpa only [bound, Prod.mk.injEq] using hpick

/-- The push of a button: its Note-On with velocity 0x7F. -/
def pushes (c : Control) : Message → Bool
  | .voice3 status d1 d2 _ _ _ => status = c.status ∧ d1 = c.midino ∧ d2 = 0x7F
  | .voice2 _ _ _ _ | .common3 _ _ _ _ | .common2 _ _ _ _ | .common1 _ _ | .realTime _ _
  | .sysEx _ _ => false

/-- The other value of a binary control. -/
def flipped (v : ℚ) : ℚ := if v ≠ 0 then 0 else 1

theorem flipped_iterate_ne_zero (n : ℕ) (v : ℚ) : flipped^[n] v ≠ 0 ↔ (Even n ↔ v ≠ 0) := by
  induction n generalizing v with
  | zero => simp
  | succ n ih =>
    rw [Function.iterate_succ_apply, ih, Nat.even_add_one, flipped]
    by_cases hv : v = 0
    · simp [hv]
    · simp [hv]

/-- A binary control that keeps what it is set to, and that no other control of the
    mapping changes. -/
structure Api.Switch {E : Type*} (mixxx : Api E) (group : Group) (key : Key) : Prop where
  set : ∀ e v, v = 0 ∨ v = 1 → mixxx.getValue (mixxx.setValue e group key v) group key = v
  set_other : ∀ e g k v, ¬ (g = group ∧ k = key) →
    mixxx.getValue (mixxx.setValue e g k v) group key = mixxx.getValue e group key
  direct : ∀ e c value, ¬ (c.group = group ∧ c.binding.key = key) →
    mixxx.getValue (mixxx.direct e c value) group key = mixxx.getValue e group key

section

variable {E : Type*} {mixxx : Api E}

theorem act_script {c : Control} {f : Script} (hf : c.binding = .scriptBinding f) (value : Byte)
    (e : E) : act mixxx value e c = toggle mixxx e c.group f.key value := by
  unfold act
  rw [hf]
  cases f <;> rfl

/-- The log does not get in the way. -/
theorem act_logged (value : Byte) (e : E × List Setting) (c : Control) :
    act mixxx value e.1 c = (act mixxx.logged value e c).1 := by
  cases hb : c.binding with
  | normal k | selectknob k =>
    simp only [act, hb]
    rfl
  | scriptBinding f =>
    rw [act_script hb, act_script hb, toggle, toggle]
    by_cases hpush : value = 0x7F
    · rw [if_pos hpush, if_pos hpush]
      rfl
    · rw [if_neg hpush, if_neg hpush]

theorem input_logged (e : E × List Setting) (m : Message) :
    input mixxx e.1 m = (input mixxx.logged e m).1 := by
  cases m with
  | voice2 | common3 | common2 | common1 | realTime | sysEx => rfl
  | voice3 status d1 d2 hs h1 h2 => exact List.foldl_hom Prod.fst (act_logged d2)

theorem foldl_input_logged (ms : List Message) (e : E × List Setting) :
    (ms.foldl (input mixxx.logged) e).1 = ms.foldl (input mixxx) e.1 :=
  (List.foldl_hom Prod.fst input_logged).symm

/-- A message that is not a control's sets it to nothing. -/
theorem settingsOf_act_ne {group : Group} {key : Key} {c : Control}
    (h : ¬ (c.group = group ∧ c.binding.key = key)) (value : Byte) (e : E × List Setting) :
    settingsOf group key (act mixxx.logged value e c).2 = settingsOf group key e.2 := by
  cases hb : c.binding with
  | normal k | selectknob k =>
    simp only [act, hb]
    rfl
  | scriptBinding f =>
    rw [hb] at h
    rw [act_script hb, toggle]
    by_cases hpush : value = 0x7F
    · rw [if_pos hpush]
      change settingsOf group key (e.2 ++ [⟨c.group, f.key, _, _⟩]) = _
      rw [settingsOf, List.filter_append, List.filter_cons_of_neg
        (by simpa [Binding.key] using h), List.filter_nil, List.append_nil, settingsOf]
    · rw [if_neg hpush]

theorem settingsOf_foldl_ne {group : Group} {key : Key} {cs : List Control}
    (h : ∀ c ∈ cs, ¬ (c.group = group ∧ c.binding.key = key)) (value : Byte)
    (e : E × List Setting) :
    settingsOf group key (cs.foldl (act mixxx.logged value) e).2 = settingsOf group key e.2 := by
  induction cs generalizing e with
  | nil => rfl
  | cons c cs ih =>
    rw [List.foldl_cons, ih fun d hd => h d (List.mem_cons_of_mem c hd),
      settingsOf_act_ne (h c List.mem_cons_self)]

/-- A message leaves a switch that is not its control's alone. -/
theorem getValue_act_ne {group : Group} {key : Key} (hswitch : mixxx.Switch group key) {c : Control}
    (h : ¬ (c.group = group ∧ c.binding.key = key)) (value : Byte) (e : E) :
    mixxx.getValue (act mixxx value e c) group key = mixxx.getValue e group key := by
  cases hb : c.binding with
  | normal k | selectknob k =>
    simp only [act, hb]
    exact hswitch.direct e c value h
  | scriptBinding f =>
    rw [hb] at h
    rw [act_script hb, toggle]
    split_ifs
    · exact hswitch.set_other e c.group f.key _ h
    · exact hswitch.set_other e c.group f.key _ h
    · rfl

theorem getValue_foldl_ne {group : Group} {key : Key} (hswitch : mixxx.Switch group key)
    {cs : List Control} (h : ∀ c ∈ cs, ¬ (c.group = group ∧ c.binding.key = key)) (value : Byte)
    (e : E) : mixxx.getValue (cs.foldl (act mixxx value) e) group key =
      mixxx.getValue e group key := by
  induction cs generalizing e with
  | nil => rfl
  | cons c cs ih =>
    rw [List.foldl_cons, ih fun d hd => h d (List.mem_cons_of_mem c hd),
      getValue_act_ne hswitch (h c List.mem_cons_self)]

/-- A message is the push of a toggling button, and the script sets its control to the other
    value, or it is left to other controls. -/
theorem input_cases {c : Control} {f : Script} (hc : c ∈ controls)
    (hf : c.binding = .scriptBinding f) (mixxx : Api E) (m : Message) (e : E) :
    pushes c m = true ∧ input mixxx e m =
        mixxx.setValue e c.group f.key (flipped (mixxx.getValue e c.group f.key)) ∨
      pushes c m = false ∧ ∃ (cs : List Control) (value : Byte),
        (∀ d ∈ cs, ¬ (d.group = c.group ∧ d.binding.key = f.key)) ∧
        input mixxx e m = cs.foldl (act mixxx value) e := by
  cases m with
  | voice2 | common3 | common2 | common1 | realTime | sysEx =>
    exact .inr ⟨rfl, [], 0, fun d hd => absurd hd List.not_mem_nil, rfl⟩
  | voice3 status d1 d2 hs h1 h2 =>
    rw [input]
    by_cases hmine : status = c.status ∧ d1 = c.midino
    · obtain ⟨rfl, rfl⟩ := hmine
      rw [bound_eq hc, List.foldl_cons, List.foldl_nil, act_script hf, toggle]
      by_cases hpush : d2 = 0x7F
      · rw [if_pos hpush]
        exact .inl ⟨decide_eq_true ⟨rfl, rfl, hpush⟩, rfl⟩
      · rw [if_neg hpush]
        exact .inr ⟨decide_eq_false fun h => hpush h.2.2, [], 0,
          fun d hd => absurd hd List.not_mem_nil, rfl⟩
    · -- another control's message
      refine .inr ⟨decide_eq_false fun h => hmine ⟨h.1, h.2.1⟩, _, d2, ?_, rfl⟩
      intro d hd htarget
      obtain ⟨hd, hmatch⟩ := List.mem_filter.mp hd
      have heq : d = c := List.inj_on_of_nodup_map nodup_targets hd hc (by
        rw [hf]
        exact Prod.ext htarget.1 htarget.2)
      obtain ⟨hstatus, hno⟩ := of_decide_eq_true hmatch
      exact hmine ⟨by rw [← heq, hstatus], by rw [← heq, hno]⟩

/-- The script sets the control of a toggling button when the button is pushed, and then to
    the other value. -/
theorem input_settings {c : Control} {f : Script} (hc : c ∈ controls)
    (hf : c.binding = .scriptBinding f) (mixxx : Api E) (m : Message) (e : E × List Setting) :
    settingsOf c.group f.key (input mixxx.logged e m).2 = settingsOf c.group f.key e.2 ++
      if pushes c m then [⟨c.group, f.key, mixxx.getValue e.1 c.group f.key,
        flipped (mixxx.getValue e.1 c.group f.key)⟩] else [] := by
  rcases input_cases hc hf mixxx.logged m e with ⟨hpush, hset⟩ | ⟨hpush, cs, value, hother, hfold⟩
  · rw [hset, hpush, if_pos rfl]
    change settingsOf c.group f.key (e.2 ++ [⟨c.group, f.key, _, _⟩]) = _
    rw [settingsOf, List.filter_append, List.filter_cons_of_pos (by simp), List.filter_nil,
      settingsOf]
    rfl
  · rw [hfold, settingsOf_foldl_ne hother, hpush, if_neg Bool.false_ne_true, List.append_nil]

/-- So a sequence of messages sets it once for each push. -/
theorem settings_by_pushes {c : Control} {f : Script} (hc : c ∈ controls)
    (hf : c.binding = .scriptBinding f) (mixxx : Api E) (ms : List Message)
    (e : E × List Setting) :
    ∃ new, settingsOf c.group f.key (ms.foldl (input mixxx.logged) e).2 =
        settingsOf c.group f.key e.2 ++ new ∧
      new.length = ms.countP (pushes c) ∧ ∀ s ∈ new, s.new = flipped s.old := by
  induction ms generalizing e with
  | nil => exact ⟨[], (List.append_nil _).symm, rfl, fun s hs => absurd hs List.not_mem_nil⟩
  | cons m ms ih =>
    obtain ⟨new, hset, hlen, hflip⟩ := ih (input mixxx.logged e m)
    rw [List.foldl_cons, hset, input_settings hc hf, List.append_assoc]
    refine ⟨_, rfl, ?_, ?_⟩
    · rw [List.length_append, hlen, List.countP_cons]
      split_ifs
      · exact Nat.add_comm 1 _
      · exact Nat.add_comm 0 _
    · intro s hs
      rcases List.mem_append.mp hs with hs | hs
      · split_ifs at hs
        · rw [List.mem_singleton.mp hs]
        · exact absurd hs List.not_mem_nil
      · exact hflip s hs

/-- One message flips a switch if it is the push of its button, and leaves it alone
    otherwise. -/
theorem input_toggled {c : Control} {f : Script} (hc : c ∈ controls)
    (hf : c.binding = .scriptBinding f) (hswitch : mixxx.Switch c.group f.key) (m : Message)
    (e : E) : mixxx.getValue (input mixxx e m) c.group f.key =
      if pushes c m then flipped (mixxx.getValue e c.group f.key)
      else mixxx.getValue e c.group f.key := by
  rcases input_cases hc hf mixxx m e with ⟨hpush, hset⟩ | ⟨hpush, cs, value, hother, hfold⟩
  · rw [hset, hpush, if_pos rfl]
    refine hswitch.set e _ ?_
    unfold flipped
    split_ifs
    · exact .inl rfl
    · exact .inr rfl
  · rw [hfold, getValue_foldl_ne hswitch hother, hpush, if_neg Bool.false_ne_true]

/-- So a sequence of messages flips it once for each push. -/
theorem toggled_by_pushes {c : Control} {f : Script} (hc : c ∈ controls)
    (hf : c.binding = .scriptBinding f) (hswitch : mixxx.Switch c.group f.key)
    (ms : List Message) (e : E) :
    mixxx.getValue (ms.foldl (input mixxx) e) c.group f.key =
      flipped^[ms.countP (pushes c)] (mixxx.getValue e c.group f.key) := by
  induction ms generalizing e with
  | nil => rfl
  | cons m ms ih =>
    rw [List.foldl_cons, ih, input_toggled hc hf hswitch]
    by_cases hpush : pushes c m
    · rw [if_pos hpush, List.countP_cons_of_pos hpush, Function.iterate_succ_apply]
    · rw [if_neg hpush, List.countP_cons_of_neg hpush]

end

/-! ## From the mixer to a control -/

instance : DecidablePred Message.IsVoice
  | .voice3 _ _ _ _ _ _ | .voice2 _ _ _ _ => .isTrue trivial
  | .common3 _ _ _ _ | .common2 _ _ _ _ | .common1 _ _ | .realTime _ _ | .sysEx _ _ => .isFalse id

theorem isVoice_of_pushes {c : Control} {m : Message} (h : pushes c m) : m.IsVoice := by
  cases m with
  | voice3 => exact trivial
  | voice2 | common3 | common2 | common1 | realTime | sysEx => exact absurd h Bool.false_ne_true

/-- The pushes are among the channel-voice messages. -/
theorem countP_filter_isVoice (c : Control) (ms : List Message) :
    (ms.filter (·.IsVoice)).countP (pushes c) = ms.countP (pushes c) := by
  rw [List.countP_filter]
  apply List.countP_congr
  intro m _
  rw [Bool.and_eq_true, decide_eq_true_eq]
  exact and_iff_left_of_imp isVoice_of_pushes

/-- **Buttons.** The mixer sends messages, packetized on any cables, with any padding and
    cut in any way into completed transfers. `midi_cb` of either daemon hands their bytes
    to the ALSA encoder, and the channel-voice messages that reach Mixxx are those that
    the mixer has sent. Then the script has set the control of each toggling button once
    for each push of that button, each time to the other value than the one it has read.
    PFL is a switch of Mixxx that nothing else on the panel changes, so it has flipped once
    for each push. -/
theorem toggles_follow_pushes {cb : Bridge → BulkTransfer → Option (Bridge × Bool)}
    (hcb : cb = DjmMidi.midiCb ∨ cb = DjmFull.midiCb) {ms : List Message}
    {pss : List (List Packet)} (hms : List.Forall₂ Packetizes ms pss) {qs : List Packet}
    (hqs : Padded pss.flatten qs) {ts : List BulkTransfer} {cut : List (List Packet)}
    (hcut : cut.flatten = qs)
    (hts : List.Forall₂ (fun t ps => t.status = .completed ∧ t.Holds ps) ts cut)
    (encode : List Byte → List Message)
    (hencode : (encode (ms.flatMap Message.bytes)).filter (·.IsVoice) = ms.filter (·.IsVoice))
    {E : Type*} (mixxx : Api E) {c : Control} {f : Script} (hc : c ∈ controls)
    (hf : c.binding = .scriptBinding f) {s : Bridge} (hs : s.emitted = []) (e : E) :
    ∃ s', runCb cb s ts = some s' ∧
      let r := (encode s'.emitted.flatten).foldl (input mixxx.logged) (e, [])
      r.1 = (encode s'.emitted.flatten).foldl (input mixxx) e ∧
      (settingsOf c.group f.key r.2).length = ms.countP (pushes c) ∧
      (∀ x ∈ settingsOf c.group f.key r.2, x.new = flipped x.old) ∧
      (f = .togglePFL → mixxx.Switch c.group .pfl →
        mixxx.getValue r.1 c.group .pfl =
            flipped^[ms.countP (pushes c)] (mixxx.getValue e c.group .pfl) ∧
          (mixxx.getValue r.1 c.group .pfl ≠ 0 ↔
            (Even (ms.countP (pushes c)) ↔ mixxx.getValue e c.group .pfl ≠ 0))) := by
  obtain ⟨hcarries, hbytes⟩ := spells_of_forall₂ hms
  have hrun : runCb cb s ts = some (qs.foldl deliver s) := by
    rw [← hcut]
    rcases hcb with rfl | rfl
    · exact runCb_spec _ hts s
    · exact runCb_spec _ hts s
  have hemitted : (qs.foldl deliver s).emitted.flatten = ms.flatMap Message.bytes := by
    rw [foldl_deliver, hqs.filter_eq hcarries, hs, List.nil_append, ← hbytes, List.flatMap_def]
  have hcount : (encode (ms.flatMap Message.bytes)).countP (pushes c) = ms.countP (pushes c) := by
    rw [← countP_filter_isVoice, hencode, countP_filter_isVoice]
  obtain ⟨new, hset, hlen, hflip⟩ :=
    settings_by_pushes hc hf mixxx (encode (ms.flatMap Message.bytes)) (e, [])
  rw [hcount] at hlen
  refine ⟨_, hrun, ?_⟩
  intro r
  have hr : r.1 = (encode (ms.flatMap Message.bytes)).foldl (input mixxx) e := by
    rw [← hemitted]
    exact foldl_input_logged _ _
  have hsettings : settingsOf c.group f.key r.2 = new := by
    rw [← List.nil_append new, ← show settingsOf c.group f.key [] = [] from rfl, ← hset, ← hemitted]
  refine ⟨by rw [hr, hemitted], by rw [hsettings, hlen], by rwa [hsettings], ?_⟩
  rintro rfl hswitch
  have hvalue : mixxx.getValue r.1 c.group .pfl =
      flipped^[ms.countP (pushes c)] (mixxx.getValue e c.group .pfl) := by
    rw [hr, ← hcount]
    exact toggled_by_pushes hc hf hswitch _ e
  exact ⟨hvalue, by rw [hvalue, flipped_iterate_ne_zero]⟩

/-- Controls that keep what they are set to. -/
def plainApi : Api (Group → Key → ℚ) where
  getValue e group key := e group key
  setValue e group key v := Function.update e group (Function.update (e group) key v)
  direct e c value :=
    Function.update e c.group (Function.update (e c.group) c.binding.key (value.toNat / 127))

theorem plainApi_switch (group : Group) (key : Key) : plainApi.Switch group key := by
  have hother (e : Group → Key → ℚ) {g : Group} {k : Key} (v : ℚ) (h : ¬ (g = group ∧ k = key)) :
      Function.update e g (Function.update (e g) k v) group key = e group key := by
    by_cases hg : group = g
    · subst hg
      rw [Function.update_self, Function.update_of_ne fun hk => h ⟨rfl, hk.symm⟩]
    · rw [Function.update_of_ne hg]
  refine ⟨?_, ?_, ?_⟩
  · intro e v _
    simp [plainApi]
  · intro e g k v h
    exact hother e v h
  · intro e c value h
    exact hother e _ h

/-- The CUE button of channel 1. -/
def cue1 : Control := ⟨.channel1, .scriptBinding .togglePFL, 0x90, 0x2F⟩

/-- It is pushed, and held while a fader moves, then released and pushed again. -/
def cueTwice : List Message :=
  [.voice3 0x90 0x2F 0x7F (by decide) (by decide) (by decide),
    .voice3 0xB0 0x15 0x40 (by decide) (by decide) (by decide),
    .voice3 0x90 0x2F 0x00 (by decide) (by decide) (by decide),
    .voice3 0x90 0x2F 0x7F (by decide) (by decide) (by decide)]

theorem toggles_follow_pushes_cueTwice :
    ∃ s', runCb DjmFull.midiCb ⟨0, true, false, []⟩
        [bulkOf ([⟨0x09, 0x90, 0x2F, 0x7F⟩, ⟨0x0B, 0xB0, 0x15, 0x40⟩, ⟨0, 0, 0, 0⟩].flatMap
            Packet.bytes),
          bulkOf ([⟨0x09, 0x90, 0x2F, 0x00⟩, ⟨0x09, 0x90, 0x2F, 0x7F⟩].flatMap Packet.bytes)] =
        some s' ∧
      let r := cueTwice.foldl (input plainApi.logged) (fun _ _ => 0, [])
      (settingsOf .channel1 .pfl r.2).length = 2 ∧
      (∀ x ∈ settingsOf .channel1 .pfl r.2, x.new = flipped x.old) ∧
      plainApi.getValue r.1 .channel1 .pfl = flipped^[2] 0 ∧
      (plainApi.getValue r.1 .channel1 .pfl ≠ 0 ↔ (Even 2 ↔ (0 : ℚ) ≠ 0)) := by
  have hms : List.Forall₂ Packetizes cueTwice
      [[.event 0 0x9 [0x90, 0x2F, 0x7F]], [.event 0 0xB [0xB0, 0x15, 0x40]],
        [.event 0 0x9 [0x90, 0x2F, 0x00]], [.event 0 0x9 [0x90, 0x2F, 0x7F]]] :=
    .cons (.whole _ 0 List.mem_cons_self) (.cons (.whole _ 0 List.mem_cons_self)
      (.cons (.whole _ 0 List.mem_cons_self) (.cons (.whole _ 0 List.mem_cons_self) .nil)))
  have hqs : Padded
      [⟨0x09, 0x90, 0x2F, 0x7F⟩, ⟨0x0B, 0xB0, 0x15, 0x40⟩, ⟨0x09, 0x90, 0x2F, 0x00⟩,
        ⟨0x09, 0x90, 0x2F, 0x7F⟩]
      [⟨0x09, 0x90, 0x2F, 0x7F⟩, ⟨0x0B, 0xB0, 0x15, 0x40⟩, ⟨0, 0, 0, 0⟩,
        ⟨0x09, 0x90, 0x2F, 0x00⟩, ⟨0x09, 0x90, 0x2F, 0x7F⟩] :=
    .keep _ (.keep _ (.pad (by decide) (.keep _ (.keep _ .nil))))
  have hts : List.Forall₂ (fun t ps => t.status = .completed ∧ t.Holds ps)
      [bulkOf ([⟨0x09, 0x90, 0x2F, 0x7F⟩, ⟨0x0B, 0xB0, 0x15, 0x40⟩, ⟨0, 0, 0, 0⟩].flatMap
          Packet.bytes),
        bulkOf ([⟨0x09, 0x90, 0x2F, 0x00⟩, ⟨0x09, 0x90, 0x2F, 0x7F⟩].flatMap Packet.bytes)]
      [[⟨0x09, 0x90, 0x2F, 0x7F⟩, ⟨0x0B, 0xB0, 0x15, 0x40⟩, ⟨0, 0, 0, 0⟩],
        [⟨0x09, 0x90, 0x2F, 0x00⟩, ⟨0x09, 0x90, 0x2F, 0x7F⟩]] :=
    .cons ⟨rfl, bulkOf_holds _⟩ (.cons ⟨rfl, bulkOf_holds _⟩ .nil)
  obtain ⟨s', hrun, _, hlen, hflip, hpfl⟩ := toggles_follow_pushes (.inr rfl) hms hqs rfl hts
    (fun _ => cueTwice) rfl plainApi (c := cue1) (by decide) rfl (s := ⟨0, true, false, []⟩) rfl
    fun _ _ => 0
  exact ⟨s', hrun, hlen, hflip, hpfl rfl (plainApi_switch _ _)⟩

/-! ## From a control to its LED -/

/-- The third byte of the message of an output, for a value of its control. -/
def Output.velocity (o : Output) (v : ℚ) : Byte := if o.minimum ≤ v ∧ v ≤ 1 then o.on else o.off

def Output.message (o : Output) (v : ℚ) : List Byte := [o.status, o.midino, o.velocity v]

section

variable {E : Type*} (mixxx : Api E)

/-- Mixxx sends the message of an output when its control has changed. -/
def notify (e e' : E) : List (List Byte) :=
  (outputs.filter fun o =>
      mixxx.getValue e' o.group o.key ≠ mixxx.getValue e o.group o.key).map
    fun o => o.message (mixxx.getValue e' o.group o.key)

/-- What happens to Mixxx: a message of the mixer, or something of its own. -/
inductive Event (E : Type*)
  | midi (m : Message)
  | own (e : E)

def Event.step (e : E) : Event E → E
  | .midi m => input mixxx e m
  | .own e' => e'

/-- The messages that Mixxx sends to the mixer. -/
def sends (e : E) : List (Event E) → List (List Byte)
  | [] => []
  | ev :: evs => notify mixxx e (ev.step mixxx e) ++ sends (ev.step mixxx e) evs

end

/-- What `snd_seq_event_input` gives. -/
inductive SeqInput
  /-- an event, and the bytes that `snd_midi_event_decode` makes of it; none if it fails -/
  | event (buf : List Byte)
  /-- an error that leaves the queue alone -/
  | error
  /-- `-ENOSPC`: the queue has been full, and has been cleared -/
  | overrun
  deriving DecidableEq

def SeqInput.buf? : SeqInput → Option (List Byte)
  | .event buf => some buf
  | .error | .overrun => none

/-- The events of a queue. -/
def bufs (queue : List SeqInput) : List (List Byte) := queue.filterMap SeqInput.buf?

/-- `drain_seq_input` (midi/djm_midi.c:127-135, midi/djm_full.c:94-102): what it writes to
    the mixer, and what is pending afterwards. The queue holds what the next calls of
    `snd_seq_event_input` give; `pkt` is the buffer of `send_to_device`. -/
def drainSeqInput (pkt : Region Byte) : List SeqInput → Option (List (List Byte) × List SeqInput)
  | [] => some ([], [])
  | .error :: queue => some ([], queue)
  | .overrun :: _ => some ([], [])
  | .event buf :: queue => do
    let w ← if buf.length > 0 then sendToDevice (Region.ofList buf 0) buf.length pkt else some none
    let (ws, queue) ← drainSeqInput pkt queue
    return (w.toList ++ ws, queue)

/-- Calls of `drain_seq_input`, each after something has arrived: everything that has been
    written, and what is pending after the last one. -/
def drains (pkt : Region Byte) (arrivals : List (List SeqInput)) :
    Option (List (List Byte) × List SeqInput) :=
  arrivals.foldlM (fun (written, queue) arrived => do
    let (ws, queue) ← drainSeqInput pkt (queue ++ arrived)
    return (written ++ ws, queue)) ([], [])

theorem nodup_outputs : (outputs.map fun o => (o.status, o.midino)).Nodup := by decide

/-- The packet of a message of three bytes. -/
def ledPacket (buf : List Byte) : List Byte := 0x09 :: buf

theorem outputs_status {o : Output} (ho : o ∈ outputs) :
    o.status = 0x90 ∧ o.midino.toNat < 0x80 ∧ o.on.toNat < 0x80 ∧ o.off.toNat < 0x80 := by
  simp only [outputs, List.mem_cons, List.not_mem_nil, or_false] at ho
  rcases ho with rfl | rfl <;> decide

/-- The message of an output goes out in one packet. -/
theorem sendToDevice_message {o : Output} (ho : o ∈ outputs) (v : ℚ) {pkt : Region Byte}
    (hpkt : pkt.size = 64) :
    sendToDevice (Region.ofList (o.message v) 0) (o.message v).length pkt =
      some (some (ledPacket (o.message v))) := by
  obtain ⟨hstatus, hno, hon, hoff⟩ := outputs_status ho
  have hvelocity : (o.velocity v).toNat < 0x80 := by
    unfold Output.velocity
    split_ifs
    · exact hon
    · exact hoff
  let m : Message := .voice3 0x90 o.midino (o.velocity v) (by decide) hno hvelocity
  have hbytes : o.message v = [m].flatMap Message.bytes := by
    rw [Output.message, hstatus]
    rfl
  have hshort : ∀ m' ∈ [m], m'.IsShort := fun m' hm' => by
    rw [List.mem_singleton.mp hm']
    exact trivial
  have hreach := cutReach_flatMap hshort 16
  have hpacket : m.packet.bytes = ledPacket m.bytes := by
    have hheader : (0 : BitVec 4) ++ BitVec.ofNat 4 ((0x90 : Byte).toNat / 16) = (0x09 : Byte) := by
      decide
    change [(0 : BitVec 4) ++ BitVec.ofNat 4 ((0x90 : Byte).toNat / 16), _, _, _] = _
    rw [hheader]
    rfl
  rw [hbytes, sendToDevice_written (by omega) hpkt, cutPackets_flatMap hshort,
    List.flatMap_singleton, ← hpacket]
  rfl

/-- The messages of outputs. -/
def IsFeedback (buf : List Byte) : Prop := ∃ o ∈ outputs, ∃ v, buf = Output.message o v

/-- A call writes one packet for each event that it has taken from the queue. What is then
    pending is the rest of the queue, unless there has been an overrun. -/
theorem drainSeqInput_spec {pkt : Region Byte} (hpkt : pkt.size = 64) (queue : List SeqInput)
    (h : ∀ buf ∈ bufs queue, IsFeedback buf) :
    ∃ taken rest, (taken ++ rest).Sublist queue ∧ (.overrun ∉ queue → taken ++ rest = queue) ∧
      drainSeqInput pkt queue = some ((bufs taken).map ledPacket, rest) := by
  induction queue with
  | nil => exact ⟨[], [], .refl _, fun _ => rfl, rfl⟩
  | cons head queue ih =>
    cases head with
    | error => exact ⟨[.error], queue, .refl _, fun _ => rfl, rfl⟩
    | overrun =>
      exact ⟨[.overrun], [], .cons_cons _ (List.nil_sublist queue),
        fun hnone => absurd List.mem_cons_self hnone, rfl⟩
    | event buf =>
      obtain ⟨o, ho, v, hbuf⟩ := h buf List.mem_cons_self
      obtain ⟨taken, rest, hsub, hall, hdrain⟩ := ih fun b hb => h b (List.mem_cons_of_mem buf hb)
      refine ⟨.event buf :: taken, rest, hsub.cons_cons _, fun hnone => ?_, ?_⟩
      · rw [List.cons_append, hall fun hmem => hnone (List.mem_cons_of_mem _ hmem)]
      · have hlen : buf.length > 0 := by
          rw [hbuf]
          exact Nat.succ_pos 2
        rw [drainSeqInput, if_pos hlen, hbuf, sendToDevice_message ho v hpkt, hdrain]
        rfl

theorem bufs_append (q r : List SeqInput) : bufs (q ++ r) = bufs q ++ bufs r :=
  List.filterMap_append

/-- Over all calls, one packet for each event that has arrived, is not pending any more and
    has not been lost in an overrun, in the order of the events. -/
theorem drains_spec {pkt : Region Byte} (hpkt : pkt.size = 64) (arrivals : List (List SeqInput))
    (h : ∀ buf ∈ bufs arrivals.flatten, IsFeedback buf) :
    ∃ taken rest, (taken ++ rest).Sublist arrivals.flatten ∧
      (.overrun ∉ arrivals.flatten → taken ++ rest = arrivals.flatten) ∧
      drains pkt arrivals = some ((bufs taken).map ledPacket, rest) := by
  induction arrivals using List.reverseRecOn with
  | nil => exact ⟨[], [], .refl _, fun _ => rfl, rfl⟩
  | append_singleton arrivals arrived ih =>
    have hflatten : (arrivals ++ [arrived]).flatten = arrivals.flatten ++ arrived := by simp
    rw [hflatten] at h ⊢
    obtain ⟨taken, rest, hsub, hall, hdrains⟩ := ih fun buf hbuf => h buf (by
      rw [bufs_append]
      exact List.mem_append_left _ hbuf)
    have hrest : (rest ++ arrived).Sublist (arrivals.flatten ++ arrived) :=
      ((List.sublist_append_right taken rest).trans hsub).append_right arrived
    obtain ⟨more, rest', hsub', hall', hdrain⟩ := drainSeqInput_spec hpkt (rest ++ arrived)
      fun buf hbuf => h buf ((hrest.filterMap _).subset hbuf)
    refine ⟨taken ++ more, rest', ?_, fun hnone => ?_, ?_⟩
    · rw [List.append_assoc]
      refine (hsub'.append_left taken).trans ?_
      rw [← List.append_assoc]
      exact hsub.append_right arrived
    · rw [List.append_assoc, hall' fun hmem => hnone (hrest.subset hmem), ← List.append_assoc,
        hall fun hmem => hnone (List.mem_append_left _ hmem)]
    · rw [drains, List.foldlM_append, ← drains, hdrains, bufs_append, List.map_append]
      simp only [Option.bind_eq_bind, Option.bind_some, List.foldlM_cons, List.foldlM_nil, hdrain,
        Option.pure_def]

/-! ## What the LEDs show -/

/-- The messages for the LED of an output. -/
def Output.own (o : Output) (bufs : List (List Byte)) : List (List Byte) :=
  bufs.filter fun buf => buf.take 2 = [o.status, o.midino]

/-- The last message for the LED is the one for the value `v`; there is none only if the
    control has kept the value `v₀`. -/
def Output.Follows (o : Output) (bufs : List (List Byte)) (v₀ v : ℚ) : Prop :=
  (o.own bufs).getLast? = some (o.message v) ∨ (o.own bufs).getLast? = none ∧ v = v₀

theorem Output.own_append (o : Output) (bs cs : List (List Byte)) :
    o.own (bs ++ cs) = o.own bs ++ o.own cs := List.filter_append ..

theorem Output.Follows.trans {o : Output} {bs cs : List (List Byte)} {v₀ v₁ v₂ : ℚ}
    (h : o.Follows bs v₀ v₁) (h' : o.Follows cs v₁ v₂) : o.Follows (bs ++ cs) v₀ v₂ := by
  unfold Output.Follows
  rw [o.own_append, List.getLast?_append]
  rcases h' with hlast | ⟨hnone, rfl⟩
  · rw [hlast]
    exact .inl rfl
  · rw [hnone]
    exact h

section

variable {E : Type*} {mixxx : Api E}

/-- What is sent after one change. -/
theorem follows_notify {o : Output} (ho : o ∈ outputs) (e e' : E) :
    o.Follows (notify mixxx e e') (mixxx.getValue e o.group o.key)
      (mixxx.getValue e' o.group o.key) := by
  have hpick : outputs.filter (fun p => (p.message (mixxx.getValue e' p.group p.key)).take 2 =
      [o.status, o.midino]) = [o] := by
    simpa [Output.message] using filter_of_nodup nodup_outputs ho
  have hown : o.own (notify mixxx e e') = ([o].filter fun p =>
      mixxx.getValue e' p.group p.key ≠ mixxx.getValue e p.group p.key).map
        fun p => p.message (mixxx.getValue e' p.group p.key) := by
    rw [← hpick, List.filter_comm, Output.own, notify, List.filter_map]
    rfl
  unfold Output.Follows
  rw [hown]
  by_cases hsame : mixxx.getValue e' o.group o.key = mixxx.getValue e o.group o.key
  · rw [List.filter_cons_of_neg (by simpa using hsame)]
    exact .inr ⟨rfl, hsame⟩
  · rw [List.filter_cons_of_pos (by simpa using hsame)]
    exact .inl rfl

theorem follows_sends (mixxx : Api E) {o : Output} (ho : o ∈ outputs) (evs : List (Event E))
    (e : E) : o.Follows (sends mixxx e evs) (mixxx.getValue e o.group o.key)
      (mixxx.getValue (evs.foldl (Event.step mixxx) e) o.group o.key) := by
  induction evs generalizing e with
  | nil => exact .inr ⟨rfl, rfl⟩
  | cons ev evs ih => exact (follows_notify ho e _).trans (ih _)

theorem isFeedback_of_mem_sends {evs : List (Event E)} {e : E} {buf : List Byte}
    (h : buf ∈ sends mixxx e evs) : IsFeedback buf := by
  induction evs generalizing e with
  | nil => exact absurd h List.not_mem_nil
  | cons ev evs ih =>
    rcases List.mem_append.mp h with h | h
    · obtain ⟨o, ho, rfl⟩ := List.mem_map.mp h
      exact ⟨o, List.mem_of_mem_filter ho, _, rfl⟩
    · exact ih h

end

/-- **LEDs.** Messages of the mixer and changes of Mixxx's own alternate in any way, and the
    messages that Mixxx sends arrive in the queue of the daemon in any portions, where
    `snd_seq_event_input` may fail any number of times. `drain_seq_input` never reads or
    writes outside its buffers. The packets that it has written and those of the events
    still pending are messages of Mixxx, in order and none twice; unless the queue has been
    overrun, they are all of them, and once nothing is pending the last packet for the LED
    of a CUE button shows its PFL control, unless that has not changed at all. -/
theorem led_shows_pfl {E : Type*} (mixxx : Api E) (e : E) (evs : List (Event E))
    {pkt : Region Byte} (hpkt : pkt.size = 64) {arrivals : List (List SeqInput)}
    (harrive : bufs arrivals.flatten = sends mixxx e evs) :
    ∃ written queue, drains pkt arrivals = some (written, queue) ∧
      (written ++ (bufs queue).map ledPacket).Sublist ((sends mixxx e evs).map ledPacket) ∧
      (.overrun ∉ arrivals.flatten →
        written ++ (bufs queue).map ledPacket = (sends mixxx e evs).map ledPacket ∧
        (bufs queue = [] → ∀ o ∈ outputs,
          let e' := evs.foldl (Event.step mixxx) e
          (written.filter fun p => p.take 3 = [0x09, o.status, o.midino]).getLast? =
              some [0x09, o.status, o.midino, o.velocity (mixxx.getValue e' o.group o.key)] ∨
            (written.filter fun p => p.take 3 = [0x09, o.status, o.midino]).getLast? = none ∧
              mixxx.getValue e' o.group o.key = mixxx.getValue e o.group o.key)) := by
  obtain ⟨taken, queue, hsub, hwhole, hdrains⟩ := drains_spec hpkt arrivals fun buf hbuf =>
    isFeedback_of_mem_sends (harrive ▸ hbuf)
  refine ⟨_, queue, hdrains, ?_, fun hnone => ?_⟩
  · rw [← List.map_append, ← bufs_append, ← harrive]
    exact (hsub.filterMap _).map _
  have hall : bufs taken ++ bufs queue = sends mixxx e evs := by
    rw [← bufs_append, hwhole hnone, harrive]
  refine ⟨by rw [← List.map_append, hall], ?_⟩
  intro hdone o ho e'
  rw [hdone, List.append_nil] at hall
  have hled : ((bufs taken).map ledPacket).filter
      (fun p => p.take 3 = [0x09, o.status, o.midino]) =
      (o.own (sends mixxx e evs)).map ledPacket := by
    rw [hall, List.filter_map, Output.own]
    congr 2
    funext buf
    simp [ledPacket]
  rw [hled, List.getLast?_map]
  rcases follows_sends mixxx ho evs e with hlast | ⟨hnone, hsame⟩
  · rw [hlast]
    exact .inl rfl
  · rw [hnone]
    exact .inr ⟨rfl, hsame⟩

/-- The CUE button of channel 1 is pushed twice, and Mixxx switches the PFL of channel 2
    on in between; `snd_seq_event_input` fails once. -/
def cueEvents : List (Event (Group → Key → ℚ)) :=
  let push : Message := .voice3 0x90 0x2F 0x7F (by decide) (by decide) (by decide)
  let release : Message := .voice3 0x90 0x2F 0x00 (by decide) (by decide) (by decide)
  [.midi push, .midi release,
    .own fun group key => if key = .pfl ∧ group ∈ [.channel1, .channel2] then 1 else 0,
    .midi push]

def cueArrivals : List (List SeqInput) :=
  [[.event [0x90, 0x2F, 0x7F]], [.error, .event [0x90, 0x30, 0x7F]], [.event [0x90, 0x2F, 0x00]]]

theorem led_shows_pfl_cueEvents :
    ∃ written queue, drains (Region.fill 64 0xAA) cueArrivals = some (written, queue) ∧
      written ++ (bufs queue).map ledPacket =
        (sends plainApi (fun _ _ => 0) cueEvents).map ledPacket ∧
      (bufs queue = [] → ∀ o ∈ outputs,
        let e' := cueEvents.foldl (Event.step plainApi) fun _ _ => 0
        (written.filter fun p => p.take 3 = [0x09, o.status, o.midino]).getLast? =
            some [0x09, o.status, o.midino, o.velocity (plainApi.getValue e' o.group o.key)] ∨
          (written.filter fun p => p.take 3 = [0x09, o.status, o.midino]).getLast? = none ∧
            plainApi.getValue e' o.group o.key = 0) := by
  have harrive : bufs cueArrivals.flatten = sends plainApi (fun _ _ => 0) cueEvents := by
    decide +kernel
  obtain ⟨written, queue, hdrains, _, hall⟩ :=
    led_shows_pfl plainApi (fun _ _ => 0) cueEvents
      (show (Region.fill 64 (0xAA : Byte)).size = 64 from rfl) harrive
  exact ⟨written, queue, hdrains, hall (by decide)⟩

end Mixxx

end DjmT1.Midi
