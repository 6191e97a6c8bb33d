import StyleAudit.Yaml.Settings
import StyleAudit.Proofs.YamlNodes

/-!
# Settings on a line of YAML

A mapping on one line that says what the settings are is read as these settings. All settings can be
written in this form.
-/

namespace StyleAudit.Yaml
set_option autoImplicit false

section Settings
variable {α : Type} (d : Document) {es : List (Quoted × Flow)} {key : String}

/-- The values that a mapping gives a key. -/
def given (es : List (Quoted × Flow)) (key : String) : List Flow :=
  (es.filter fun e => e.1.string == key).map Prod.snd

/-- A mapping gives a key the value of a slot, or does not have the key. Other keys may stand among
its own. -/
def Gives (means : Flow → α → Prop) (es : List (Quoted × Flow)) (key : String) : Option α → Prop
  | none => given es key = []
  | some a => ∃ f, given es key = [f] ∧ means f a

def MeansText (f : Flow) (s : String) : Prop := ∃ q, f = .scalar q ∧ q.string = s

def MeansTexts (f : Flow) (ss : List String) : Prop :=
  ∃ qs : List Quoted, f = .sequence (qs.map .scalar) ∧ qs.map Quoted.string = ss

def MeansChecker (f : Flow) (c : CheckerSettings) : Prop :=
  ∃ es, f = .mapping es ∧ Gives MeansText es "program" c.program ∧
    Gives MeansTexts es "args" c.args ∧ Gives MeansText es "requires" c.requires

/-- Data that says what the settings are. -/
def MeansSettings (f : Flow) (s : Settings) : Prop :=
  ∃ es, f = .mapping es ∧ Gives MeansText es "output" s.output ∧
    Gives MeansChecker es "engine" s.engine ∧ Gives MeansChecker es "naming" s.naming

theorem follow_flow (f : Flow) : d.follow f.node = .ok f.node := by
  cases f <;> rw [Flow.node] <;> rfl

theorem hasValue_flow (f : Flow) : d.hasValue f.node = .ok true := by
  rw [Document.hasValue, follow_flow]
  cases f <;> rw [Flow.node] <;> rfl

theorem string_text {f : Flow} {s : String} (h : MeansText f s) : d.string f.node = .ok s := by
  obtain ⟨q, rfl, rfl⟩ := h
  rw [Flow.node]
  rfl

theorem strings_texts {f : Flow} {ss : List String} (h : MeansTexts f ss) :
    d.strings f.node = .ok ss := by
  obtain ⟨qs, rfl, rfl⟩ := h
  rw [Document.strings, follow_flow, Flow.node, List.map_map]
  change (qs.map _).mapM d.string = _
  induction qs with
  | nil => rfl
  | cons q more ih =>
    have hfirst : d.string (((fun i => i.node) ∘ Flow.scalar) q) = .ok q.string :=
      string_text d ⟨q, rfl, rfl⟩
    rw [List.map_cons, List.mapM_cons, hfirst, ih]
    rfl

/-- The entries of a mapping as they are looked up. -/
def lookedUp (es : List (Quoted × Flow)) : List (String × Node) :=
  es.map fun e => (e.1.string, e.2.node)

theorem entries_mapping (es : List (Quoted × Flow)) :
    d.entries (Flow.mapping es).node = .ok (lookedUp es) := by
  rw [Document.entries, follow_flow, Flow.node]
  change (es.map _).mapM _ = _
  induction es with
  | nil => rfl
  | cons e more ih =>
    rw [List.map_cons, List.mapM_cons, ih]
    rfl

theorem optional_given {means : Flow → α → Prop} {read : Node → Except String α}
    (hread : ∀ f a, means f a → read f.node = .ok a) {slot : Option α}
    (h : Gives means es key slot) : d.optional (lookedUp es) key read = .ok slot := by
  have hfilter : (lookedUp es).filter (fun e => e.1 == key) =
      lookedUp (es.filter fun e => e.1.string == key) := by
    rw [lookedUp, List.filter_map]
    rfl
  rw [Document.optional, hfilter]
  cases slot with
  | none =>
    have hnil : es.filter (fun e => e.1.string == key) = [] := List.map_eq_nil_iff.mp h
    rw [hnil]
    rfl
  | some a =>
    obtain ⟨f, hone, hmeans⟩ := h
    obtain ⟨e, hentry, rfl⟩ := List.map_eq_singleton_iff.mp hone
    rw [hentry]
    change (d.hasValue e.2.node >>= _) = _
    rw [hasValue_flow]
    change (read e.2.node).map some = _
    rw [hread _ _ hmeans]
    rfl

theorem checker_flow {f : Flow} {c : CheckerSettings} (h : MeansChecker f c) :
    d.checker f.node = .ok c := by
  obtain ⟨es, rfl, hprogram, hargs, hrequires⟩ := h
  rw [Document.checker, entries_mapping]
  change (d.optional (lookedUp es) "program" d.string >>= _) = _
  rw [optional_given d (fun _ _ => string_text d) hprogram]
  change (d.optional (lookedUp es) "args" d.strings >>= _) = _
  rw [optional_given d (fun _ _ => strings_texts d) hargs]
  change (d.optional (lookedUp es) "requires" d.string >>= _) = _
  rw [optional_given d (fun _ _ => string_text d) hrequires]
  rfl

/-- A line that says what the settings are is read as these settings, whatever the order of its
entries and the spaces between its lexemes, and however its strings are spelled. -/
theorem settings_line {f : Flow} {s : Settings} (h : MeansSettings f s)
    (hshort : ∀ l ∈ f.lexemes, l.Short) {ls : List (Nat × Lexeme)}
    (hline : ls.map Prod.snd = f.lexemes) (n : Nat) :
    settings (String.ofList (lineChars n ls)) = .ok s := by
  obtain ⟨d, hdocument, hroot⟩ := document_line hshort hline n
  obtain ⟨es, rfl, houtput, hengine, hnaming⟩ := h
  rw [settings, hdocument]
  change (d.entries d.root >>= _) = _
  rw [hroot, entries_mapping]
  change (d.optional (lookedUp es) "output" d.string >>= _) = _
  rw [optional_given d (fun _ _ => string_text d) houtput]
  change (d.optional (lookedUp es) "engine" d.checker >>= _) = _
  rw [optional_given d (fun _ _ => checker_flow d) hengine]
  change (d.optional (lookedUp es) "naming" d.checker >>= _) = _
  rw [optional_given d (fun _ _ => checker_flow d) hnaming]
  rfl

end Settings

section Writing

/-- A string between double quotes. -/
def quotedOf (s : String) : Quoted where
  body := s.toList.flatMap charBody
  text := s.toList
  reads := body_flatMap s.toList
  allowed d hd := by
    obtain ⟨c, -, hc⟩ := List.mem_flatMap.mp hd
    exact isAllowed_charBody c d hc

theorem string_quotedOf (s : String) : (quotedOf s).string = s := String.ofList_toList

/-- The fields of a mapping that have a value. -/
def present (fields : List (String × Option Flow)) : List (Quoted × Flow) :=
  fields.filterMap fun f => f.2.map fun value => (quotedOf f.1, value)

theorem given_append (es es' : List (Quoted × Flow)) (key : String) :
    given (es ++ es') key = given es key ++ given es' key := by
  rw [given, List.filter_append, List.map_append]
  rfl

theorem present_cons (f : String × Option Flow) (fields : List (String × Option Flow)) :
    present (f :: fields) =
      (f.2.map fun value => (quotedOf f.1, value)).toList ++ present fields := by
  obtain ⟨name, value⟩ := f
  cases value <;> rfl

theorem given_field (name key : String) (value : Option Flow) :
    given (value.map fun value => (quotedOf name, value)).toList key =
      if name = key then value.toList else [] := by
  cases value with
  | none => simp [given]
  | some value => by_cases h : name = key <;> simp [given, string_quotedOf, h]

theorem given_present {fields : List (String × Option Flow)} (h : (fields.map Prod.fst).Nodup)
    {key : String} {value : Option Flow} (hmem : (key, value) ∈ fields) :
    given (present fields) key = value.toList := by
  have hother : ∀ fields : List (String × Option Flow), key ∉ fields.map Prod.fst →
      given (present fields) key = [] := by
    intro fields hkey
    induction fields with
    | nil => rfl
    | cons f more ih =>
      rw [List.map_cons, List.mem_cons, not_or] at hkey
      rw [present_cons, given_append, given_field, if_neg (Ne.symm hkey.1), ih hkey.2,
        List.append_nil]
  induction fields with
  | nil => cases hmem
  | cons f more ih =>
    rw [List.map_cons, List.nodup_cons] at h
    rw [present_cons, given_append, given_field]
    rcases List.mem_cons.mp hmem with rfl | hmem
    · rw [if_pos rfl, hother more h.1, List.append_nil]
    · have hne : f.1 ≠ key := fun e => h.1 (List.mem_map.mpr ⟨_, hmem, e.symm⟩)
      rw [if_neg hne, List.nil_append, ih h.2 hmem]

theorem gives_present {α : Type} {means : Flow → α → Prop} {write : α → Flow}
    (hwrite : ∀ a, means (write a) a) {fields : List (String × Option Flow)}
    (h : (fields.map Prod.fst).Nodup) {key : String} {slot : Option α}
    (hmem : (key, slot.map write) ∈ fields) : Gives means (present fields) key slot := by
  have hgiven := given_present h hmem
  cases slot with
  | none => exact hgiven
  | some a => exact ⟨write a, hgiven, hwrite a⟩

def textFlow (s : String) : Flow := .scalar (quotedOf s)

def textsFlow (ss : List String) : Flow := .sequence (ss.map textFlow)

def checkerFields (c : CheckerSettings) : List (String × Option Flow) :=
  [("program", c.program.map textFlow), ("args", c.args.map textsFlow),
    ("requires", c.requires.map textFlow)]

def checkerFlow (c : CheckerSettings) : Flow := .mapping (present (checkerFields c))

def settingsFields (s : Settings) : List (String × Option Flow) :=
  [("output", s.output.map textFlow), ("engine", s.engine.map checkerFlow),
    ("naming", s.naming.map checkerFlow)]

/-- Data for settings. -/
def settingsFlow (s : Settings) : Flow := .mapping (present (settingsFields s))

theorem meansText_textFlow (s : String) : MeansText (textFlow s) s :=
  ⟨quotedOf s, rfl, string_quotedOf s⟩

theorem meansTexts_textsFlow (ss : List String) : MeansTexts (textsFlow ss) ss := by
  refine ⟨ss.map quotedOf, ?_, ?_⟩
  · rw [textsFlow, List.map_map]
    rfl
  · rw [List.map_map]
    exact (List.map_congr_left fun s _ => string_quotedOf s).trans (List.map_id ss)

theorem meansChecker_checkerFlow (c : CheckerSettings) : MeansChecker (checkerFlow c) c := by
  have hnames : ((checkerFields c).map Prod.fst).Nodup :=
    (by decide : ["program", "args", "requires"].Nodup)
  exact ⟨_, rfl, gives_present meansText_textFlow hnames (by simp [checkerFields]),
    gives_present meansTexts_textsFlow hnames (by simp [checkerFields]),
    gives_present meansText_textFlow hnames (by simp [checkerFields])⟩

theorem meansSettings_settingsFlow (s : Settings) : MeansSettings (settingsFlow s) s := by
  have hnames : ((settingsFields s).map Prod.fst).Nodup :=
    (by decide : ["output", "engine", "naming"].Nodup)
  exact ⟨_, rfl, gives_present meansText_textFlow hnames (by simp [settingsFields]),
    gives_present meansChecker_checkerFlow hnames (by simp [settingsFields]),
    gives_present meansChecker_checkerFlow hnames (by simp [settingsFields])⟩

theorem eq_or_of_mem_separated {α : Type} {a x : α} {parts : List (List α)}
    (h : x ∈ separated a parts) : x = a ∨ ∃ p ∈ parts, x ∈ p := by
  cases parts with
  | nil => cases h
  | cons q more =>
    rcases List.mem_append.mp h with h | h
    · exact .inr ⟨q, List.mem_cons_self, h⟩
    · obtain ⟨p, hp, hx⟩ := List.mem_flatMap.mp h
      rcases List.mem_cons.mp hx with hx | hx
      · exact .inl hx
      · exact .inr ⟨p, List.mem_cons_of_mem _ hp, hx⟩

theorem short_collection {parts : List (List Lexeme)} {mapping : Bool}
    (h : ∀ p ∈ parts, ∀ l ∈ p, l.Short) :
    ∀ l ∈ Lexeme.start mapping :: (separated .comma parts ++ [.stop mapping]), l.Short := by
  intro l hl
  rcases List.mem_cons.mp hl with rfl | hl
  · trivial
  · rcases List.mem_append.mp hl with hl | hl
    · rcases eq_or_of_mem_separated hl with rfl | ⟨p, hp, hl⟩
      · trivial
      · exact h p hp l hl
    · rw [List.mem_singleton.mp hl]
      trivial

theorem short_textFlow (s : String) : ∀ l ∈ (textFlow s).lexemes, l.Short := by
  rw [textFlow, Flow.lexemes]
  intro l hl
  rw [List.mem_singleton.mp hl]
  trivial

theorem short_textsFlow (ss : List String) : ∀ l ∈ (textsFlow ss).lexemes, l.Short := by
  rw [textsFlow, Flow.lexemes]
  refine short_collection fun p hp => ?_
  obtain ⟨f, hf, rfl⟩ := List.mem_map.mp hp
  obtain ⟨s, -, rfl⟩ := List.mem_map.mp hf
  exact short_textFlow s

/-- The names of the settings are not too long for keys. -/
theorem short_name {name : String}
    (h : name ∈ ["output", "engine", "naming", "program", "args", "requires"]) :
    (quotedOf name).body.length + 2 ≤ 1024 := by
  have hall : ["output", "engine", "naming", "program", "args", "requires"].all
    (fun name => decide ((quotedOf name).body.length + 2 ≤ 1024)) = true := rfl
  exact of_decide_eq_true (List.all_eq_true.mp hall name h)

theorem short_present {fields : List (String × Option Flow)}
    (hnames : fields.map Prod.fst ⊆
      ["output", "engine", "naming", "program", "args", "requires"])
    (hvalues : ∀ f ∈ fields, ∀ value ∈ f.2, ∀ l ∈ value.lexemes, l.Short) :
    ∀ l ∈ (Flow.mapping (present fields)).lexemes, l.Short := by
  rw [Flow.lexemes]
  refine short_collection fun p hp l hl => ?_
  obtain ⟨e, he, rfl⟩ := List.mem_map.mp hp
  obtain ⟨f, hf, hvalue⟩ := List.mem_filterMap.mp he
  obtain ⟨value, hsome, rfl⟩ := Option.map_eq_some_iff.mp hvalue
  rcases List.mem_cons.mp hl with rfl | hl
  · exact short_name (hnames (List.mem_map_of_mem hf))
  · exact hvalues f hf value hsome l hl

theorem short_checkerFlow (c : CheckerSettings) : ∀ l ∈ (checkerFlow c).lexemes, l.Short := by
  have hnames : (checkerFields c).map Prod.fst ⊆
      ["output", "engine", "naming", "program", "args", "requires"] :=
    (by decide : ["program", "args", "requires"] ⊆ _)
  refine short_present hnames fun f hf value hvalue => ?_
  simp only [checkerFields, List.mem_cons, List.not_mem_nil, or_false] at hf
  obtain rfl | rfl | rfl := hf
  · obtain ⟨s, -, rfl⟩ := Option.map_eq_some_iff.mp hvalue
    exact short_textFlow s
  · obtain ⟨ss, -, rfl⟩ := Option.map_eq_some_iff.mp hvalue
    exact short_textsFlow ss
  · obtain ⟨s, -, rfl⟩ := Option.map_eq_some_iff.mp hvalue
    exact short_textFlow s

theorem short_settingsFlow (s : Settings) : ∀ l ∈ (settingsFlow s).lexemes, l.Short := by
  have hnames : (settingsFields s).map Prod.fst ⊆
      ["output", "engine", "naming", "program", "args", "requires"] :=
    (by decide : ["output", "engine", "naming"] ⊆ _)
  refine short_present hnames fun f hf value hvalue => ?_
  simp only [settingsFields, List.mem_cons, List.not_mem_nil, or_false] at hf
  obtain rfl | rfl | rfl := hf
  · obtain ⟨s, -, rfl⟩ := Option.map_eq_some_iff.mp hvalue
    exact short_textFlow s
  · obtain ⟨c, -, rfl⟩ := Option.map_eq_some_iff.mp hvalue
    exact short_checkerFlow c
  · obtain ⟨c, -, rfl⟩ := Option.map_eq_some_iff.mp hvalue
    exact short_checkerFlow c

/-- All settings can be written on a line and read back. -/
theorem settings_settingsFlow (s : Settings) : settings (String.ofList
    (lineChars 0 ((settingsFlow s).lexemes.map fun l => (0, l)))) = .ok s := by
  refine settings_line (meansSettings_settingsFlow s) (short_settingsFlow s) ?_ 0
  rw [List.map_map]
  exact List.map_id' _

end Writing

end StyleAudit.Yaml
