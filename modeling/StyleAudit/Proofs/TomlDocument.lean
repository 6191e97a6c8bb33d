import StyleAudit.Proofs.TomlReading

/-!
# Reading TOML documents

A document of entries and sections does what its lines do, one after the other, with blank lines and
comments anywhere between them. If no name occurs twice, it leaves a table of its entries and
sections. Main statement: a document that says what the settings are is read as those settings, and
all settings can be written as a document.
-/

namespace StyleAudit.Toml
set_option autoImplicit false

section Keys

/-- A name that can stand as a key without quotes. -/
def IsBare (name : String) : Prop :=
  name.toList ≠ [] ∧ ∀ c ∈ name.toList, isBareKeyChar c = true

theorem not_isBareKeyChar_of_isSpace {c : Char} (h : isSpace c = true) :
    isBareKeyChar c = false := by
  rw [isSpace, Bool.or_eq_true, beq_iff_eq, beq_iff_eq] at h
  rcases h with rfl | rfl <;> rfl

theorem IsBare.stops_isSpace {name : String} (h : IsBare name) (rest : List Char) :
    Text.Stops isSpace (name.toList ++ rest) := by
  intro c hc
  obtain ⟨d, more, hname⟩ := List.exists_cons_of_ne_nil h.1
  rw [hname] at hc
  obtain rfl : d = c := Option.some.inj hc
  have hbare : isBareKeyChar d = true := h.2 d (by simp [hname])
  cases hspace : isSpace d with
  | false => rfl
  | true => rw [not_isBareKeyChar_of_isSpace hspace] at hbare; cases hbare

theorem keyPart_bare {name : String} (h : IsBare name) {rest : List Char}
    (hrest : Text.Stops isBareKeyChar rest) :
    keyPart (name.toList ++ rest) = .ok (name, rest) := by
  obtain ⟨hne, hbare⟩ := h
  have htake := Text.takeWhile_run hbare hrest
  obtain ⟨c, more, hname⟩ := List.exists_cons_of_ne_nil hne
  have hc : isBareKeyChar c = true := hbare c (by simp [hname])
  have hquote : c ≠ '"' := by
    rintro rfl
    cases hc
  have hapostrophe : c ≠ '\x27' := by
    rintro rfl
    cases hc
  have hmatch : keyPart (name.toList ++ rest) = .ok
      (String.ofList ((name.toList ++ rest).takeWhile isBareKeyChar),
        (name.toList ++ rest).drop ((name.toList ++ rest).takeWhile isBareKeyChar).length) := by
    have hempty : (name.toList ++ rest).takeWhile isBareKeyChar ≠ [] := by
      rw [htake]
      exact hne
    rw [hname] at hempty ⊢
    unfold keyPart
    rw [get_bind, List.cons_append] at *
    simp [hquote, hapostrophe, hempty]
    rfl
  rw [hmatch, htake, List.drop_left, String.ofList_toList]

theorem key_bare {name : String} (h : IsBare name) {blanks rest : List Char}
    (hblanks : ∀ c ∈ blanks, isSpace c = true)
    (hrest : ∀ c ∈ rest.head?, c ≠ '.' ∧ isSpace c = false ∧ isBareKeyChar c = false) :
    key (name.toList ++ (blanks ++ rest)) = .ok ([name], rest) := by
  have hstart : Text.Stops isSpace (name.toList ++ (blanks ++ rest)) := h.stops_isSpace _
  have hname : Text.Stops isBareKeyChar (blanks ++ rest) := by
    intro c hc
    cases blanks with
    | nil => exact (hrest c hc).2.2
    | cons b more =>
      obtain rfl : b = c := Option.some.inj hc
      exact not_isBareKeyChar_of_isSpace (hblanks b List.mem_cons_self)
  have hdot : ¬".".toList <+: rest := by
    rintro ⟨more, rfl⟩
    exact (hrest '.' rfl).1 rfl
  unfold key
  rw [bind_ok (skipSpaces_settled hstart), bind_ok (keyPart_bare h hname), get_bind, keyParts,
    bind_ok (skipSpaces_run hblanks fun c hc => (hrest c hc).2.1), accept_bind_false hdot]
  rfl

end Keys

/-- A value in a document of settings. -/
inductive Datum where
  | text (s : String)
  | texts (ss : List String)

def Datum.value : Datum → Value
  | .text s => .string s
  | .texts ss => .array false (ss.map .string)

def Datum.chars : Datum → List Char
  | .text s => stringChars s
  | .texts ss => '[' :: (itemChars ss ++ [']'])

/-- A line of a document. -/
inductive Line where
  | entry (name : String) (datum : Datum)
  | header (name : String)

namespace Line

def name : Line → String
  | .entry name _ => name
  | .header name => name

def chars : Line → List Char
  | .entry name datum => name.toList ++ " = ".toList ++ datum.chars ++ ['\n']
  | .header name => '[' :: (name.toList ++ [']', '\n'])

/-- What a line does to the document before it. -/
def apply (d : Draft) : Line → Except String Draft
  | .entry name datum => d.change (within (enter false name datum.value) d.header)
  | .header name => (d.change (openTable name)).map fun d => { d with header := [name] }

end Line

/-- The lines of a document, each after blank lines and comments, and what stands after the last. -/
def documentChars (lines : List (List Char × Line)) (last : List Char) : List Char :=
  lines.flatMap (fun l => l.1 ++ l.2.chars) ++ last

theorem endLine_newline (rest : List Char) : endLine ('\n' :: rest) = .ok ((), rest) := rfl

theorem length_le_itemChars (ss : List String) : ss.length ≤ (itemChars ss).length := by
  induction ss with
  | nil => exact Nat.le_refl _
  | cons s more ih =>
    cases more with
    | nil => simp [itemChars, stringChars]
    | cons next more =>
      simp only [itemChars, List.length_append, List.length_cons] at ih ⊢
      omega

theorem value_datum (datum : Datum) {rest : List Char} (hrest : ∀ c ∈ rest.head?, c ≠ '"')
    {fuel depth : Nat} (hfuel : (datum.chars ++ rest).length < fuel) (hdepth : depth < maxDepth) :
    value fuel depth (datum.chars ++ rest) = .ok (datum.value, rest) := by
  obtain ⟨fuel, rfl⟩ : ∃ n, fuel = n + 1 := Nat.exists_eq_add_one.mpr (Nat.zero_lt_of_lt hfuel)
  cases datum with
  | text s => exact value_string s hrest fuel (Nat.le_of_lt hdepth)
  | texts ss =>
    have hitems : ss.length < fuel := by
      have hle := length_le_itemChars ss
      simp only [Datum.chars, List.length_append, List.length_cons] at hfuel
      omega
    have hchars : (Datum.texts ss).chars ++ rest = '[' :: (itemChars ss ++ ']' :: rest) := by
      simp [Datum.chars]
    rw [hchars]
    exact value_strings ss rest hitems hdepth

theorem stops_datum (datum : Datum) (rest : List Char) :
    Text.Stops isSpace (datum.chars ++ rest) := by
  cases datum <;> simp [Text.Stops, Datum.chars, stringChars, isSpace]

theorem entryLine_eq {name : String} (h : IsBare name) (datum : Datum) (d : Draft)
    (rest : List Char) : entryLine d ((Line.entry name datum).chars ++ rest) =
      ((Line.entry name datum).apply d).map fun d => (d, rest) := by
  have hchars : (Line.entry name datum).chars ++ rest =
      name.toList ++ ([' '] ++ ('=' :: ([' '] ++ (datum.chars ++ '\n' :: rest)))) := by
    simp [Line.chars]
  have hblank : ∀ c ∈ [' '], isSpace c = true := by simp [isSpace]
  rw [hchars]
  unfold entryLine
  rw [bind_ok (key_bare h hblank (by simp [isSpace, isBareKeyChar]))]
  dsimp only [splitKey]
  rw [bind_ok (skipSpaces_settled (by simp [Text.Stops, isSpace]))]
  refine (bind_ok (expect_append "=" _)).trans ?_
  refine (bind_ok (skipSpaces_run hblank (stops_datum datum _))).trans ?_
  rw [get_bind, bind_ok (value_datum datum (by simp) (Nat.lt_succ_self _) (by decide)),
    bind_ok (endLine_newline rest)]
  have hplace : descend true
      (enter (!([name].dropLast).isEmpty) ([name].getLast?.getD "") datum.value)
      [name].dropLast = enter false name datum.value := rfl
  rw [Line.apply, hplace]
  cases d.change (within (enter false name datum.value) d.header) <;> rfl

theorem headerLine_eq {name : String} (h : IsBare name) (d : Draft)
    (rest : List Char) : headerLine d (name.toList ++ [']', '\n'] ++ rest) =
      ((Line.header name).apply d).map fun d => (d, rest) := by
  have hchars : name.toList ++ [']', '\n'] ++ rest =
      name.toList ++ ([] ++ (']' :: '\n' :: rest)) := by simp
  have hopen : ¬"[".toList <+: name.toList ++ ([] ++ (']' :: '\n' :: rest)) := by
    obtain ⟨c, more, hname⟩ := List.exists_cons_of_ne_nil h.1
    rw [hname, List.cons_append]
    refine not_prefix_cons (d := '[') rfl ?_
    rintro rfl
    have hbare : isBareKeyChar '[' = true := h.2 '[' (by simp [hname])
    cases hbare
  rw [hchars]
  unfold headerLine
  rw [bind_ok (accept_of_absent hopen),
    bind_ok (key_bare h (by simp) (by simp [isSpace, isBareKeyChar])),
    bind_ok (skipSpaces_settled (by simp [Text.Stops, isSpace]))]
  refine (bind_ok (expect_append "]" _)).trans ?_
  simp only [Bool.false_eq_true, if_false]
  rw [bind_ok (endLine_newline rest)]
  have hplace : descend false (openTable (splitKey [name]).2) (splitKey [name]).1 =
      openTable name := rfl
  rw [Line.apply, hplace]
  cases d.change (openTable name) <;> rfl

theorem not_isSpace_of_isBareKeyChar {c : Char} (h : isBareKeyChar c = true) :
    c ≠ ' ' ∧ c ≠ '\t' ∧ c ≠ '#' ∧ c ≠ '\n' ∧ c ≠ '\r' ∧ c ≠ '[' ∧ c ≠ '\uFEFF' := by
  refine ⟨?_, ?_, ?_, ?_, ?_, ?_, ?_⟩ <;> rintro rfl <;> cases h

theorem exists_bare_head {name : String} (h : IsBare name) :
    ∃ c more, name.toList = c :: more ∧ isBareKeyChar c = true := by
  obtain ⟨c, more, hname⟩ := List.exists_cons_of_ne_nil h.1
  exact ⟨c, more, hname, h.2 c (by simp [hname])⟩

theorem settled_line {line : Line} (h : IsBare line.name) (rest : List Char) :
    Settled (line.chars ++ rest) := by
  cases line with
  | header name => exact settled_cons _ (by decide)
  | entry name datum =>
    obtain ⟨c, more, hname, hc⟩ := exists_bare_head h
    obtain ⟨hspace, htab, hmark, hfeed, hreturn, -⟩ := not_isSpace_of_isBareKeyChar hc
    have hname : name.toList = c :: more := hname
    rw [Line.chars, hname]
    exact settled_cons _ ⟨hspace, htab, hmark, hfeed, hreturn⟩

theorem documentLines_line {line : Line} (h : IsBare line.name) {gap : List Char} (hgap : Gap gap)
    (fuel : Nat) (d : Draft) (rest : List Char) :
    documentLines (fuel + 1) d (gap ++ (line.chars ++ rest)) =
      (line.apply d).bind fun d => documentLines fuel d rest := by
  have hskip : skipLines ((gap ++ (line.chars ++ rest)).length + 1) (gap ++ (line.chars ++ rest)) =
      .ok ((), line.chars ++ rest) := by
    refine skipLines_gap hgap (settled_line h rest) ?_
    rw [List.length_append]
    omega
  rw [documentLines, get_bind, bind_ok hskip, get_bind]
  cases line with
  | entry name datum =>
    obtain ⟨c, more, hname, hc⟩ := exists_bare_head h
    have hname : name.toList = c :: more := hname
    have hempty : ((Line.entry name datum).chars ++ rest).isEmpty = false := by
      simp [Line.chars, hname]
    have hopen : ¬"[".toList <+: (Line.entry name datum).chars ++ rest := by
      rw [Line.chars, hname]
      exact not_prefix_cons (d := '[') rfl (not_isSpace_of_isBareKeyChar hc).2.2.2.2.2.1.symm
    rw [hempty, if_neg Bool.false_ne_true, accept_bind_false hopen]
    exact bind_of_map (entryLine_eq h datum d rest) _
  | header name =>
    have hchars : (Line.header name).chars ++ rest =
        "[".toList ++ (name.toList ++ [']', '\n'] ++ rest) := by simp [Line.chars]
    rw [hchars]
    change (accept "[" >>= fun _ => _) _ = _
    rw [accept_bind_true]
    exact bind_of_map (headerLine_eq h d rest) _

theorem documentLines_end {gap : List Char} (hgap : Gap gap) (fuel : Nat) (d : Draft) :
    documentLines (fuel + 1) d gap = .ok (d, []) := by
  have hskip : skipLines (gap.length + 1) gap = .ok ((), []) := by
    have hnil : Settled [] := by simp [Settled]
    have hend := skipLines_gap hgap hnil (Nat.le_succ gap.length)
    rwa [List.append_nil] at hend
  rw [documentLines, get_bind, bind_ok hskip, get_bind]
  rfl

theorem documentChars_cons (l : List Char × Line) (lines : List (List Char × Line))
    (last : List Char) :
    documentChars (l :: lines) last = l.1 ++ (l.2.chars ++ documentChars lines last) := by
  simp [documentChars]

theorem documentLines_document {lines : List (List Char × Line)} {last : List Char}
    (hgap : ∀ l ∈ lines, Gap l.1) (hlast : Gap last) (hname : ∀ l ∈ lines, IsBare l.2.name)
    {fuel : Nat} (hfuel : lines.length < fuel) (d : Draft) :
    documentLines fuel d (documentChars lines last) =
      ((lines.map Prod.snd).foldlM Line.apply d).map fun d => (d, []) := by
  obtain ⟨fuel, rfl⟩ : ∃ n, fuel = n + 1 := Nat.exists_eq_add_one.mpr (Nat.zero_lt_of_lt hfuel)
  induction lines generalizing fuel d with
  | nil => exact documentLines_end hlast fuel d
  | cons l rest ih =>
    obtain ⟨fuel, rfl⟩ : ∃ n, fuel = n + 1 := Nat.exists_eq_add_one.mpr (by
      rw [List.length_cons] at hfuel
      omega)
    have hrest : ∀ d, documentLines (fuel + 1) d (documentChars rest last) =
        ((rest.map Prod.snd).foldlM Line.apply d).map fun d => (d, []) := fun d =>
      ih (fun l hl => hgap l (List.mem_cons_of_mem _ hl))
        (fun l hl => hname l (List.mem_cons_of_mem _ hl)) d fuel (Nat.lt_of_succ_lt_succ hfuel)
    rw [documentChars_cons, documentLines_line (hname l List.mem_cons_self)
      (hgap l List.mem_cons_self), List.map_cons, List.foldlM_cons]
    simp only [hrest]
    cases l.2.apply d <;> rfl

/-- No byte order mark is in front. -/
def Unmarked (cs : List Char) : Prop := ∀ c ∈ cs.head?, c ≠ '\uFEFF'

theorem unmarked_blanks {blanks rest : List Char} (h : ∀ c ∈ blanks, isSpace c = true)
    (hrest : Unmarked rest) : Unmarked (blanks ++ rest) := by
  cases blanks with
  | nil => exact hrest
  | cons b more =>
    rintro _ ⟨⟩ rfl
    cases h '\uFEFF' List.mem_cons_self

theorem unmarked_gap {gap : List Char} (h : Gap gap) {rest : List Char} (hrest : Unmarked rest) :
    Unmarked (gap ++ rest) := by
  cases h with
  | nil => exact hrest
  | blank hblanks _ =>
    rw [List.append_assoc]
    exact unmarked_blanks hblanks (by rintro _ ⟨⟩; decide)
  | comment hblanks _ _ =>
    rw [List.append_assoc]
    exact unmarked_blanks hblanks (by rintro _ ⟨⟩; decide)

theorem unmarked_document {lines : List (List Char × Line)} {last : List Char}
    (hgap : ∀ l ∈ lines, Gap l.1) (hlast : Gap last) (hname : ∀ l ∈ lines, IsBare l.2.name) :
    Unmarked (documentChars lines last) := by
  cases lines with
  | nil =>
    have hnil : Unmarked [] := by simp [Unmarked]
    have hmark := unmarked_gap hlast hnil
    rwa [List.append_nil] at hmark
  | cons l rest =>
    rw [documentChars_cons]
    refine unmarked_gap (hgap l List.mem_cons_self) ?_
    cases hline : l.2 with
    | header name => rintro _ ⟨⟩; decide
    | entry name datum =>
      have hbare := hname l List.mem_cons_self
      rw [hline] at hbare
      obtain ⟨c, more, hchars, hc⟩ := exists_bare_head hbare
      have hchars : name.toList = c :: more := hchars
      rw [Line.chars, hchars]
      rintro _ ⟨⟩
      exact (not_isSpace_of_isBareKeyChar hc).2.2.2.2.2.2

theorem length_le_documentChars (lines : List (List Char × Line)) (last : List Char) :
    lines.length ≤ (documentChars lines last).length := by
  induction lines with
  | nil => exact Nat.zero_le _
  | cons l rest ih =>
    have hline : 0 < l.2.chars.length := by cases l.2 <;> simp [Line.chars]
    rw [documentChars_cons, List.length_cons, List.length_append, List.length_append]
    omega

/-- A document does what its lines do, one after the other; blank lines and comments do nothing. -/
theorem parse_document {lines : List (List Char × Line)} {last : List Char}
    (hgap : ∀ l ∈ lines, Gap l.1) (hlast : Gap last) (hname : ∀ l ∈ lines, IsBare l.2.name) :
    parse (String.ofList (documentChars lines last)) =
      ((lines.map Prod.snd).foldlM Line.apply {}).map Draft.entries := by
  have hmark : ¬((documentChars lines last).head? == some '\uFEFF') = true := by
    intro h
    exact unmarked_document hgap hlast hname '\uFEFF' (beq_iff_eq.mp h) rfl
  have hrun : (documentLines ((documentChars lines last).length + 1) {}).run
      (documentChars lines last) = _ := documentLines_document hgap hlast hname
    (Nat.lt_succ_of_le (length_le_documentChars lines last)) {}
  unfold parse
  simp only [String.toList_ofList, if_neg hmark]
  rw [hrun]
  cases (lines.map Prod.snd).foldlM Line.apply {} <;> rfl

/-- A document: entries in front, and named sections with entries of their own. -/
structure Document where
  top : List (String × Datum)
  sections : List (String × List (String × Datum))

namespace Document

def entryLines (fields : List (String × Datum)) : List Line := fields.map fun f => .entry f.1 f.2

def lines (doc : Document) : List Line :=
  entryLines doc.top ++ doc.sections.flatMap fun s => .header s.1 :: entryLines s.2

/-- No name occurs twice in the same place. -/
structure Distinct (doc : Document) : Prop where
  names : (doc.top.map Prod.fst ++ doc.sections.map Prod.fst).Nodup
  fields : ∀ s ∈ doc.sections, (s.2.map Prod.fst).Nodup

end Document

def fieldEntries (fields : List (String × Datum)) : Entries := fields.map fun f => (f.1, f.2.value)

theorem lookup_cons (key : String) (e : String × Value) (rest : Entries) :
    lookup key (e :: rest) = if e.1 = key then some e.2 else lookup key rest := by
  rw [lookup, List.find?_cons]
  by_cases hkey : e.1 = key
  · simp [hkey]
  · have hother : (e.1 == key) = false := by simpa using hkey
    rw [if_neg hkey, hother]
    rfl

theorem lookup_append (key : String) (entries more : Entries) :
    lookup key (entries ++ more) = (lookup key entries).or (lookup key more) := by
  simp only [lookup, List.find?_append, Option.map_or]

theorem lookup_map {α : Type} (view : α → Value) (key : String) (fields : List (String × α)) :
    lookup key (fields.map fun f => (f.1, view f.2)) = (fields.lookup key).map view := by
  induction fields with
  | nil => rfl
  | cons f rest ih =>
    rw [List.map_cons, lookup_cons, List.lookup_cons]
    by_cases hkey : f.1 = key
    · simp [hkey]
    · have hother : (key == f.1) = false := by simpa using Ne.symm hkey
      rw [if_neg hkey, hother]
      exact ih

theorem lookup_eq_none_iff (key : String) (entries : Entries) :
    lookup key entries = none ↔ key ∉ entries.map Prod.fst := by
  induction entries with
  | nil => simp [lookup]
  | cons e rest ih =>
    rw [lookup_cons, List.map_cons, List.mem_cons, not_or]
    by_cases hkey : e.1 = key
    · simp [hkey]
    · simp [hkey, Ne.symm hkey, ih]

theorem put_of_lookup_eq_none {key : String} {entries : Entries} (h : lookup key entries = none)
    (v : Value) : put key v entries = entries ++ [(key, v)] := by
  induction entries with
  | nil => rfl
  | cons e rest ih =>
    rw [lookup_cons] at h
    split at h
    · cases h
    · next hkey =>
      have hother : ¬(e.1 == key) = true := by simpa using hkey
      rw [put, if_neg hother, ih h]
      rfl

theorem put_last {key : String} {entries : Entries} (h : lookup key entries = none) (v w : Value) :
    put key w (entries ++ [(key, v)]) = entries ++ [(key, w)] := by
  induction entries with
  | nil => simp [put]
  | cons e rest ih =>
    rw [lookup_cons] at h
    split at h
    · cases h
    · next hkey =>
      have hother : ¬(e.1 == key) = true := by simpa using hkey
      rw [List.cons_append, put, if_neg hother, ih h]
      rfl

theorem enter_new {key : String} {entries : Entries} (h : lookup key entries = none)
    (v : Value) (o : Origin) : enter false key v o entries = .ok (o, entries ++ [(key, v)]) := by
  rw [enter, h, put_of_lookup_eq_none h]
  rfl

theorem apply_top {fields : List (String × Datum)} {entries : Entries}
    (hnodup : (entries.map Prod.fst ++ fields.map Prod.fst).Nodup) :
    (Document.entryLines fields).foldlM Line.apply { entries } =
      .ok { entries := entries ++ fieldEntries fields } := by
  induction fields generalizing entries with
  | nil =>
    rw [fieldEntries, List.map_nil, List.append_nil]
    rfl
  | cons f rest ih =>
    have hnew : lookup f.1 entries = none := by
      rw [lookup_eq_none_iff]
      intro hmem
      exact (List.nodup_append.mp hnodup).2.2 f.1 hmem f.1 (by simp) rfl
    have happly : Line.apply { entries } (.entry f.1 f.2) =
        .ok { entries := entries ++ [(f.1, f.2.value)] } := by
      rw [Line.apply, Draft.change, within, enter_new hnew]
      rfl
    rw [Document.entryLines, List.map_cons, List.foldlM_cons, happly]
    refine (ih ?_).trans ?_
    · simpa using hnodup
    · rw [fieldEntries, fieldEntries, List.map_cons, List.append_assoc]
      rfl

theorem apply_fields {name : String} {fields : List (String × Datum)} {entries done : Entries}
    (hnew : lookup name entries = none)
    (hnodup : (done.map Prod.fst ++ fields.map Prod.fst).Nodup) :
    (Document.entryLines fields).foldlM Line.apply
        { entries := entries ++ [(name, .table .header done)], header := [name] } =
      .ok { entries := entries ++ [(name, .table .header (done ++ fieldEntries fields))],
            header := [name] } := by
  induction fields generalizing done with
  | nil =>
    rw [fieldEntries, List.map_nil, List.append_nil]
    rfl
  | cons f rest ih =>
    have hfield : lookup f.1 done = none := by
      rw [lookup_eq_none_iff]
      intro hmem
      exact (List.nodup_append.mp hnodup).2.2 f.1 hmem f.1 (by simp) rfl
    have happly : Line.apply { entries := entries ++ [(name, .table .header done)],
                               header := [name] } (.entry f.1 f.2) =
        .ok { entries := entries ++ [(name, .table .header (done ++ [(f.1, f.2.value)]))],
              header := [name] } := by
      have hlookup : lookup name (entries ++ [(name, .table .header done)]) =
          some (.table .header done) := by
        rw [lookup_append, hnew, lookup_cons, if_pos rfl, Option.none_or]
      rw [Line.apply, Draft.change, within, hlookup]
      simp only [within, enter_new hfield]
      change Except.ok _ = _
      rw [put_last hnew]
    rw [Document.entryLines, List.map_cons, List.foldlM_cons, happly]
    refine (ih ?_).trans ?_
    · simpa using hnodup
    · rw [fieldEntries, fieldEntries, List.map_cons, List.append_assoc]
      rfl

theorem apply_section {name : String} {fields : List (String × Datum)} {d : Draft}
    (hnew : lookup name d.entries = none) (hnodup : (fields.map Prod.fst).Nodup) :
    (Line.header name :: Document.entryLines fields).foldlM Line.apply d =
      .ok { entries := d.entries ++ [(name, .table .header (fieldEntries fields))],
            header := [name] } := by
  have happly : Line.apply d (.header name) =
      .ok { entries := d.entries ++ [(name, .table .header [])], header := [name] } := by
    rw [Line.apply, Draft.change, openTable, hnew]
    simp only [put_of_lookup_eq_none hnew]
    rfl
  rw [List.foldlM_cons, happly]
  exact apply_fields hnew (by simpa using hnodup)

/-- The entries that a document leaves. -/
def Document.entries (doc : Document) : Entries :=
  fieldEntries doc.top ++ doc.sections.map fun s => (s.1, .table .header (fieldEntries s.2))

theorem map_fst_fieldEntries (fields : List (String × Datum)) :
    (fieldEntries fields).map Prod.fst = fields.map Prod.fst := by
  rw [fieldEntries, List.map_map]
  rfl

theorem apply_sections {sections : List (String × List (String × Datum))} {d : Draft}
    (hnames : (d.entries.map Prod.fst ++ sections.map Prod.fst).Nodup)
    (hfields : ∀ s ∈ sections, (s.2.map Prod.fst).Nodup) :
    ((sections.flatMap fun s => .header s.1 :: Document.entryLines s.2).foldlM Line.apply d).map
        Draft.entries =
      .ok (d.entries ++ sections.map fun s => (s.1, .table .header (fieldEntries s.2))) := by
  induction sections generalizing d with
  | nil =>
    rw [List.map_nil, List.append_nil]
    rfl
  | cons s rest ih =>
    have hnew : lookup s.1 d.entries = none := by
      rw [lookup_eq_none_iff]
      intro hmem
      exact (List.nodup_append.mp hnames).2.2 s.1 hmem s.1 (by simp) rfl
    rw [List.flatMap_cons, List.foldlM_append, apply_section hnew (hfields s List.mem_cons_self)]
    refine (ih ?_ fun t ht => hfields t (List.mem_cons_of_mem _ ht)).trans ?_
    · simpa using hnames
    · rw [List.map_cons, List.append_assoc]
      rfl

theorem apply_document {doc : Document} (h : doc.Distinct) :
    (doc.lines.foldlM Line.apply {}).map Draft.entries = .ok doc.entries := by
  have htop : (Document.entryLines doc.top).foldlM Line.apply {} =
      .ok { entries := [] ++ fieldEntries doc.top } :=
    apply_top (by simpa using (List.nodup_append.mp h.names).1)
  rw [Document.lines, List.foldlM_append, htop]
  refine (apply_sections ?_ h.fields).trans rfl
  rw [List.nil_append, map_fst_fieldEntries]
  exact h.names

section Settings

/-- Entries that say what the settings of a checker are. Other names may stand among them. -/
structure SaysChecker (fields : List (String × Datum)) (c : CheckerSettings) : Prop where
  program : fields.lookup "program" = c.program.map .text
  args : fields.lookup "args" = c.args.map .texts
  requires : fields.lookup "requires" = c.requires.map .text

/-- A section with the settings of a checker, or no section of that name. -/
def SaysSection (doc : Document) (name : String) : Option CheckerSettings → Prop
  | none => doc.sections.lookup name = none
  | some c => ∃ fields, doc.sections.lookup name = some fields ∧ SaysChecker fields c

/-- A document that says what the settings are. -/
structure Document.Says (doc : Document) (s : Settings) : Prop where
  output : doc.top.lookup "output" = s.output.map .text
  /-- The names have no other meaning. -/
  apart : doc.sections.lookup "output" = none ∧ doc.top.lookup "engine" = none ∧
    doc.top.lookup "naming" = none
  engine : SaysSection doc "engine" s.engine
  naming : SaysSection doc "naming" s.naming

theorem lookup_entries (doc : Document) (key : String) : lookup key doc.entries =
    ((doc.top.lookup key).map Datum.value).or
      ((doc.sections.lookup key).map fun fields => .table .header (fieldEntries fields)) := by
  have hsections := lookup_map (fun fields => .table .header (fieldEntries fields)) key doc.sections
  rw [Document.entries, lookup_append, hsections, fieldEntries, lookup_map]

theorem optional_text {entries : Entries} {key : String} {slot : Option String}
    (h : lookup key entries = (slot.map Datum.text).map Datum.value) :
    optional entries key stringOf = .ok slot := by
  rw [optional, h]
  cases slot <;> rfl

theorem stringsOf_strings (ofTables : Bool) (ss : List String) :
    stringsOf (.array ofTables (ss.map .string)) = .ok ss := by
  rw [stringsOf]
  induction ss with
  | nil => rfl
  | cons s rest ih =>
    rw [List.map_cons, List.mapM_cons, ih]
    rfl

theorem optional_texts {entries : Entries} {key : String} {slot : Option (List String)}
    (h : lookup key entries = (slot.map Datum.texts).map Datum.value) :
    optional entries key stringsOf = .ok slot := by
  rw [optional, h]
  cases slot with
  | none => rfl
  | some ss =>
    change (stringsOf (.array false (ss.map .string))).map some = _
    rw [stringsOf_strings]
    rfl

theorem checkerOf_fields {fields : List (String × Datum)} {c : CheckerSettings}
    (h : SaysChecker fields c) : checkerOf (.table .header (fieldEntries fields)) = .ok c := by
  have hlookup : ∀ key, lookup key (fieldEntries fields) = (fields.lookup key).map Datum.value :=
    fun key => lookup_map Datum.value key fields
  rw [checkerOf, optional_text ((hlookup _).trans (congrArg _ h.program)),
    optional_texts ((hlookup _).trans (congrArg _ h.args)),
    optional_text ((hlookup _).trans (congrArg _ h.requires))]
  rfl

theorem optional_checker {doc : Document} {name : String} {slot : Option CheckerSettings}
    (hmeans : SaysSection doc name slot) (htop : doc.top.lookup name = none) :
    optional doc.entries name checkerOf = .ok slot := by
  rw [optional, lookup_entries, htop]
  cases slot with
  | none =>
    have hnone : doc.sections.lookup name = none := hmeans
    rw [hnone]
    rfl
  | some c =>
    obtain ⟨fields, hfields, hchecker⟩ := hmeans
    rw [hfields]
    change (checkerOf (.table .header (fieldEntries fields))).map some = _
    rw [checkerOf_fields hchecker]
    rfl

/-- A document is read as the settings it says, whatever the order of its sections and entries, with
blank lines and comments anywhere between its lines. -/
theorem settings_document {doc : Document} {s : Settings} (hdistinct : doc.Distinct)
    (hmeans : doc.Says s) {lines : List (List Char × Line)}
    (hlines : lines.map Prod.snd = doc.lines) {last : List Char} (hgap : ∀ l ∈ lines, Gap l.1)
    (hlast : Gap last)
    (hname : ∀ l ∈ lines, IsBare l.2.name) :
    settings (String.ofList (documentChars lines last)) = .ok s := by
  obtain ⟨hnooutput, hnoengine, hnonaming⟩ := hmeans.apart
  have houtput : lookup "output" doc.entries = (s.output.map Datum.text).map Datum.value := by
    rw [lookup_entries, hnooutput, hmeans.output, Option.map_none, Option.or_none]
  rw [settings, parse_document hgap hlast hname, hlines, apply_document hdistinct]
  change (optional doc.entries "output" stringOf >>= fun _ => _) = _
  rw [optional_text houtput]
  change (optional doc.entries "engine" checkerOf >>= fun _ => _) = _
  rw [optional_checker hmeans.engine hnoengine]
  change (optional doc.entries "naming" checkerOf >>= fun _ => _) = _
  rw [optional_checker hmeans.naming hnonaming]
  rfl

def checkerFields (c : CheckerSettings) : List (String × Datum) :=
  (c.program.map fun s => ("program", .text s)).toList ++
    (c.args.map fun ss => ("args", .texts ss)).toList ++
      (c.requires.map fun s => ("requires", .text s)).toList

/-- A document for settings. -/
def Document.ofSettings (s : Settings) : Document where
  top := (s.output.map fun o => ("output", .text o)).toList
  sections := (s.engine.map fun c => ("engine", checkerFields c)).toList ++
    (s.naming.map fun c => ("naming", checkerFields c)).toList

theorem saysChecker_checkerFields (c : CheckerSettings) : SaysChecker (checkerFields c) c := by
  obtain ⟨program, args, requires⟩ := c
  cases program <;> cases args <;> cases requires <;> exact ⟨rfl, rfl, rfl⟩

theorem checkerFields_names (c : CheckerSettings) :
    ((checkerFields c).map Prod.fst).Sublist ["program", "args", "requires"] := by
  obtain ⟨program, args, requires⟩ := c
  cases program <;> cases args <;> cases requires <;> simp [checkerFields]

theorem ofSettings_names (s : Settings) :
    ((Document.ofSettings s).top.map Prod.fst ++
      (Document.ofSettings s).sections.map Prod.fst).Sublist ["output", "engine", "naming"] := by
  obtain ⟨output, engine, naming⟩ := s
  cases output <;> cases engine <;> cases naming <;> simp [Document.ofSettings]

theorem exists_of_mem_sections {s : Settings} {part : String × List (String × Datum)}
    (h : part ∈ (Document.ofSettings s).sections) : ∃ c, part.2 = checkerFields c := by
  rcases List.mem_append.mp h with h | h
  · obtain ⟨c, -, rfl⟩ := Option.map_eq_some_iff.mp (Option.mem_toList.mp h)
    exact ⟨c, rfl⟩
  · obtain ⟨c, -, rfl⟩ := Option.map_eq_some_iff.mp (Option.mem_toList.mp h)
    exact ⟨c, rfl⟩

theorem distinct_ofSettings (s : Settings) : (Document.ofSettings s).Distinct where
  names := (ofSettings_names s).nodup (by decide)
  fields part hpart := by
    obtain ⟨c, hc⟩ := exists_of_mem_sections hpart
    rw [hc]
    exact (checkerFields_names c).nodup (by decide)

theorem says_ofSettings (s : Settings) : (Document.ofSettings s).Says s := by
  obtain ⟨output, engine, naming⟩ := s
  have hchecker := saysChecker_checkerFields
  constructor
  · cases output <;> rfl
  · cases output <;> cases engine <;> cases naming <;> exact ⟨rfl, rfl, rfl⟩
  · cases engine with
    | none => cases naming <;> rfl
    | some c => exact ⟨_, rfl, hchecker c⟩
  · cases naming with
    | none => cases engine <;> rfl
    | some c => cases engine <;> exact ⟨_, rfl, hchecker c⟩

theorem isBare_of_mem {name : String}
    (h : name ∈ ["output", "engine", "naming", "program", "args", "requires"]) : IsBare name := by
  have hall : ["output", "engine", "naming", "program", "args", "requires"].all (fun name =>
      !name.toList.isEmpty && name.toList.all isBareKeyChar) = true := rfl
  have hname := List.all_eq_true.mp hall name h
  rw [Bool.and_eq_true, Bool.not_eq_true', List.isEmpty_eq_false_iff] at hname
  exact ⟨hname.1, List.all_eq_true.mp hname.2⟩

theorem isBare_of_mem_ofSettings {s : Settings} {line : Line}
    (h : line ∈ (Document.ofSettings s).lines) : IsBare line.name := by
  have houter : ∀ name ∈ (Document.ofSettings s).top.map Prod.fst ++
      (Document.ofSettings s).sections.map Prod.fst, IsBare name := fun name hname =>
    isBare_of_mem (List.mem_append_left _ ((ofSettings_names s).subset hname) : name ∈
      ["output", "engine", "naming"] ++ ["program", "args", "requires"])
  rcases List.mem_append.mp h with h | h
  · obtain ⟨f, hf, rfl⟩ := List.mem_map.mp h
    exact houter f.1 (List.mem_append_left _ (List.mem_map_of_mem hf))
  · obtain ⟨part, hpart, hline⟩ := List.mem_flatMap.mp h
    rcases List.mem_cons.mp hline with rfl | hline
    · exact houter part.1 (List.mem_append_right _ (List.mem_map_of_mem hpart))
    · obtain ⟨c, hc⟩ := exists_of_mem_sections hpart
      obtain ⟨f, hf, rfl⟩ := List.mem_map.mp hline
      rw [hc] at hf
      have hname := (checkerFields_names c).subset (List.mem_map_of_mem hf)
      exact isBare_of_mem (List.mem_append_right ["output", "engine", "naming"] hname)

/-- All settings can be written down and read back. -/
theorem settings_ofSettings (s : Settings) : settings (String.ofList
    (documentChars ((Document.ofSettings s).lines.map fun line => ([], line)) [])) = .ok s := by
  refine settings_document (distinct_ofSettings s) (says_ofSettings s) ?_ ?_ .nil ?_
  · rw [List.map_map]
    exact List.map_id' _
  · intro l hl
    obtain ⟨line, -, rfl⟩ := List.mem_map.mp hl
    exact .nil
  · intro l hl
    obtain ⟨line, hline, rfl⟩ := List.mem_map.mp hl
    exact isBare_of_mem_ofSettings hline

end Settings

end StyleAudit.Toml
