import Mathlib.Data.List.Basic
import StyleAudit.Toml.Settings
import StyleAudit.Proofs.Readers
import StyleAudit.Proofs.Text

/-!
# Reading TOML values

A basic string is read exactly when its characters stand for themselves or belong to an escape, up
to the closing quote. Every text can be written in this form, and so can a list of texts as an
array. Blank lines and comments in front of a value or a line are passed over.
-/

namespace StyleAudit.Toml
set_option autoImplicit false

section Strings

/-- The letter after a backslash and the character it stands for. -/
def shortEscapes : List (Char × Char) :=
  [('b', '\x08'), ('t', '\t'), ('n', '\n'), ('f', '\x0c'), ('r', '\r'), ('e', '\x1b'), ('"', '"'),
    ('\\', '\\')]

/-- The letter after a backslash and the number of digits it announces. -/
def numberedEscapes : List (Char × Nat) := [('x', 2), ('u', 4), ('U', 8)]

/-- What stands after a backslash, and the character it is read as. -/
inductive Escape : List Char → Char → Prop
  | short {letter c : Char} : (letter, c) ∈ shortEscapes → Escape [letter] c
  | numbered {letter : Char} {ds : List Char} : (letter, ds.length) ∈ numberedEscapes →
      (∀ d ∈ ds, isHex d = true) → (Text.valueIn 16 ds).isValidChar →
      Escape (letter :: ds) (Char.ofNat (Text.valueIn 16 ds))

/-- What stands between the quotes of a basic string, and the text it is read as. -/
inductive Body : List Char → List Char → Prop
  | nil : Body [] []
  | plain {c : Char} {cs text : List Char} : isControl c = false → c ≠ '"' → c ≠ '\\' →
      Body cs text → Body (c :: cs) (c :: text)
  | escape {e cs text : List Char} {c : Char} : Escape e c → Body cs text →
      Body ('\\' :: (e ++ cs)) (c :: text)

theorem escape_cons_iff (letter : Char) (ds : List Char) (c : Char) : Escape (letter :: ds) c ↔
    (ds = [] ∧ (letter, c) ∈ shortEscapes) ∨ ((letter, ds.length) ∈ numberedEscapes ∧
      (∀ d ∈ ds, isHex d = true) ∧ (Text.valueIn 16 ds).isValidChar ∧
      c = Char.ofNat (Text.valueIn 16 ds)) := by
  constructor
  · intro h
    cases h with
    | short hmem => exact .inl ⟨rfl, hmem⟩
    | numbered hsize hhex hvalid => exact .inr ⟨hsize, hhex, hvalid, rfl⟩
  · rintro (⟨rfl, hmem⟩ | ⟨hsize, hhex, hvalid, rfl⟩)
    · exact .short hmem
    · exact .numbered hsize hhex hvalid

theorem exists_escape_cons (letter : Char) (more rest : List Char) (c : Char) :
    (∃ e, letter :: more = e ++ rest ∧ Escape e c) ↔
      ∃ ds, more = ds ++ rest ∧ Escape (letter :: ds) c := by
  constructor
  · rintro ⟨e, hsplit, he⟩
    cases he with
    | short hmem =>
      cases hsplit
      exact ⟨[], rfl, .short hmem⟩
    | numbered hsize hhex hvalid =>
      cases hsplit
      exact ⟨_, rfl, .numbered hsize hhex hvalid⟩
  · rintro ⟨ds, rfl, he⟩
    exact ⟨letter :: ds, rfl, he⟩

theorem numbered_eq_ok_iff (size : Nat) (cs rest : List Char) (c : Char) :
    numbered size cs = .ok (c, rest) ↔ ∃ ds, cs = ds ++ rest ∧ ds.length = size ∧
      (∀ d ∈ ds, isHex d = true) ∧ (Text.valueIn 16 ds).isValidChar ∧
      c = Char.ofNat (Text.valueIn 16 ds) := by
  have hrun : numbered size cs =
      if (cs.take size).length != size || !(cs.take size).all isHex then .error "bad escape"
      else if ¬(Text.valueIn 16 (cs.take size)).isValidChar then .error "bad character number"
      else .ok (Char.ofNat (Text.valueIn 16 (cs.take size)), cs.drop size) := by
    unfold numbered
    rw [get_bind]
    simp only [Text.isValidChar_iff, Decidable.not_not]
    split
    · rfl
    · change (if _ then _ else _ : Read Char) cs = _
      split <;> rfl
  rw [hrun]
  constructor
  · intro h
    split at h
    · cases h
    · next hdigits =>
      split at h
      · cases h
      · next hvalid =>
        cases h
        refine ⟨cs.take size, (List.take_append_drop size cs).symm, ?_⟩
        simp only [Bool.or_eq_true, bne_iff_ne, ne_eq, Bool.not_eq_true', not_or,
          Decidable.not_not, Bool.not_eq_false, List.all_eq_true] at hdigits
        exact ⟨hdigits.1, hdigits.2, Decidable.not_not.mp hvalid, rfl⟩
  · rintro ⟨ds, rfl, rfl, hhex, hvalid, rfl⟩
    have hall : ds.all isHex = true := List.all_eq_true.mpr hhex
    simp [hvalid, hall]

theorem escape_eq_ok_iff (cs rest : List Char) (c : Char) :
    escape cs = .ok (c, rest) ↔ ∃ e, cs = e ++ rest ∧ Escape e c := by
  unfold escape
  rw [get_bind]
  cases cs with
  | nil =>
    refine ⟨nofun, fun ⟨e, hsplit, he⟩ => ?_⟩
    rw [List.nil_eq_append_iff] at hsplit
    rw [hsplit.1] at he
    cases he
  | cons letter more =>
    dsimp only
    rw [set_bind, exists_escape_cons]
    simp only [escape_cons_iff]
    split
    case h_12 =>
      refine ⟨nofun, ?_⟩
      simp_all [shortEscapes, numberedEscapes]
    case h_9 => simp [numbered_eq_ok_iff, shortEscapes, numberedEscapes]
    case h_10 => simp [numbered_eq_ok_iff, shortEscapes, numberedEscapes]
    case h_11 => simp [numbered_eq_ok_iff, shortEscapes, numberedEscapes]
    all_goals
      simp [pure_eq_ok_iff, shortEscapes, numberedEscapes]

theorem length_of_escape {e : List Char} {c : Char} (h : Escape e c) : 0 < e.length := by
  cases h <;> exact Nat.succ_pos _

theorem exists_body_quote (more rest text : List Char) :
    (∃ body, '"' :: more = body ++ '"' :: rest ∧ Body body text) ↔ more = rest ∧ text = [] := by
  constructor
  · rintro ⟨body, hsplit, hbody⟩
    cases hbody with
    | nil => exact ⟨(List.cons.inj hsplit).2, rfl⟩
    | plain _ hquote _ _ => exact absurd (List.cons.inj hsplit).1.symm hquote
    | escape _ _ => cases (List.cons.inj hsplit).1
  · rintro ⟨rfl, rfl⟩
    exact ⟨[], rfl, .nil⟩

theorem exists_body_escape (more rest text : List Char) :
    (∃ body, '\\' :: more = body ++ '"' :: rest ∧ Body body text) ↔
      ∃ e c body text', Escape e c ∧ more = e ++ (body ++ '"' :: rest) ∧ Body body text' ∧
        text = c :: text' := by
  constructor
  · rintro ⟨body, hsplit, hbody⟩
    cases hbody with
    | nil => cases (List.cons.inj hsplit).1
    | plain _ _ hslash _ => exact absurd (List.cons.inj hsplit).1.symm hslash
    | escape he hbody =>
      refine ⟨_, _, _, _, he, ?_, hbody, rfl⟩
      simpa using hsplit
  · rintro ⟨e, c, body, text', he, rfl, hbody, rfl⟩
    exact ⟨_, by simp, .escape he hbody⟩

theorem exists_body_plain {c : Char} (hquote : c ≠ '"') (hslash : c ≠ '\\')
    (more rest text : List Char) :
    (∃ body, c :: more = body ++ '"' :: rest ∧ Body body text) ↔ isControl c = false ∧
      ∃ body text', more = body ++ '"' :: rest ∧ Body body text' ∧ text = c :: text' := by
  constructor
  · rintro ⟨body, hsplit, hbody⟩
    cases hbody with
    | nil => exact absurd (List.cons.inj hsplit).1 hquote
    | escape _ _ => exact absurd (List.cons.inj hsplit).1 hslash
    | plain hcontrol _ _ hbody =>
      obtain ⟨rfl, hmore⟩ := List.cons.inj hsplit
      exact ⟨hcontrol, _, _, hmore, hbody, rfl⟩
  · rintro ⟨hcontrol, body, text', rfl, hbody, rfl⟩
    exact ⟨_, rfl, .plain hcontrol hquote hslash hbody⟩

/-- A basic string is read up to its closing quote, escapes and all. -/
theorem basic_eq_ok_iff {fuel : Nat} {cs : List Char} (hfuel : cs.length < fuel)
    (done rest : List Char) (s : String) : basic fuel done cs = .ok (s, rest) ↔ ∃ text,
      (∃ body, cs = body ++ '"' :: rest ∧ Body body text) ∧
        s = String.ofList (done.reverse ++ text) := by
  -- An escape takes several characters, so the induction is on the fuel.
  induction fuel generalizing cs done with
  | zero => exact absurd hfuel (Nat.not_lt_zero _)
  | succ fuel ih =>
    unfold basic
    rw [get_bind]
    split
    · refine ⟨nofun, fun ⟨text, ⟨body, hsplit, _⟩, _⟩ => ?_⟩
      simp at hsplit
    · next more =>
      rw [set_bind, pure_eq_ok_iff]
      simp only [exists_body_quote]
      constructor
      · rintro ⟨rfl, rfl⟩
        exact ⟨[], ⟨rfl, rfl⟩, by rw [List.append_nil]⟩
      · rintro ⟨text, ⟨rfl, rfl⟩, rfl⟩
        exact ⟨rfl, by rw [List.append_nil]⟩
    · next more =>
      rw [set_bind, bind_eq_ok_iff]
      simp only [exists_body_escape]
      constructor
      · rintro ⟨c, mid, hescape, hbasic⟩
        obtain ⟨e, rfl, he⟩ := (escape_eq_ok_iff _ _ _).mp hescape
        have hshort : mid.length < fuel := by
          have hpos := length_of_escape he
          simp only [List.length_cons, List.length_append] at hfuel
          omega
        obtain ⟨text, ⟨body, rfl, hbody⟩, rfl⟩ := (ih hshort _).mp hbasic
        exact ⟨c :: text, ⟨e, c, body, text, he, rfl, hbody, rfl⟩, by simp⟩
      · rintro ⟨_, ⟨e, c, body, text, he, rfl, hbody, rfl⟩, rfl⟩
        refine ⟨c, body ++ '"' :: rest, (escape_eq_ok_iff _ _ _).mpr ⟨e, rfl, he⟩, ?_⟩
        have hshort : (body ++ '"' :: rest).length < fuel := by
          simp only [List.length_cons, List.length_append] at hfuel ⊢
          omega
        exact (ih hshort _).mpr ⟨text, ⟨body, rfl, hbody⟩, by simp⟩
    · next c more hquote hslash =>
      have hquote : c ≠ '"' := hquote
      have hslash : c ≠ '\\' := hslash
      have hshort : more.length < fuel := Nat.lt_of_succ_lt_succ hfuel
      simp only [exists_body_plain hquote hslash]
      cases hcontrol : isControl c with
      | true => exact ⟨nofun, nofun⟩
      | false =>
        change basic fuel (c :: done) more = _ ↔ _
        rw [ih hshort]
        constructor
        · rintro ⟨text, ⟨body, rfl, hbody⟩, rfl⟩
          exact ⟨c :: text, ⟨rfl, body, text, rfl, hbody, rfl⟩, by simp⟩
        · rintro ⟨_, ⟨-, body, text, rfl, hbody, rfl⟩, rfl⟩
          exact ⟨text, ⟨body, rfl, hbody⟩, by simp⟩

/-- A text between quotes. What cannot stand there as it is gets its number. -/
def quoted (text : List Char) : List Char :=
  text.flatMap fun c =>
    if isControl c || c == '"' || c == '\\' then '\\' :: 'U' :: Text.hexDigits 8 c.toNat else [c]

theorem body_quoted (text : List Char) : Body (quoted text) text := by
  induction text with
  | nil => exact .nil
  | cons c rest ih =>
    rw [quoted, List.flatMap_cons]
    split
    · have hvalue : Text.valueIn 16 (Text.hexDigits 8 c.toNat) = c.toNat :=
        Text.valueIn_hexDigits c.val.toNat_lt
      have hescape : Escape ('U' :: Text.hexDigits 8 c.toNat) c := by
        have hnumbered : Escape ('U' :: Text.hexDigits 8 c.toNat)
            (Char.ofNat (Text.valueIn 16 (Text.hexDigits 8 c.toNat))) := by
          refine .numbered ?_ (fun d hd => Text.digitValue_of_mem_hexDigits hd) ?_
          · rw [Text.length_hexDigits]
            decide
          · rw [hvalue]
            exact c.valid
        rwa [hvalue, Char.ofNat_toNat] at hnumbered
      exact .escape hescape ih
    · next hplain =>
      simp only [Bool.or_eq_true, beq_iff_eq, not_or, Bool.not_eq_true] at hplain
      exact .plain hplain.1.1 hplain.1.2 hplain.2 ih

end Strings

section Layout

/-- Blanks, comments and line ends stop here. -/
def Settled (cs : List Char) : Prop :=
  ∀ c ∈ cs.head?, c ≠ ' ' ∧ c ≠ '\t' ∧ c ≠ '#' ∧ c ≠ '\n' ∧ c ≠ '\r'

/-- Blank lines and comments. -/
inductive Gap : List Char → Prop
  | nil : Gap []
  | blank {blanks rest : List Char} : (∀ c ∈ blanks, isSpace c = true) → Gap rest →
      Gap (blanks ++ '\n' :: rest)
  | comment {blanks body rest : List Char} : (∀ c ∈ blanks, isSpace c = true) →
      (∀ c ∈ body, isControl c = false) → Gap rest → Gap (blanks ++ '#' :: (body ++ '\n' :: rest))

theorem accept_eq (text : String) (cs : List Char) : accept text cs =
    if text.toList.isPrefixOf cs then .ok (true, cs.drop text.length) else .ok (false, cs) := by
  unfold accept
  rw [get_bind]
  split <;> rfl

theorem accept_append (text : String) (rest : List Char) :
    accept text (text.toList ++ rest) = .ok (true, rest) := by
  have hdrop : (text.toList ++ rest).drop text.length = rest := by
    rw [← String.length_toList, List.drop_left]
  rw [accept_eq, if_pos (List.isPrefixOf_iff_prefix.mpr (List.prefix_append _ _)), hdrop]

theorem accept_of_absent {text : String} {cs : List Char} (h : ¬text.toList <+: cs) :
    accept text cs = .ok (false, cs) := by
  rw [accept_eq, if_neg (mt List.isPrefixOf_iff_prefix.mp h)]

section Accepting
variable {β : Type} {p q : Read β} {text : String} {cs : List Char}

theorem accept_bind_true (text : String) (rest : List Char) :
    (accept text >>= fun b => if b = true then p else q) (text.toList ++ rest) = p rest := by
  rw [bind_ok (accept_append text rest), if_pos rfl]

theorem accept_bind_false (h : ¬text.toList <+: cs) :
    (accept text >>= fun b => if b = true then p else q) cs = q cs := by
  rw [bind_ok (accept_of_absent h), if_neg Bool.false_ne_true]

end Accepting

theorem skipSpaces_run {blanks rest : List Char} (hblanks : ∀ c ∈ blanks, isSpace c = true)
    (hrest : Text.Stops isSpace rest) : skipSpaces (blanks ++ rest) = .ok ((), rest) := by
  change (.ok ((), (blanks ++ rest).dropWhile isSpace) : Except String _) = _
  rw [Text.dropWhile_run hblanks hrest]

theorem acceptNewline_newline (rest : List Char) :
    acceptNewline ('\n' :: rest) = .ok (true, rest) := rfl

theorem stops_of_settled {cs : List Char} (h : Settled cs) : Text.Stops isSpace cs := by
  intro c hc
  obtain ⟨hspace, htab, -⟩ := h c hc
  simp [isSpace, hspace, htab]

theorem skipSpaces_settled {cs : List Char} (h : Text.Stops isSpace cs) :
    skipSpaces cs = .ok ((), cs) := by
  have hnil : ∀ c ∈ ([] : List Char), isSpace c = true := by simp
  exact skipSpaces_run hnil h

theorem skipComment_other {cs : List Char} (h : ∀ c ∈ cs.head?, c ≠ '#') :
    skipComment cs = .ok ((), cs) := by
  unfold skipComment
  rw [get_bind]
  split
  · exact absurd rfl (h _ rfl)
  · rfl

theorem skipComment_comment {body : List Char} (h : ∀ c ∈ body, isControl c = false)
    (rest : List Char) :
    skipComment ('#' :: (body ++ '\n' :: rest)) = .ok ((), '\n' :: rest) := by
  have hrun : ∀ c ∈ body, (c != '\n' && c != '\r') = true := by
    intro c hc
    have hcontrol := h c hc
    rw [Bool.and_eq_true, bne_iff_ne, bne_iff_ne]
    constructor
    · rintro rfl
      cases hcontrol
    · rintro rfl
      cases hcontrol
  have hstops : Text.Stops (fun c => c != '\n' && c != '\r') ('\n' :: rest) := by
    simp [Text.Stops]
  have hbody := Text.takeWhile_run hrun hstops
  have hany : body.any isControl = false := by simpa using h
  unfold skipComment
  rw [get_bind]
  simp only [hbody, hany, Bool.false_eq_true, if_false, List.drop_left]
  rfl

theorem skipLines_newline (fuel : Nat) {cs mid rest : List Char}
    (hspaces : skipSpaces cs = .ok ((), mid))
    (hcomment : skipComment mid = .ok ((), '\n' :: rest)) :
    skipLines (fuel + 1) cs = skipLines fuel rest := by
  rw [skipLines, bind_ok hspaces, bind_ok hcomment, bind_ok (acceptNewline_newline rest)]
  rfl

theorem acceptNewline_other {cs : List Char} (h : ∀ c ∈ cs.head?, c ≠ '\n' ∧ c ≠ '\r') :
    acceptNewline cs = .ok (false, cs) := by
  have hstart : ∀ {c : Char} {more : List Char}, c = '\n' ∨ c = '\r' → ¬(c :: more) <+: cs := by
    rintro c more hc ⟨rest, rfl⟩
    have hhead := h c rfl
    rcases hc with rfl | rfl
    · exact hhead.1 rfl
    · exact hhead.2 rfl
  have hfeed : ¬"\n".toList <+: cs := hstart (.inl rfl)
  have hreturn : ¬"\r\n".toList <+: cs := hstart (.inr rfl)
  unfold acceptNewline
  rw [bind_ok (accept_of_absent hfeed)]
  exact accept_of_absent hreturn

theorem skipLines_settled {cs : List Char} (h : Settled cs) (fuel : Nat) :
    skipLines fuel cs = .ok ((), cs) := by
  cases fuel with
  | zero => rfl
  | succ fuel =>
    rw [skipLines, bind_ok (skipSpaces_settled (stops_of_settled h)),
      bind_ok (skipComment_other fun c hc => (h c hc).2.2.1),
      bind_ok (acceptNewline_other fun c hc => (h c hc).2.2.2)]
    rfl

theorem skipLines_gap {gap : List Char} (h : Gap gap) {cs : List Char} (hcs : Settled cs)
    {fuel : Nat} (hfuel : gap.length ≤ fuel) : skipLines fuel (gap ++ cs) = .ok ((), cs) := by
  induction h generalizing fuel with
  | nil => exact skipLines_settled hcs fuel
  | @blank blanks rest hblanks _ ih =>
    obtain ⟨fuel, rfl⟩ : ∃ n, fuel = n + 1 := Nat.exists_eq_add_one.mpr (by
      simp only [List.length_append, List.length_cons] at hfuel
      omega)
    have hnewline : Text.Stops isSpace ('\n' :: (rest ++ cs)) := by simp [Text.Stops, isSpace]
    rw [List.append_assoc, List.cons_append, skipLines_newline fuel
      (skipSpaces_run hblanks hnewline) (skipComment_other (by simp))]
    refine ih ?_
    simp only [List.length_append, List.length_cons] at hfuel
    omega
  | @comment blanks body rest hblanks hbody _ ih =>
    obtain ⟨fuel, rfl⟩ : ∃ n, fuel = n + 1 := Nat.exists_eq_add_one.mpr (by
      simp only [List.length_append, List.length_cons] at hfuel
      omega)
    have hmark : Text.Stops isSpace ('#' :: (body ++ '\n' :: (rest ++ cs))) := by
      simp [Text.Stops, isSpace]
    have hsplit : blanks ++ '#' :: (body ++ '\n' :: rest) ++ cs =
        blanks ++ '#' :: (body ++ '\n' :: (rest ++ cs)) := by simp
    rw [hsplit, skipLines_newline fuel (skipSpaces_run hblanks hmark) (skipComment_comment hbody _)]
    refine ih ?_
    simp only [List.length_append, List.length_cons] at hfuel
    omega

end Layout

section Values

/-- A text in quotes. -/
def stringChars (s : String) : List Char := '"' :: (quoted s.toList ++ ['"'])

def itemChars : List String → List Char
  | [] => []
  | [s] => stringChars s
  | s :: more :: rest => stringChars s ++ (',' :: ' ' :: itemChars (more :: rest))

theorem expect_append (text : String) (rest : List Char) :
    expect text (text.toList ++ rest) = .ok ((), rest) := by
  unfold expect
  rw [bind_ok (accept_append text rest)]
  rfl

theorem quote_notMem_quoted (text : List Char) : '"' ∉ quoted text := by
  intro hmem
  obtain ⟨c, -, hc⟩ := List.mem_flatMap.mp hmem
  split at hc
  · rcases List.mem_cons.mp hc with h | hc
    · cases h
    · rcases List.mem_cons.mp hc with h | hc
      · cases h
      · cases Text.digitValue_of_mem_hexDigits hc
  · next hplain =>
    rw [← List.mem_singleton.mp hc] at hplain
    simp at hplain

theorem not_prefix_quoted {text rest : List Char} (h : ∀ c ∈ rest.head?, c ≠ '"') :
    ¬"\"\"\"".toList <+: '"' :: (quoted text ++ '"' :: rest) := by
  intro hstart
  have htail : ['"', '"'] <+: quoted text ++ '"' :: rest := (List.cons_prefix_cons.mp hstart).2
  cases hquoted : quoted text with
  | nil =>
    rw [hquoted] at htail
    have hhead : ['"'] <+: rest := (List.cons_prefix_cons.mp htail).2
    obtain ⟨more, rfl⟩ := hhead
    exact h '"' rfl rfl
  | cons c more =>
    rw [hquoted] at htail
    have hc : '"' = c := (List.cons_prefix_cons.mp htail).1
    have hmem : '"' ∈ quoted text := by
      rw [hquoted, hc]
      exact List.mem_cons_self
    exact quote_notMem_quoted text hmem

theorem basic_quoted (s : String) (rest : List Char) {fuel : Nat}
    (hfuel : (quoted s.toList ++ '"' :: rest).length < fuel) :
    basic fuel [] (quoted s.toList ++ '"' :: rest) = .ok (s, rest) := by
  rw [basic_eq_ok_iff hfuel]
  exact ⟨s.toList, ⟨_, rfl, body_quoted _⟩, by simp⟩

theorem value_string (s : String) {rest : List Char} (hrest : ∀ c ∈ rest.head?, c ≠ '"')
    (fuel : Nat) {depth : Nat} (hdepth : depth ≤ maxDepth) :
    value (fuel + 1) depth (stringChars s ++ rest) = .ok (.string s, rest) := by
  have hchars : stringChars s ++ rest = '"' :: (quoted s.toList ++ '"' :: rest) := by
    simp [stringChars]
  have hapostrophes : ¬"\x27\x27\x27".toList <+: '"' :: (quoted s.toList ++ '"' :: rest) :=
    fun hstart => absurd (List.cons_prefix_cons.mp hstart).1 (by decide)
  have hquote : accept "\"" ('"' :: (quoted s.toList ++ '"' :: rest)) =
      .ok (true, quoted s.toList ++ '"' :: rest) := accept_append "\"" _
  have hbasic : basic ('"' :: (quoted s.toList ++ '"' :: rest)).length []
      (quoted s.toList ++ '"' :: rest) = .ok (s, rest) := basic_quoted s rest (Nat.lt_succ_self _)
  rw [hchars, value, get_bind]
  simp only [if_neg (Nat.not_lt.mpr hdepth)]
  rw [accept_bind_false (not_prefix_quoted hrest), accept_bind_false hapostrophes]
  rw [bind_ok hquote, if_pos rfl, bind_ok hbasic]
  rfl

theorem skipLines_blanks {blanks cs : List Char} (hblanks : ∀ c ∈ blanks, isSpace c = true)
    (hcs : Settled cs) (fuel : Nat) : skipLines (fuel + 1) (blanks ++ cs) = .ok ((), cs) := by
  rw [skipLines, bind_ok (skipSpaces_run hblanks (stops_of_settled hcs)),
    bind_ok (skipComment_other fun c hc => (hcs c hc).2.2.1),
    bind_ok (acceptNewline_other fun c hc => (hcs c hc).2.2.2)]
  rfl

theorem not_prefix_cons {text : String} {c d : Char} {more cs : List Char}
    (htext : text.toList = d :: more) (h : d ≠ c) : ¬text.toList <+: c :: cs := by
  rw [htext]
  exact fun hstart => h (List.cons_prefix_cons.mp hstart).1

theorem settled_cons {c : Char} (cs : List Char)
    (h : c ≠ ' ' ∧ c ≠ '\t' ∧ c ≠ '#' ∧ c ≠ '\n' ∧ c ≠ '\r') : Settled (c :: cs) := by
  rintro _ ⟨⟩
  exact h

theorem arrayItems_end (done : List Value) (blanks rest : List Char)
    (hblanks : ∀ c ∈ blanks, isSpace c = true) (fuel depth : Nat) :
    arrayItems (fuel + 1) depth done (blanks ++ ']' :: rest) = .ok (done.reverse, rest) := by
  rw [arrayItems, get_bind, bind_ok (skipLines_blanks hblanks (settled_cons rest (by decide)) _)]
  exact accept_bind_true "]" rest

theorem arrayItems_strings (ss : List String) (done : List Value) (blanks rest : List Char)
    (hblanks : ∀ c ∈ blanks, isSpace c = true) {fuel depth : Nat}
    (hfuel : ss.length < fuel) (hdepth : depth ≤ maxDepth) :
    arrayItems fuel depth done (blanks ++ (itemChars ss ++ ']' :: rest)) =
      .ok (done.reverse ++ ss.map .string, rest) := by
  obtain ⟨fuel, rfl⟩ : ∃ n, fuel = n + 1 := Nat.exists_eq_add_one.mpr (Nat.zero_lt_of_lt hfuel)
  induction ss generalizing fuel done blanks with
  | nil =>
    rw [List.map_nil, List.append_nil]
    exact arrayItems_end done blanks rest hblanks fuel depth
  | cons s more ih =>
    have hquote : ∀ cs, Settled (stringChars s ++ cs) := fun cs => settled_cons _ (by decide)
    have hclose : ∀ cs, ¬"]".toList <+: stringChars s ++ cs := fun cs =>
      not_prefix_cons rfl (by decide)
    obtain ⟨fuel, rfl⟩ : ∃ n, fuel = n + 1 := Nat.exists_eq_add_one.mpr (by
      rw [List.length_cons] at hfuel
      omega)
    cases more with
    | nil =>
      have hcomma : ¬",".toList <+: ']' :: rest := not_prefix_cons rfl (by decide)
      rw [itemChars, arrayItems, get_bind, bind_ok (skipLines_blanks hblanks (hquote _) _)]
      rw [accept_bind_false (hclose _), bind_ok (value_string s (by simp) fuel hdepth), get_bind]
      rw [bind_ok (skipLines_settled (settled_cons rest (by decide)) _)]
      rw [accept_bind_false hcomma]
      refine (bind_ok (expect_append "]" rest)).trans ?_
      rw [List.reverse_cons]
      rfl
    | cons next more =>
      have hsplit : itemChars (s :: next :: more) ++ ']' :: rest =
          stringChars s ++ (',' :: ([' '] ++ (itemChars (next :: more) ++ ']' :: rest))) := by
        simp [itemChars]
      rw [hsplit, arrayItems, get_bind, bind_ok (skipLines_blanks hblanks (hquote _) _)]
      rw [accept_bind_false (hclose _), bind_ok (value_string s (by simp) fuel hdepth), get_bind]
      rw [bind_ok (skipLines_settled (settled_cons _ (by decide)) _)]
      refine (accept_bind_true "," _).trans ?_
      refine (ih (.string s :: done) [' '] (by simp [isSpace]) fuel (by simpa using hfuel)).trans ?_
      simp

theorem value_strings (ss : List String) (rest : List Char) {fuel depth : Nat}
    (hfuel : ss.length < fuel) (hdepth : depth < maxDepth) :
    value (fuel + 1) depth ('[' :: (itemChars ss ++ ']' :: rest)) =
      .ok (.array false (ss.map .string), rest) := by
  have hother : ∀ {text : String} {d : Char} {more : List Char}, text.toList = d :: more →
      d ≠ '[' → ¬text.toList <+: '[' :: (itemChars ss ++ ']' :: rest) := not_prefix_cons
  have hbracket : accept "[" ('[' :: (itemChars ss ++ ']' :: rest)) =
      .ok (true, itemChars ss ++ ']' :: rest) := accept_append "[" _
  have hitems : arrayItems fuel (depth + 1) [] (itemChars ss ++ ']' :: rest) =
      .ok (ss.map .string, rest) := arrayItems_strings ss [] [] rest (by simp) hfuel hdepth
  rw [value, get_bind]
  simp only [if_neg (Nat.not_lt.mpr (Nat.le_of_lt hdepth))]
  rw [accept_bind_false (hother rfl (by decide)), accept_bind_false (hother rfl (by decide)),
    accept_bind_false (hother rfl (by decide)), accept_bind_false (hother rfl (by decide)),
    bind_ok hbracket, if_pos rfl, bind_ok hitems]
  rfl

end Values
end StyleAudit.Toml
