import StyleAudit.Yaml.Scalar
import StyleAudit.Proofs.Readers
import StyleAudit.Proofs.Text

/-!
# Quoted scalars of YAML

A double-quoted scalar on one line is read to the text that its characters and escapes stand for,
whatever follows its closing quote. Every text can be written in this form.
-/

namespace StyleAudit.Yaml
set_option autoImplicit false

section Cursors

/-- The cursor after some characters of its line. -/
def Cursor.past (c : Cursor) (n : Nat) (rest : List Char) : Cursor :=
  { c with rest, index := c.index + n, column := c.column + n }

@[simp] theorem Cursor.past_rest (c : Cursor) (n : Nat) (rest : List Char) :
    (c.past n rest).rest = rest := rfl

theorem Cursor.past_past (c : Cursor) (n m : Nat) (mid rest : List Char) :
    (c.past n mid).past m rest = c.past (n + m) rest := by
  simp [past, Nat.add_assoc]

theorem Cursor.past_zero (c : Cursor) : c.past 0 c.rest = c := rfl

variable {c : Cursor} {d : Char} {rest : List Char}

theorem Cursor.past_inside (h : c.column ≠ 0) (n : Nat) : (c.past n rest).column ≠ 0 :=
  fun e => h (Nat.eq_zero_of_add_eq_zero e).1

theorem peekAt_eq (n : Nat) (c : Cursor) : peekAt n c = .ok (c.rest[n]?, c) := rfl

theorem isNext_eq (d : Char) (c : Cursor) : isNext d c = .ok (c.rest.head? == some d, c) := by
  change Except.ok (c.rest[0]? == some d, c) = _
  rw [List.head?_eq_getElem?]

theorem peek_cons (h : c.rest = d :: rest) : peek c = .ok (some d, c) := by
  change Except.ok (c.rest[0]?, c) = _
  rw [h]
  rfl

theorem nextIs_cons (test : Char → Bool) (h : c.rest = d :: rest) :
    nextIs test c = .ok (test d, c) := by
  change Except.ok ((c.rest[0]?.map test).getD false, c) = _
  rw [h]
  rfl

theorem skip_cons (h : c.rest = d :: rest) : skip c = .ok ((), c.past 1 rest) := by
  have htail : c.rest.tail = rest := by rw [h, List.tail_cons]
  subst htail
  rfl

theorem isAt_eq (d : Char) (n : Nat) (c : Cursor) : isAt d n c = .ok (c.rest[n]? == some d, c) :=
  rfl

theorem blankAt_eq (n : Nat) (c : Cursor) : blankAt n c =
    .ok ((c.rest[n]?.map fun d => isBlank d || isBreak d).getD true, c) := by
  rw [blankAt, bind_ok (peekAt_eq n c)]
  cases c.rest[n]? <;> rfl

theorem atMark_other (h : c.column ≠ 0 ∨ c.rest.head? ≠ some d) :
    atMark d c = .ok (false, c) := by
  have hfalse : (c.column == 0 && c.rest[0]? == some d) = false := by
    rw [List.head?_eq_getElem?] at h
    rw [Bool.and_eq_false_iff, beq_eq_false_iff_ne, beq_eq_false_iff_ne]
    exact h
  rw [atMark]
  refine (get_bind _ _).trans ?_
  refine (bind_ok (isAt_eq d 0 c)).trans ?_
  refine (bind_ok (isAt_eq d 1 c)).trans ?_
  refine (bind_ok (isAt_eq d 2 c)).trans ?_
  refine (bind_ok (blankAt_eq 3 c)).trans ?_
  rw [hfalse]
  rfl

theorem atAnyMark_inside (h : c.column ≠ 0) : atAnyMark c = .ok (false, c) := by
  rw [atAnyMark, bind_ok (atMark_other (.inl h))]
  exact atMark_other (.inl h)

theorem takeWhile_eq (test : Char → Bool) {run : List Char} (hrun : ∀ e ∈ run, test e = true)
    (hstop : Text.Stops test rest) (h : c.rest = run ++ rest) :
    takeWhile test c = .ok (run, c.past run.length rest) := by
  change Except.ok (c.rest.takeWhile test, _) = _
  rw [h, Text.takeWhile_run hrun hstop, List.drop_left]
  rfl

end Cursors

section Strings

/-- What stands after a backslash, and the character it is read as. -/
inductive Escape : List Char → Char → Prop
  | short {letter c : Char} : escapeOf letter = some (.inl c) → Escape [letter] c
  | numbered {letter : Char} {ds : List Char} : escapeOf letter = some (.inr ds.length) →
      (∀ d ∈ ds, (Text.digitValue d).isSome = true) → (Text.valueIn 16 ds).isValidChar →
      Escape (letter :: ds) (Char.ofNat (Text.valueIn 16 ds))

/-- What stands on one line between double quotes, and the text it is read as. -/
inductive Body : List Char → List Char → Prop
  | nil : Body [] []
  | plain {c : Char} {cs text : List Char} : c ≠ '"' → c ≠ '\\' → isBreak c = false →
      Body cs text → Body (c :: cs) (c :: text)
  | escape {e cs text : List Char} {c : Char} : Escape e c → Body cs text →
      Body ('\\' :: (e ++ cs)) (c :: text)

theorem hexNumber_eq {ds rest : List Char} (hds : ∀ d ∈ ds, (Text.digitValue d).isSome = true)
    (value : Nat) {c : Cursor} (hc : c.rest = ds ++ rest) : hexNumber ds.length value c =
      .ok (ds.foldl (fun n d => 16 * n + (Text.digitValue d).getD 0) value,
        c.past ds.length rest) := by
  induction ds generalizing value c with
  | nil =>
    obtain rfl : c.rest = rest := hc
    rfl
  | cons d more ih =>
    obtain ⟨v, hv⟩ := Option.isSome_iff_exists.mp (hds d List.mem_cons_self)
    rw [List.length_cons, hexNumber, bind_ok (peek_cons hc)]
    simp only [Option.bind_some, hv]
    rw [bind_ok (skip_cons hc), ih (fun d hd => hds d (List.mem_cons_of_mem _ hd)) _ rfl,
      Cursor.past_past, List.foldl_cons, hv, Nat.add_comm 1]
    rfl

theorem escape_eq {e : List Char} {d : Char} (h : Escape e d) {rest : List Char} {c : Cursor}
    (hc : c.rest = e ++ rest) : escape c = .ok (d, c.past e.length rest) := by
  cases h with
  | short hletter =>
    rw [escape, bind_ok (peek_cons hc)]
    simp only [Option.bind_some, hletter]
    exact bind_ok (skip_cons hc)
  | @numbered letter ds hletter hds hvalid =>
    rw [escape, bind_ok (peek_cons hc)]
    simp only [Option.bind_some, hletter]
    rw [bind_ok (skip_cons hc), bind_ok (hexNumber_eq hds 0 rfl), Cursor.past_past,
      List.length_cons, Nat.add_comm ds.length]
    exact congrFun (if_neg ((Text.isValidChar_iff _).mp hvalid)) _

theorem isBreak_of_escapeOf {letter : Char} {x : Sum Char Nat} (h : escapeOf letter = some x) :
    isBreak letter = false := by
  by_contra hbreak
  rw [Bool.not_eq_false, isBreak] at hbreak
  simp only [Bool.or_eq_true, beq_iff_eq] at hbreak
  obtain (((rfl | rfl) | rfl) | rfl) | rfl := hbreak <;> cases h

theorem takeGap_blanks {bs rest : List Char} (hbs : ∀ b ∈ bs, isBlank b = true)
    (hrest : ∀ d ∈ rest.head?, isBlank d = false ∧ isBreak d = false) {fuel : Nat}
    (hfuel : bs.length ≤ fuel) (before : List Char) {c : Cursor} (hc : c.rest = bs ++ rest) :
    takeGap none fuel { blanks := before } c =
      .ok ({ blanks := before ++ bs }, c.past bs.length rest) := by
  induction bs generalizing fuel before c with
  | nil =>
    obtain rfl : c.rest = rest := hc
    rw [List.append_nil, List.length_nil, Cursor.past_zero]
    cases fuel with
    | zero => rfl
    | succ fuel =>
      rw [takeGap]
      cases hhead : c.rest with
      | nil =>
        have hpeek : peek c = .ok (none, c) := by
          change Except.ok (c.rest[0]?, c) = _
          rw [hhead]
          rfl
        rw [bind_ok hpeek]
        rfl
      | cons d more =>
        obtain ⟨hblank, hbreak⟩ := hrest d (by rw [hhead]; rfl)
        rw [bind_ok (peek_cons hhead)]
        simp only [hblank, hbreak]
        rfl
  | cons b more ih =>
    obtain ⟨fuel, rfl⟩ : ∃ n, fuel = n + 1 := Nat.exists_eq_add_one.mpr (by
      rw [List.length_cons] at hfuel
      omega)
    rw [takeGap, bind_ok (peek_cons hc)]
    simp only [hbs b List.mem_cons_self, if_true]
    refine (bind_ok (skip_cons hc)).trans ?_
    refine (ih (fun b hb => hbs b (List.mem_cons_of_mem _ hb)) (Nat.le_of_succ_le_succ hfuel)
      (before ++ [b]) rfl).trans ?_
    rw [Cursor.past_past, List.append_assoc, List.length_cons, Nat.add_comm 1]
    rfl

/-- The blanks at the front of a body stand for themselves. -/
theorem Body.blanks {cs text : List Char} (h : Body cs text) : ∃ bs cs' text', cs = bs ++ cs' ∧
    text = bs ++ text' ∧ (∀ b ∈ bs, isBlank b = true) ∧ Body cs' text' ∧
    ∀ d ∈ cs'.head?, isBlank d = false ∧ isBreak d = false := by
  induction h with
  | nil => exact ⟨[], [], [], rfl, rfl, by simp, .nil, by simp⟩
  | @plain c cs text hquote hslash hbreak hbody ih =>
    cases hblank : isBlank c with
    | true =>
      obtain ⟨bs, cs', text', rfl, rfl, hbs, hbody', hhead⟩ := ih
      refine ⟨c :: bs, cs', text', rfl, rfl, ?_, hbody', hhead⟩
      intro b hb
      rcases List.mem_cons.mp hb with rfl | hb
      · exact hblank
      · exact hbs b hb
    | false =>
      refine ⟨[], c :: cs, c :: text, rfl, rfl, by simp, .plain hquote hslash hbreak hbody, ?_⟩
      rintro _ ⟨⟩
      exact ⟨hblank, hbreak⟩
  | @escape e cs text c hescape hbody _ =>
    refine ⟨[], _, _, rfl, rfl, by simp, .escape hescape hbody, ?_⟩
    rintro _ ⟨⟩
    decide

section Quoting
variable {c : Cursor} {d : Char} {rest : List Char}

theorem quotedText_char (hquote : d ≠ '"') (hslash : d ≠ '\\') (hblank : isBlank d = false)
    (hbreak : isBreak d = false) (fuel : Nat) (done : List Char) (hcolumn : c.column ≠ 0)
    (hc : c.rest = d :: rest) : quotedText false (fuel + 1) done c =
      quotedText false fuel (d :: done) (c.past 1 rest) := by
  have hd : (d == if false = true then '\x27' else '"') = false := beq_eq_false_iff_ne.mpr hquote
  have hs : (d == '\\') = false := beq_eq_false_iff_ne.mpr hslash
  rw [quotedText, bind_ok (atAnyMark_inside hcolumn)]
  refine (bind_ok (peek_cons hc)).trans ?_
  simp only [hd, hs, hblank, hbreak]
  exact bind_ok (skip_cons hc)

theorem quotedText_blanks (hblank : isBlank d = true) {bs : List Char}
    (hbs : ∀ b ∈ bs, isBlank b = true)
    (hrest : ∀ e ∈ rest.head?, isBlank e = false ∧ isBreak e = false) (fuel : Nat)
    (done : List Char) (hcolumn : c.column ≠ 0) (hc : c.rest = d :: bs ++ rest) :
    quotedText false (fuel + 1) done c =
      quotedText false fuel ((d :: bs).reverse ++ done) (c.past (bs.length + 1) rest) := by
  have hd : (d == if false = true then '\x27' else '"') = false := by
    refine beq_eq_false_iff_ne.mpr ?_
    rintro rfl
    cases hblank
  have hs : (d == '\\') = false := by
    refine beq_eq_false_iff_ne.mpr ?_
    rintro rfl
    cases hblank
  have hall : ∀ b ∈ d :: bs, isBlank b = true := List.forall_mem_cons.mpr ⟨hblank, hbs⟩
  have hgap : takeGap none c.rest.length {} c =
      .ok ({ blanks := [] ++ d :: bs }, c.past (d :: bs).length rest) :=
    takeGap_blanks hall hrest (by rw [hc, List.length_append]; omega) [] hc
  rw [quotedText, bind_ok (atAnyMark_inside hcolumn)]
  refine (bind_ok (peek_cons hc)).trans ?_
  simp only [hd, hs, hblank]
  refine (bind_ok (rfl : charsLeft c = .ok (c.rest.length, c))).trans ?_
  exact bind_ok hgap

theorem quotedText_escape {e : List Char} (h : Escape e d) (fuel : Nat) (done : List Char)
    (hcolumn : c.column ≠ 0) (hc : c.rest = '\\' :: (e ++ rest)) :
    quotedText false (fuel + 1) done c =
      quotedText false fuel (d :: done) (c.past (e.length + 1) rest) := by
  have hbreak : nextIs isBreak (c.past 1 (e ++ rest)) = .ok (false, c.past 1 (e ++ rest)) := by
    cases h with
    | short hletter => rw [nextIs_cons _ rfl, isBreak_of_escapeOf hletter]
    | numbered hletter _ _ => rw [nextIs_cons _ rfl, isBreak_of_escapeOf hletter]
  rw [quotedText, bind_ok (atAnyMark_inside hcolumn)]
  refine (bind_ok (peek_cons hc)).trans ?_
  refine (bind_ok (skip_cons hc)).trans ?_
  refine (bind_ok hbreak).trans ?_
  refine (bind_ok (escape_eq h rfl)).trans ?_
  rw [Cursor.past_past, Nat.add_comm 1]

/-- Blanks are read together, every other character and every escape on its own. -/
theorem quotedText_body {cs text : List Char} (h : Body cs text) {fuel : Nat}
    (hfuel : cs.length < fuel) (done rest : List Char) {c : Cursor} (hcolumn : c.column ≠ 0)
    (hc : c.rest = cs ++ '"' :: rest) : quotedText false fuel done c =
      .ok (done.reverse ++ text, c.past (cs.length + 1) rest) := by
  -- A run of blanks is several steps of the body at once, so the induction is on the fuel.
  induction fuel generalizing cs text done c with
  | zero => exact absurd hfuel (Nat.not_lt_zero _)
  | succ fuel ih =>
    cases h with
    | nil =>
      rw [quotedText, bind_ok (atAnyMark_inside hcolumn)]
      refine (bind_ok (peek_cons hc)).trans ?_
      refine (bind_ok (skip_cons hc)).trans ?_
      rw [List.append_nil]
      rfl
    | @plain d cs text hquote hslash hbreak hbody =>
      cases hblank : isBlank d with
      | false =>
        rw [List.cons_append] at hc
        rw [quotedText_char hquote hslash hblank hbreak fuel done hcolumn hc,
          ih hbody (Nat.lt_of_succ_lt_succ hfuel) _ (Cursor.past_inside hcolumn 1) rfl,
          Cursor.past_past, List.reverse_cons, List.append_assoc, List.length_cons, Nat.add_comm 1]
        rfl
      | true =>
        obtain ⟨bs, cs, text, rfl, rfl, hbs, hbody, hhead⟩ := hbody.blanks
        have hstop : ∀ e ∈ (cs ++ '"' :: rest).head?, isBlank e = false ∧ isBreak e = false := by
          cases cs with
          | nil =>
            rintro _ ⟨⟩
            decide
          | cons e cs => exact hhead
        have hsplit : c.rest = d :: bs ++ (cs ++ '"' :: rest) := by
          rw [hc, List.cons_append, List.append_assoc]
          rfl
        rw [List.length_cons, List.length_append] at hfuel ⊢
        rw [quotedText_blanks hblank hbs hstop fuel done hcolumn hsplit,
          ih hbody (by omega) _ (Cursor.past_inside hcolumn _) rfl, Cursor.past_past,
          List.reverse_append, List.reverse_reverse, List.append_assoc]
        have hlength : bs.length + 1 + (cs.length + 1) = bs.length + cs.length + 1 + 1 := by omega
        rw [hlength]
        rfl
    | @escape e cs text d hescape hbody =>
      have hsplit : c.rest = '\\' :: (e ++ (cs ++ '"' :: rest)) := by
        rw [hc, List.cons_append, List.append_assoc]
      rw [List.length_cons, List.length_append] at hfuel ⊢
      rw [quotedText_escape hescape fuel done hcolumn hsplit,
        ih hbody (by omega) _ (Cursor.past_inside hcolumn _) rfl, Cursor.past_past,
        List.reverse_cons, List.append_assoc]
      have hlength : e.length + 1 + (cs.length + 1) = e.length + cs.length + 1 + 1 := by omega
      rw [hlength]
      rfl

end Quoting

/-- A quoted scalar is read to the text that its body stands for, whatever follows it. -/
theorem quoted_body {cs text : List Char} (h : Body cs text) (rest : List Char) {c : Cursor}
    (hc : c.rest = '"' :: (cs ++ '"' :: rest)) :
    quoted false c = .ok (String.ofList text, c.past (cs.length + 2) rest) := by
  have hfuel : cs.length < (cs ++ '"' :: rest).length + 1 := by
    rw [List.length_append]
    omega
  have hread := quotedText_body h hfuel [] rest (c := c.past 1 (cs ++ '"' :: rest))
    (Nat.succ_ne_zero _) rfl
  rw [quoted, bind_ok (skip_cons hc)]
  refine (bind_ok (rfl : charsLeft (c.past 1 (cs ++ '"' :: rest)) = .ok (_, _))).trans ?_
  refine (bind_ok hread).trans ?_
  rw [Cursor.past_past, Nat.add_comm 1]
  rfl

/-- Characters that need no escape. -/
def isPlain (c : Char) : Bool := 0x20 ≤ c.toNat && c.toNat ≤ 0x7E && c != '"' && c != '\\'

/-- A character between double quotes. -/
def charBody (c : Char) : List Char :=
  if isPlain c then [c] else '\\' :: 'U' :: Text.hexDigits 8 c.toNat

theorem isBreak_of_isPlain {c : Char} (h : isPlain c = true) : isBreak c = false := by
  by_contra hbreak
  rw [Bool.not_eq_false, isBreak] at hbreak
  simp only [Bool.or_eq_true, beq_iff_eq] at hbreak
  obtain (((rfl | rfl) | rfl) | rfl) | rfl := hbreak <;> cases h

theorem body_charBody (c : Char) {cs text : List Char} (h : Body cs text) :
    Body (charBody c ++ cs) (c :: text) := by
  rw [charBody]
  split
  · next hplain =>
    have hbreak := isBreak_of_isPlain hplain
    rw [isPlain] at hplain
    simp only [Bool.and_eq_true, bne_iff_ne] at hplain
    exact .plain hplain.1.2 hplain.2 hbreak h
  · have hvalue : Text.valueIn 16 (Text.hexDigits 8 c.toNat) = c.toNat :=
      Text.valueIn_hexDigits c.val.toNat_lt
    have hescape : Escape ('U' :: Text.hexDigits 8 c.toNat)
        (Char.ofNat (Text.valueIn 16 (Text.hexDigits 8 c.toNat))) :=
      .numbered (by rw [Text.length_hexDigits]; rfl)
        (fun d hd => Text.digitValue_of_mem_hexDigits hd) (by rw [hvalue]; exact c.valid)
    rw [hvalue, Char.ofNat_toNat] at hescape
    exact .escape hescape h

theorem body_flatMap (text : List Char) : Body (text.flatMap charBody) text := by
  induction text with
  | nil => exact .nil
  | cons c more ih => exact body_charBody c ih

theorem isAllowed_of_printable {c : Char} (h : 0x20 ≤ c.toNat) (h' : c.toNat ≤ 0x7E) :
    isAllowed c = true := by
  simp [isAllowed, h, h']

theorem isAllowed_of_digitValue {c : Char} (h : (Text.digitValue c).isSome = true) :
    isAllowed c = true := by
  have hrange : ∀ low high : Char, (low ≤ c && c ≤ high) = true →
      low.toNat ≤ c.toNat ∧ c.toNat ≤ high.toNat := by
    intro low high hc
    rw [Bool.and_eq_true, decide_eq_true_eq, decide_eq_true_eq] at hc
    exact hc
  rw [Text.digitValue] at h
  split at h
  · next hdigit =>
    obtain ⟨hlow, hhigh⟩ := hrange '0' '9' hdigit
    exact isAllowed_of_printable (Nat.le_trans (by decide) hlow) (Nat.le_trans hhigh (by decide))
  · split at h
    · next hsmall =>
      obtain ⟨hlow, hhigh⟩ := hrange 'a' 'f' hsmall
      exact isAllowed_of_printable (Nat.le_trans (by decide) hlow) (Nat.le_trans hhigh (by decide))
    · split at h
      · next hlarge =>
        obtain ⟨hlow, hhigh⟩ := hrange 'A' 'F' hlarge
        exact isAllowed_of_printable (Nat.le_trans (by decide) hlow)
          (Nat.le_trans hhigh (by decide))
      · cases h

theorem isAllowed_charBody (c : Char) : ∀ d ∈ charBody c, isAllowed d = true := by
  intro d hd
  rw [charBody] at hd
  split at hd
  · next hplain =>
    rw [List.mem_singleton.mp hd]
    rw [isPlain] at hplain
    simp only [Bool.and_eq_true, decide_eq_true_eq] at hplain
    exact isAllowed_of_printable hplain.1.1.1 hplain.1.1.2
  · rcases List.mem_cons.mp hd with rfl | hd
    · rfl
    · rcases List.mem_cons.mp hd with rfl | hd
      · rfl
      · exact isAllowed_of_digitValue (Text.digitValue_of_mem_hexDigits hd)

end Strings

end StyleAudit.Yaml
