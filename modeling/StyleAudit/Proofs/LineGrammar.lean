import StyleAudit.Proofs.Text

/-!
# The grammar of statistics lines

A statistics line is blanks, decimal digits, blanks, capital letters, ASCII digits and a rest that
does not go on with an ASCII digit. A line has at most one such division, and reading finds it
exactly when there is one. The message is the rest without its outer blanks.
-/

namespace StyleAudit.Statistics
set_option autoImplicit false

open Text

@[ext]
structure Division where
  indent : List Char
  digits : List Char
  gap : List Char
  letters : List Char
  number : List Char
  rest : List Char

/-- The parts make up a line, and each is of its own kind. -/
structure Division.Of (line : List Char) (d : Division) : Prop where
  line_eq : line = d.indent ++ d.digits ++ d.gap ++ d.letters ++ d.number ++ d.rest
  indent_blank : ∀ c ∈ d.indent, isBlank c = true
  digits_ne_nil : d.digits ≠ []
  digits_decimal : ∀ c ∈ d.digits, isDecimal c = true
  gap_ne_nil : d.gap ≠ []
  gap_blank : ∀ c ∈ d.gap, isBlank c = true
  letters_ne_nil : d.letters ≠ []
  letters_upper : ∀ c ∈ d.letters, isAsciiUpper c = true
  number_ne_nil : d.number ≠ []
  number_digit : ∀ c ∈ d.number, isAsciiDigit c = true
  rest_stops : ∀ c ∈ d.rest.head?, isAsciiDigit c = false

namespace Division

def longest (line : List Char) : Division :=
  let body := line.dropWhile isBlank
  let entry := (body.dropWhile isDecimal).dropWhile isBlank
  { indent := line.takeWhile isBlank
    digits := body.takeWhile isDecimal
    gap := (body.dropWhile isDecimal).takeWhile isBlank
    letters := entry.takeWhile isAsciiUpper
    number := (entry.dropWhile isAsciiUpper).takeWhile isAsciiDigit
    rest := (entry.dropWhile isAsciiUpper).dropWhile isAsciiDigit }

/-- Every part ends where the next one begins, because the next one begins with a character of
another class. -/
theorem Of.eq_longest {line : List Char} {d : Division} (h : d.Of line) : d = longest line := by
  obtain ⟨indent, digits, gap, letters, number, rest⟩ := d
  obtain ⟨rfl, hindent, hdigits, hdecimal, hgap, hblank, hletters, hupper, hnumber, hdigit,
    hrest⟩ := h
  have hstop₁ := stops_append hdigits (fun c hc => not_isBlank_of_isDecimal (hdecimal c hc))
    (gap ++ (letters ++ (number ++ rest)))
  have hstop₂ := stops_append hgap (fun c hc => not_isDecimal_of_isBlank (hblank c hc))
    (letters ++ (number ++ rest))
  have hstop₃ := stops_append hletters (fun c hc => not_isBlank_of_isAsciiUpper (hupper c hc))
    (number ++ rest)
  have hstop₄ := stops_append hnumber
    (fun c hc => not_isAsciiUpper_of_isAsciiDigit (hdigit c hc)) rest
  simp only [longest, List.append_assoc, takeWhile_run hindent hstop₁,
    dropWhile_run hindent hstop₁, takeWhile_run hdecimal hstop₂, dropWhile_run hdecimal hstop₂,
    takeWhile_run hblank hstop₃, dropWhile_run hblank hstop₃, takeWhile_run hupper hstop₄,
    dropWhile_run hupper hstop₄, takeWhile_run hdigit hrest, dropWhile_run hdigit hrest]

theorem longest_of {line : List Char} (hdigits : (longest line).digits ≠ [])
    (hgap : (longest line).gap ≠ []) (hletters : (longest line).letters ≠ [])
    (hnumber : (longest line).number ≠ []) : (longest line).Of line where
  line_eq := by simp only [longest, List.append_assoc, List.takeWhile_append_dropWhile]
  indent_blank := fun _ hc => List.mem_takeWhile_imp hc
  digits_ne_nil := hdigits
  digits_decimal := fun _ hc => List.mem_takeWhile_imp hc
  gap_ne_nil := hgap
  gap_blank := fun _ hc => List.mem_takeWhile_imp hc
  letters_ne_nil := hletters
  letters_upper := fun _ hc => List.mem_takeWhile_imp hc
  number_ne_nil := hnumber
  number_digit := fun _ hc => List.mem_takeWhile_imp hc
  rest_stops := stops_dropWhile isAsciiDigit _

theorem Of.unique {line : List Char} {d e : Division} (hd : d.Of line) (he : e.Of line) : d = e :=
  hd.eq_longest.trans he.eq_longest.symm

end Division

/-- A line states a record: it has a division whose digits are an ASCII numeral for the count, whose
letters and number are the code, and whose rest is the message with blanks around it. -/
def States (line : List Char) (r : Record) : Prop :=
  ∃ d : Division, d.Of line ∧ (∀ c ∈ d.digits, isAsciiDigit c = true) ∧
    Nat.ofDigits 10 (d.digits.reverse.map fun c => c.toNat - 48) = r.count.toNat ∧
    r.code.toList = d.letters ++ d.number ∧ Trimmed d.rest r.message.toList

theorem read?_eq_longest (line : List Char) :
    Record.read? line =
      let d := Division.longest line
      if d.digits.isEmpty || d.gap.isEmpty || d.letters.isEmpty || d.number.isEmpty then none
      else (count? d.digits).map fun count =>
        { code := String.ofList (d.letters ++ d.number), count,
          message := String.ofList (trim d.rest) } := rfl

theorem states_of_read? {line : List Char} {r : Record} (h : Record.read? line = some r) :
    States line r := by
  rw [read?_eq_longest] at h
  dsimp only at h
  split at h
  · cases h
  · rename_i hparts
    simp only [Bool.or_eq_true, List.isEmpty_iff, not_or] at hparts
    obtain ⟨⟨⟨hdigits, hgap⟩, hletters⟩, hnumber⟩ := hparts
    obtain ⟨count, hcount, rfl⟩ := Option.map_eq_some_iff.mp h
    obtain ⟨hascii, hvalue⟩ := (count?_eq_some_iff _ _).mp hcount
    refine ⟨_, Division.longest_of hdigits hgap hletters hnumber, hascii, hvalue, ?_, ?_⟩
    · exact String.toList_ofList
    · rw [String.toList_ofList]
      exact trimmed_trim _

/-- A line with a division is read as a record if its digits can be read as a count. -/
theorem read?_of_division {line : List Char} {d : Division} (hd : d.Of line) :
    Record.read? line = (count? d.digits).map fun count =>
      { code := String.ofList (d.letters ++ d.number), count,
        message := String.ofList (trim d.rest) } := by
  obtain rfl := hd.eq_longest
  simp only [read?_eq_longest, List.isEmpty_eq_false_iff.mpr hd.digits_ne_nil,
    List.isEmpty_eq_false_iff.mpr hd.gap_ne_nil, List.isEmpty_eq_false_iff.mpr hd.letters_ne_nil,
    List.isEmpty_eq_false_iff.mpr hd.number_ne_nil, Bool.or_self, Bool.false_eq_true, if_false]

theorem read?_of_states {line : List Char} {r : Record} (h : States line r) :
    Record.read? line = some r := by
  obtain ⟨d, hd, hascii, hvalue, hcode, hmessage⟩ := h
  have hcount := (count?_eq_some_iff _ _).mpr ⟨hascii, hvalue⟩
  rw [read?_of_division hd, hcount, Option.map_some, ← hcode, hmessage.trim_eq,
    String.ofList_toList, String.ofList_toList]

theorem read?_eq_some_iff (line : List Char) (r : Record) :
    Record.read? line = some r ↔ States line r :=
  ⟨states_of_read?, read?_of_states⟩

/-- The records that lines state, in order. A line that states none is passed over. -/
inductive Transcript : List (List Char) → List Record → Prop
  | nil : Transcript [] []
  | entry {line : List Char} {r : Record} {lines : List (List Char)} {rs : List Record} :
      States line r → Transcript lines rs → Transcript (line :: lines) (r :: rs)
  | other {line : List Char} {lines : List (List Char)} {rs : List Record} :
      (∀ r, ¬States line r) → Transcript lines rs → Transcript (line :: lines) rs

theorem transcript_iff (lines : List (List Char)) (rs : List Record) :
    Transcript lines rs ↔ rs = lines.filterMap Record.read? := by
  constructor
  · intro h
    induction h with
    | nil => rfl
    | @entry line r _ _ hr _ ih => rw [List.filterMap_cons, (read?_eq_some_iff line r).mpr hr, ih]
    | @other line lines rs hnone _ ih =>
      cases hread : Record.read? line with
      | none => rw [List.filterMap_cons, hread, ih]
      | some r => exact False.elim (hnone r ((read?_eq_some_iff line r).mp hread))
  · rintro rfl
    induction lines with
    | nil => exact .nil
    | cons line lines ih =>
      cases hread : Record.read? line with
      | none =>
        rw [List.filterMap_cons, hread]
        refine .other (fun r hr => ?_) ih
        rw [(read?_eq_some_iff line r).mpr hr] at hread
        cases hread
      | some r =>
        rw [List.filterMap_cons, hread]
        exact .entry ((read?_eq_some_iff line r).mp hread) ih

/-- A line has at most one division, the lines of a text have exactly one transcript, and parsing
the text records that transcript. -/
theorem parse_records_the_transcript (text : String) :
    (∀ line (d e : Division), d.Of line → e.Of line → d = e) ∧
    ∃ rs, Transcript (rows (text.toList.splitOn '\n')) rs ∧
      (∀ other, Transcript (rows (text.toList.splitOn '\n')) other → other = rs) ∧
      parse text = rs.foldl (fun d r => d.record r.code r.count r.message) .empty := by
  refine ⟨fun line d e hd he => hd.unique he, records text, ?_, ?_, rfl⟩
  · rw [transcript_iff, ← lines_eq_rows, records]
  · intro other hother
    rw [transcript_iff, ← lines_eq_rows] at hother
    exact hother

end StyleAudit.Statistics
