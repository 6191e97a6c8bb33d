import Mathlib.Data.List.TakeWhile
import StyleAudit.Proofs.ExitContract
import StyleAudit.Proofs.SummaryReading

/-!
# What colour adds

An escape sequence can be taken out of a text piece by piece where the next piece begins with a
character that no sequence goes on with: a sequence that a message begins and does not end is not
completed by what comes after it. The line feed at the end of a line is such a character, so the
lines of a summary can be looked at one by one, and in each of them the sequences that switch an
effect on and off are all that colour has added.
-/

namespace StyleAudit
set_option autoImplicit false

namespace Text

/-- The digits of an escape sequence. If `bare`, there may be none. -/
def IsEffect (bare : Bool) (digits : List Char) : Prop :=
  (bare = true ∨ digits ≠ []) ∧ ∀ c ∈ digits, isAsciiDigit c = true

/-- What follows the escape sequence at the front of a text: ESC, `[`, digits and `m`. -/
def afterSequence? (bare : Bool) : List Char → Option (List Char)
  | '\x1b' :: '[' :: body =>
    if bare || !(body.takeWhile isAsciiDigit).isEmpty then
      match body.dropWhile isAsciiDigit with
      | 'm' :: rest => some rest
      | _ => none
    else none
  | _ => none

theorem afterSequence?_eq_some_iff {bare : Bool} {text rest : List Char} :
    afterSequence? bare text = some rest ↔
      ∃ digits, IsEffect bare digits ∧ text = '\x1b' :: '[' :: (digits ++ 'm' :: rest) := by
  constructor
  · intro h
    unfold afterSequence? at h
    split at h
    · rename_i body
      split at h
      · rename_i hdigits
        split at h
        · rename_i tail hbody
          obtain rfl : tail = rest := Option.some.inj h
          refine ⟨body.takeWhile isAsciiDigit, ⟨?_, ?_⟩, ?_⟩
          · simpa using hdigits
          · exact fun c hc => List.mem_takeWhile_imp hc
          · rw [← hbody, List.takeWhile_append_dropWhile]
        · cases h
      · cases h
    · cases h
  · rintro ⟨digits, ⟨hbare, hdigits⟩, rfl⟩
    have hstop : Stops isAsciiDigit ('m' :: rest) := by
      intro c hc
      cases hc
      decide
    have hcounts : (bare || !digits.isEmpty) = true := by simpa using hbare
    rw [afterSequence?, takeWhile_run hdigits hstop, dropWhile_run hdigits hstop, if_pos hcounts]
    rfl

theorem length_afterSequence?_lt {bare : Bool} {text rest : List Char}
    (h : afterSequence? bare text = some rest) : rest.length < text.length := by
  obtain ⟨digits, -, rfl⟩ := afterSequence?_eq_some_iff.mp h
  simp only [List.length_cons, List.length_append]
  omega

/-- The text without its escape sequences, taken out in one go from left to right. -/
def strip (bare : Bool) : List Char → List Char
  | [] => []
  | c :: rest =>
    match _h : afterSequence? bare (c :: rest) with
    | some tail => strip bare tail
    | none => c :: strip bare rest
termination_by text => text.length
decreasing_by
  · exact length_afterSequence?_lt _h
  · exact Nat.lt_succ_self _

section Stripping
variable {bare : Bool}

theorem strip_nil : strip bare [] = [] := by rw [strip]

theorem strip_of_some {text tail : List Char} (h : afterSequence? bare text = some tail) :
    strip bare text = strip bare tail := by
  cases text with
  | nil => cases h
  | cons c rest =>
    rw [strip]
    split
    · rename_i other hother
      rw [h] at hother
      rw [Option.some.inj hother]
    · rename_i hnone
      rw [h] at hnone
      cases hnone

theorem strip_of_none {c : Char} {rest : List Char}
    (h : afterSequence? bare (c :: rest) = none) :
    strip bare (c :: rest) = c :: strip bare rest := by
  rw [strip]
  split
  · rename_i other hother
    rw [h] at hother
    cases hother
  · rfl

/-- The text does not go on with an escape sequence that was begun before it. -/
def Breaks (text : List Char) : Prop :=
  ∀ c ∈ text.head?, c ≠ '[' ∧ c ≠ 'm' ∧ isAsciiDigit c = false

/-- No text that breaks begins with a character from inside a sequence. -/
theorem not_breaks_of_mem {digits : List Char} (h : IsEffect bare digits) {c : Char}
    (hc : c ∈ '[' :: (digits ++ ['m'])) (rest : List Char) : ¬Breaks (c :: rest) := by
  intro hb
  obtain ⟨hbracket, hend, hdigit⟩ := hb c rfl
  simp only [List.mem_cons, List.mem_append, List.not_mem_nil, or_false] at hc
  rcases hc with hc | hc | hc
  · exact hbracket hc
  · rw [h.2 c hc] at hdigit
    cases hdigit
  · exact hend hc

/-- A sequence that begins in the first part of a text ends there, too. -/
theorem afterSequence?_append {a b : List Char} (hne : a ≠ []) (hb : Breaks b) :
    afterSequence? bare (a ++ b) = (afterSequence? bare a).map (· ++ b) := by
  refine Option.ext fun rest => ?_
  rw [Option.map_eq_some_iff]
  constructor
  · intro h
    obtain ⟨digits, heffect, htext⟩ := afterSequence?_eq_some_iff.mp h
    have hsplit : a ++ b = ('\x1b' :: '[' :: (digits ++ ['m'])) ++ rest := by simp [htext]
    rcases List.append_eq_append_iff.mp hsplit with ⟨inner, hsequence, hinner⟩ | ⟨tail, ha, hrest⟩
    · -- What is left of the sequence is at the front of `b`, so nothing is.
      cases inner with
      | nil =>
        refine ⟨[], afterSequence?_eq_some_iff.mpr ⟨digits, heffect, ?_⟩, by simpa using hinner⟩
        simpa using hsequence.symm
      | cons c inner =>
        obtain ⟨first, front, rfl⟩ := List.exists_cons_of_ne_nil hne
        have hc : c ∈ '[' :: (digits ++ ['m']) := by
          rw [(List.cons.inj hsequence).2]
          simp
        rw [hinner] at hb
        exact absurd hb (not_breaks_of_mem heffect hc _)
    · refine ⟨tail, afterSequence?_eq_some_iff.mpr ⟨digits, heffect, ?_⟩, hrest.symm⟩
      simpa using ha
  · rintro ⟨tail, htail, rfl⟩
    obtain ⟨digits, heffect, rfl⟩ := afterSequence?_eq_some_iff.mp htail
    exact afterSequence?_eq_some_iff.mpr ⟨digits, heffect, by simp⟩

theorem strip_append (a : List Char) {b : List Char} (hb : Breaks b) :
    strip bare (a ++ b) = strip bare a ++ strip bare b := by
  -- One step takes off a character or a whole sequence, and `b` stays at the end either way.
  induction a using strip.induct bare with
  | case1 => rw [strip_nil]; rfl
  | case2 c rest tail h ih =>
    have happend : afterSequence? bare (c :: rest ++ b) =
        (afterSequence? bare (c :: rest)).map (· ++ b) :=
      afterSequence?_append (List.cons_ne_nil c rest) hb
    rw [h] at happend
    rw [strip_of_some happend, strip_of_some h, ih]
  | case3 c rest h ih =>
    have happend : afterSequence? bare (c :: rest ++ b) =
        (afterSequence? bare (c :: rest)).map (· ++ b) :=
      afterSequence?_append (List.cons_ne_nil c rest) hb
    rw [h, List.cons_append] at happend
    rw [List.cons_append, strip_of_none happend, strip_of_none h, ih, List.cons_append]

theorem afterSequence?_cons {c : Char} (h : c ≠ '\x1b') (rest : List Char) :
    afterSequence? bare (c :: rest) = none := by
  rw [Option.eq_none_iff_forall_ne_some]
  intro tail htail
  obtain ⟨digits, -, htext⟩ := afterSequence?_eq_some_iff.mp htail
  exact h (List.cons.inj htext).1

/-- Text without ESC stays as it is, whatever comes after it. -/
theorem strip_plain_append {a : List Char} (h : '\x1b' ∉ a) (b : List Char) :
    strip bare (a ++ b) = a ++ strip bare b := by
  induction a with
  | nil => rfl
  | cons c rest ih =>
    simp only [List.mem_cons, not_or] at h
    rw [List.cons_append, strip_of_none (afterSequence?_cons (Ne.symm h.1) _), ih h.2,
      List.cons_append]

theorem strip_plain {text : String} (h : Plain text) :
    strip bare text.toList = text.toList := by
  have hend : strip bare (text.toList ++ []) = text.toList ++ strip bare [] :=
    strip_plain_append h []
  rwa [strip_nil, List.append_nil] at hend

end Stripping

section Marks
open Statistics.Record (mark)
variable {bare : Bool} (coloured : Bool)

theorem mark_true (effect : String) :
    mark true effect = '\x1b' :: '[' :: (effect.toList ++ ['m']) := by
  simp [mark, escapeSequence]

theorem strip_mark {effect : String} (h : IsEffect bare effect.toList) (rest : List Char) :
    strip bare (mark coloured effect ++ rest) = strip bare rest := by
  cases coloured with
  | false => rfl
  | true =>
    apply strip_of_some
    refine afterSequence?_eq_some_iff.mpr ⟨effect.toList, h, ?_⟩
    simp [mark_true]

theorem breaks_mark (effect : String) {rest : List Char} (h : Breaks rest) :
    Breaks (mark coloured effect ++ rest) := by
  cases coloured with
  | false => exact h
  | true =>
    intro c hc
    obtain rfl : '\x1b' = c := by simpa [mark_true] using hc
    decide

/-- Marks around a text, on or off, leave what would be left without them. -/
theorem strip_marked {on off : String} (hon : IsEffect bare on.toList)
    (hoff : IsEffect bare off.toList) (text : List Char) {rest : List Char} (h : Breaks rest) :
    strip bare (mark coloured on ++ (text ++ (mark coloured off ++ rest))) =
      strip bare text ++ strip bare rest := by
  rw [strip_mark coloured hon, strip_append text (breaks_mark coloured off h),
    strip_mark coloured hoff]

theorem toList_between (on off : String) (text : String) :
    (between on off coloured text).toList =
      mark coloured on ++ (text.toList ++ mark coloured off) := by
  cases coloured with
  | false => exact (List.append_nil _).symm
  | true => simp [between, mark]

end Marks

section Lines
variable {bare : Bool}

theorem breaks_newline (rest : List Char) : Breaks ('\n' :: rest) := by
  intro c hc
  cases hc
  decide

theorem strip_ended (lines : List String) :
    strip bare (ended lines).toList =
      lines.flatMap fun line => strip bare line.toList ++ ['\n'] := by
  induction lines with
  | nil => exact strip_nil
  | cons line rest ih =>
    have htext : (ended (line :: rest)).toList = line.toList ++ '\n' :: (ended rest).toList := by
      rw [ended, List.map_cons, String.join_cons, String.toList_append, String.toList_append,
        List.append_assoc]
      rfl
    have hplain : strip bare ('\n' :: (ended rest).toList) =
        ['\n'] ++ strip bare (ended rest).toList :=
      strip_of_none (afterSequence?_cons (by decide) _)
    rw [htext, strip_append _ (breaks_newline _), hplain, ih, List.flatMap_cons,
      List.append_assoc]

/-- Texts whose lines agree without their sequences agree without their sequences. -/
theorem strip_ended_congr {lines lines' : List String}
    (h : lines.map (fun line => strip bare line.toList) =
      lines'.map fun line => strip bare line.toList) :
    strip bare (ended lines).toList = strip bare (ended lines').toList := by
  have hflat : ∀ texts : List String,
      (texts.flatMap fun line => strip bare line.toList ++ ['\n']) =
        (texts.map fun line => strip bare line.toList).flatMap (· ++ ['\n']) := by
    intro texts
    rw [List.flatMap_map]
  rw [strip_ended, strip_ended, hflat, hflat, h]

end Lines
end Text

open Text
open Statistics (Record)

section Shown
variable (bare coloured : Bool)

theorem isEffect_of_digits {effect : String}
    (h : effect.toList ≠ [] ∧ effect.toList.all isAsciiDigit = true) :
    IsEffect bare effect.toList :=
  ⟨.inr h.1, List.all_eq_true.mp h.2⟩

theorem Statistics.Record.strip_detail (r : Record) :
    strip bare (r.detail coloured).toList = strip bare (r.detail false).toList := by
  have hbreaks : ∀ rest, Breaks (", ".toList ++ rest) := by
    intro rest c hc
    cases hc
    decide
  have hindent : '\x1b' ∉ "    ".toList := by decide
  have hstripped : ∀ c, strip bare (r.detail c).toList = "    ".toList ++
      (strip bare r.code.toList ++ strip bare (", ".toList ++ (Nat.toDigits 10 r.count.toNat ++
        ((" occurrence".toList ++ (Record.ending r.count).toList ++ ": ".toList) ++
          r.message.toList)))) := by
    intro c
    rw [Record.toList_detail, List.append_assoc, strip_plain_append hindent, List.append_assoc,
      strip_marked c (isEffect_of_digits bare (by decide)) (isEffect_of_digits bare (by decide)) _
        (hbreaks _)]
  rw [hstripped, hstripped]

theorem strip_bold (text : String) :
    strip bare (bold coloured text).toList = strip bare text.toList := by
  have hend : Breaks [] := fun c hc => absurd hc (by simp)
  have hon : IsEffect bare "1".toList := isEffect_of_digits bare (by decide)
  have hoff : IsEffect bare "0".toList := isEffect_of_digits bare (by decide)
  have hmarked := strip_marked coloured hon hoff text.toList hend
  rw [List.append_nil, strip_nil, List.append_nil] at hmarked
  rw [bold, toList_between, hmarked]

end Shown

namespace Diagnostics

/-- The summary and the footer of a report, line by line. -/
def shownLines (d : Diagnostics) (r : Report) (coloured : Bool) : List String :=
  CodeSet.all.flatMap (d.sectionLines coloured) ++ [bold coloured r.footer]

theorem display_human (d : Diagnostics) (r : Report) (coloured : Bool) :
    r.display d "human" coloured = ended (d.shownLines r coloured) := by
  rw [Report.display, if_pos rfl, summary_eq_ended, shownLines, ended_append, String.append_assoc]
  rfl

variable (bare : Bool) (d : Diagnostics)

theorem map_strip_sectionLines (coloured : Bool) (set : CodeSet) :
    (d.sectionLines coloured set).map (fun line => strip bare line.toList) =
      (d.sectionLines false set).map fun line => strip bare line.toList := by
  rw [sectionLines, sectionLines, List.map_cons, List.map_cons, strip_bold bare coloured,
    strip_bold bare false]
  split
  · rfl
  · rw [List.map_map, List.map_map]
    congr 1
    exact List.map_congr_left fun r _ => r.strip_detail bare coloured

theorem map_strip_summaryLines (coloured : Bool) :
    (CodeSet.all.flatMap (d.sectionLines coloured)).map (fun line => strip bare line.toList) =
      (CodeSet.all.flatMap (d.sectionLines false)).map fun line => strip bare line.toList := by
  rw [List.map_flatMap, List.map_flatMap]
  exact List.flatMap_congr fun set _ => d.map_strip_sectionLines bare coloured set

theorem strip_summary (coloured : Bool) :
    strip bare (d.summary coloured).toList = strip bare (d.summary false).toList := by
  rw [summary_eq_ended, summary_eq_ended]
  exact strip_ended_congr (d.map_strip_summaryLines bare coloured)

theorem strip_display (r : Report) (mode : String) (coloured : Bool) :
    strip bare (r.display d mode coloured).toList = strip bare (r.display d mode false).toList := by
  by_cases hmode : mode = "human"
  · subst hmode
    rw [display_human, display_human]
    apply strip_ended_congr
    simp only [shownLines, List.map_append, List.map_cons, List.map_nil,
      d.map_strip_summaryLines bare coloured, strip_bold]
  · rw [Report.display, Report.display, if_neg hmode, if_neg hmode]

/-- Colour adds nothing to a summary but escape sequences, whatever the messages hold, and nothing
to what is printed for a report, whether the variable that forbids colour is set or not. Where no
message holds an ESC, what is left of the coloured summary is the uncoloured one. -/
theorem colour_adds_only_sequences (bare : Bool) (d : Diagnostics) :
    strip bare (d.summary true).toList = strip bare (d.summary false).toList ∧
    (∀ (r : Report) (mode : String) (noColor noColor' : Option String),
      strip bare (r.display d mode noColor.isNone).toList =
        strip bare (r.display d mode noColor'.isNone).toList) ∧
    ((∀ code message, d.message? code = some message → Plain message) →
      strip bare (d.summary true).toList = (d.summary false).toList) := by
  refine ⟨d.strip_summary bare true, ?_, ?_⟩
  · intro r mode noColor noColor'
    rw [d.strip_display bare r mode noColor.isNone, d.strip_display bare r mode noColor'.isNone]
  · intro hmessages
    rw [d.strip_summary bare true, strip_plain (plain_summary hmessages)]

/-- A message that holds a sequence, a line feed and a sequence that is cut off at its end, and one
that would go on with a sequence. -/
theorem colour_of_cut_sequences :
    let cut := Diagnostics.empty.record "E501" 2 "a \x1b[31mb\n\x1b[3"
    let plain := Diagnostics.empty.record "E501" 2 "[31m"
    strip false (cut.summary true).toList = strip false (cut.summary false).toList ∧
    (∀ code message, plain.message? code = some message → Plain message) ∧
    strip false (plain.summary true).toList = (plain.summary false).toList ∧
    plain.summary true ≠ plain.summary false := by
  intro cut plain
  have hmessages : ∀ code message, plain.message? code = some message → Plain message := by
    intro code message hmessage
    rw [message?_record] at hmessage
    split at hmessage
    · obtain rfl : "[31m" = message := Option.some.inj hmessage
      decide
    · cases hmessage
  exact ⟨(colour_adds_only_sequences false cut).1, hmessages,
    (colour_adds_only_sequences false plain).2.2 hmessages, by decide +kernel⟩

example : strip false "\x1b[\x1b[1m31m\x1b[m".toList = "\x1b[31m\x1b[m".toList := by cbv

end Diagnostics
end StyleAudit
