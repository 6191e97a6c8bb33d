import Mathlib.Data.List.Basic
import StyleAudit.Presentation
import StyleAudit.Proofs.Influence
import StyleAudit.Proofs.Joining
import StyleAudit.Proofs.Outcomes

/-!
# Reading a summary back

A message is free text and may look like any line of a summary, but it has no line feed. So the
lines of a summary are known, and each of them is a header, a clean sentence or a detail line, where
the code and the count come before the message. Reading the detail lines gives back every finding,
and with it all that a report says.
-/

namespace StyleAudit
set_option autoImplicit false

open Text

namespace Statistics.Record

def isCodeChar (c : Char) : Bool := isAsciiUpper c || isAsciiDigit c

/-- The sequence that switches an effect, if the text is coloured. -/
def mark (coloured : Bool) (effect : String) : List Char :=
  if coloured then (escapeSequence effect).toList else []

/-- The record that a line of a summary shows. -/
def ofDetail? (coloured : Bool) (line : List Char) : Option Record := do
  let entry ← line.dropPrefix? ("    ".toList ++ mark coloured "31")
  let tail ← (entry.dropWhile isCodeChar).dropPrefix? (mark coloured "39" ++ ", ".toList)
  let count ← count? (tail.takeWhile isAsciiDigit)
  let message ← (tail.dropWhile isAsciiDigit).dropPrefix?
    (" occurrence".toList ++ (ending count).toList ++ ": ".toList)
  return ⟨String.ofList (entry.takeWhile isCodeChar), count, String.ofList message⟩

theorem toList_detail (coloured : Bool) (r : Record) :
    (r.detail coloured).toList = ("    ".toList ++ mark coloured "31") ++ (r.code.toList ++
      ((mark coloured "39" ++ ", ".toList) ++ (Nat.toDigits 10 r.count.toNat ++
        ((" occurrence".toList ++ (ending r.count).toList ++ ": ".toList) ++
          r.message.toList)))) := by
  have hnumber : (toString r.count.toNat).toList = Nat.toDigits 10 r.count.toNat :=
    Nat.toList_repr
  cases coloured with
  | false => simp only [detail, red, between, mark, Bool.false_eq_true, if_false,
      String.toList_append, hnumber, List.append_assoc, List.nil_append]
  | true => simp only [detail, red, between, mark, if_true, String.toList_append, hnumber,
      List.append_assoc]

theorem ofDetail?_detail (coloured : Bool) {r : Record}
    (hcode : ∀ c ∈ r.code.toList, isCodeChar c = true) :
    ofDetail? coloured (r.detail coloured).toList = some r := by
  have hdigits : ∀ c ∈ Nat.toDigits 10 r.count.toNat, isAsciiDigit c = true :=
    fun c hc => isAsciiDigit_of_mem_toDigits hc
  have hmark : ∀ rest, Stops isCodeChar (mark coloured "39" ++ ", ".toList ++ rest) := by
    intro rest c hc
    cases coloured <;> (cases hc; decide)
  have hword : ∀ rest, Stops isAsciiDigit
      (" occurrence".toList ++ (ending r.count).toList ++ ": ".toList ++ rest) := by
    intro rest c hc
    cases hc
    decide
  rw [toList_detail]
  -- Each prefix is taken off where it stands, and each run ends at the first character after it.
  simp only [ofDetail?, List.dropPrefix?_append_of_beq, beq_self_eq_true, Option.bind_eq_bind,
    Option.bind_some, dropWhile_run hcode (hmark _), takeWhile_run hcode (hmark _),
    takeWhile_run hdigits (hword _), dropWhile_run hdigits (hword _), count?_toDigits,
    String.ofList_toList]
  rfl

theorem newline_notMem_detail (coloured : Bool) {r : Record}
    (hcode : ∀ c ∈ r.code.toList, isCodeChar c = true) (hmessage : '\n' ∉ r.message.toList) :
    '\n' ∉ (r.detail coloured).toList := by
  have hname : '\n' ∉ r.code.toList := fun hin => absurd (hcode _ hin) (by decide)
  have hnumber : '\n' ∉ Nat.toDigits 10 r.count.toNat :=
    fun hin => absurd (isAsciiDigit_of_mem_toDigits hin) (by decide)
  have hending : '\n' ∉ (ending r.count).toList := by
    unfold ending
    split <;> decide
  have hon : '\n' ∉ "    ".toList ++ mark coloured "31" := by cases coloured <;> decide
  have hoff : '\n' ∉ mark coloured "39" ++ ", ".toList := by cases coloured <;> decide
  have hwords : '\n' ∉ " occurrence".toList ∧ '\n' ∉ ": ".toList := by decide
  rw [toList_detail]
  simp only [List.mem_append, not_or] at hon hoff ⊢
  exact ⟨hon, hname, hoff, hnumber, ⟨⟨hwords.1, hending⟩, hwords.2⟩, hmessage⟩

section Sections
variable (coloured : Bool) {set : CodeSet} (hset : set ∈ CodeSet.all)
include hset

theorem isCodeChar_of_mem_codes {code : String} (hcode : code ∈ set.codes) :
    ∀ c ∈ code.toList, isCodeChar c = true := by
  have hall : (CodeSet.judged.all fun code => code.toList.all isCodeChar) = true := by decide
  have hjudged : code ∈ CodeSet.judged := (CodeSet.mem_judged code).mpr ⟨set, hset, hcode⟩
  exact List.all_eq_true.mp (List.all_eq_true.mp hall code hjudged)

theorem fixed_words : '\n' ∉ set.header.toList ∧ '\n' ∉ set.clean.toList ∧
    ofDetail? false (set.header.toList ++ " Errors:".toList) = none := by
  revert set
  decide

theorem readParts_header :
    readParts (ofDetail? coloured) (bold coloured (set.header ++ " Errors:")) = [] := by
  obtain ⟨hheader, -, hplain⟩ := fixed_words hset
  have herrors : '\n' ∉ " Errors:".toList := by decide
  cases coloured with
  | false =>
    have htext : (bold false (set.header ++ " Errors:")).toList =
        set.header.toList ++ " Errors:".toList := String.toList_append
    have hline : '\n' ∉ (bold false (set.header ++ " Errors:")).toList := by
      rw [htext, List.mem_append, not_or]
      exact ⟨hheader, herrors⟩
    rw [readParts_line _ hline, htext, hplain]
    rfl
  | true =>
    have htext : (bold true (set.header ++ " Errors:")).toList =
        "\x1b[1m".toList ++ (set.header.toList ++ " Errors:".toList) ++ "\x1b[0m".toList := by
      simp only [bold, between, if_true, String.toList_append]
      rfl
    have hline : '\n' ∉ (bold true (set.header ++ " Errors:")).toList := by
      simp only [htext, List.mem_append, not_or]
      exact ⟨⟨by decide, hheader, herrors⟩, by decide⟩
    -- The text begins with an escape sequence, where a detail line begins with a space.
    rw [readParts_line _ hline, htext]
    rfl

theorem readParts_clean :
    readParts (ofDetail? coloured)
      ("    None. " ++ set.clean ++ " statements conform to PEP 8.") = [] := by
  obtain ⟨-, hclean, -⟩ := fixed_words hset
  have hline : '\n' ∉ ("    None. " ++ set.clean ++ " statements conform to PEP 8.").toList := by
    simp only [String.toList_append, List.mem_append, not_or]
    exact ⟨⟨by decide, hclean⟩, by decide⟩
  -- `None` would be read as the code `N`, and no comma follows it.
  rw [readParts_line _ hline, String.toList_append, String.toList_append, List.append_assoc]
  cases coloured <;> rfl

end Sections
end Statistics.Record

namespace Diagnostics

open Statistics (Record)

/-- What was found about the codes of a list, in its order. -/
def findings (d : Diagnostics) (codes : List String) : List Record :=
  (codes.filter fun code => decide (d.count code ≠ 0)).map d.finding

def sectionLines (d : Diagnostics) (coloured : Bool) (set : CodeSet) : List String :=
  bold coloured (set.header ++ " Errors:") ::
    if (d.findings set.codes).isEmpty then
      ["    None. " ++ set.clean ++ " statements conform to PEP 8."]
    else (d.findings set.codes).map (Record.detail coloured)

theorem sectionText_eq_ended (d : Diagnostics) (coloured : Bool) (set : CodeSet) :
    d.sectionText coloured set = ended (d.sectionLines coloured set) := by
  have hlines : (d.findings set.codes).map (fun r => r.detail coloured ++ "\n") =
      (set.codes.filter fun code => decide (d.count code ≠ 0)).map (d.detailLine coloured) := by
    rw [findings, List.map_map]
    rfl
  have hempty : (d.findings set.codes).isEmpty =
      (set.codes.filter fun code => decide (d.count code ≠ 0)).isEmpty := List.isEmpty_map
  rw [sectionText, sectionLines, ended, List.map_cons, String.join_cons, hempty, ← hlines]
  split
  · have hclean : " statements conform to PEP 8.\n" = " statements conform to PEP 8." ++ "\n" := rfl
    simp only [hclean, List.map_cons, List.map_nil, String.join_cons, String.join_nil,
      String.append_empty, String.append_assoc]
  · rw [List.map_map]
    rfl

theorem summary_eq_ended (d : Diagnostics) (coloured : Bool) :
    d.summary coloured = ended (CodeSet.all.flatMap (d.sectionLines coloured)) := by
  rw [summary]
  induction CodeSet.all with
  | nil => rfl
  | cons set rest ih =>
    rw [List.map_cons, String.join_cons, ih, sectionText_eq_ended, List.flatMap_cons, ended_append]

theorem mem_findings {d : Diagnostics} {codes : List String} {r : Record} :
    r ∈ d.findings codes ↔ r.code ∈ codes ∧ d.count r.code ≠ 0 ∧ r = d.finding r.code := by
  constructor
  · intro hr
    obtain ⟨code, hcode, rfl⟩ := List.mem_map.mp hr
    obtain ⟨hin, hcount⟩ := List.mem_filter.mp hcode
    have hne : d.count code ≠ 0 := by simpa using hcount
    exact ⟨hin, hne, rfl⟩
  · rintro ⟨hin, hne, heq⟩
    rw [heq]
    exact List.mem_map_of_mem (List.mem_filter.mpr ⟨hin, by simpa using hne⟩)

theorem findings_judged (d : Diagnostics) :
    d.findings CodeSet.judged = CodeSet.all.flatMap fun set => d.findings set.codes := by
  rw [findings, CodeSet.judged, List.filter_flatMap, List.map_flatMap]
  rfl

section Reading
variable {d : Diagnostics}
variable (hmessages : ∀ code message, d.message? code = some message → '\n' ∉ message.toList)
include hmessages

theorem newline_notMem_finding (code : String) : '\n' ∉ (d.finding code).message.toList := by
  change '\n' ∉ ((d.message? code).getD "").toList
  cases hm : d.message? code with
  | none => exact List.not_mem_nil
  | some message => exact hmessages code message hm

theorem readParts_sectionLines (coloured : Bool) {set : CodeSet} (hset : set ∈ CodeSet.all) :
    (d.sectionLines coloured set).flatMap (readParts (Record.ofDetail? coloured)) =
      d.findings set.codes := by
  have hdetail : ∀ r ∈ d.findings set.codes,
      readParts (Record.ofDetail? coloured) (r.detail coloured) = [r] := by
    intro r hr
    obtain ⟨hin, -, heq⟩ := mem_findings.mp hr
    have hcode := Record.isCodeChar_of_mem_codes hset hin
    have hmessage : '\n' ∉ r.message.toList := by
      rw [heq]
      exact newline_notMem_finding hmessages r.code
    rw [readParts_line _ (Record.newline_notMem_detail coloured hcode hmessage),
      Record.ofDetail?_detail coloured hcode]
    rfl
  rw [sectionLines, List.flatMap_cons, Record.readParts_header coloured hset, List.nil_append]
  split
  · rename_i hempty
    rw [List.flatMap_singleton, Record.readParts_clean coloured hset, List.isEmpty_iff.mp hempty]
  · rw [List.flatMap_map, List.flatMap_congr hdetail, List.flatMap_singleton']

/-- The detail lines of a summary say what was found, and its other lines say nothing. -/
theorem readParts_summary (coloured : Bool) :
    readParts (Record.ofDetail? coloured) (d.summary coloured) = d.findings CodeSet.judged := by
  rw [summary_eq_ended, readParts_ended _ (by cases coloured <;> rfl), List.flatMap_assoc,
    findings_judged]
  exact List.flatMap_congr fun set hset => readParts_sectionLines hmessages coloured hset

end Reading

theorem finding_eq_of_findings_eq {d d' : Diagnostics} {codes : List String}
    (h : d.findings codes = d'.findings codes) {code : String} (hcode : code ∈ codes)
    (hne : d.count code ≠ 0) : d.finding code = d'.finding code := by
  have hin : d.finding code ∈ d'.findings codes := by
    rw [← h]
    exact mem_findings.mpr ⟨hcode, hne, rfl⟩
  exact (mem_findings.mp hin).2.2

theorem count_eq_of_findings_eq {d d' : Diagnostics} {codes : List String}
    (h : d.findings codes = d'.findings codes) {code : String} (hcode : code ∈ codes) :
    d.count code = d'.count code := by
  by_cases hne : d.count code = 0
  · by_cases hne' : d'.count code = 0
    · rw [hne, hne']
    · exact (congrArg Record.count (finding_eq_of_findings_eq h.symm hcode hne')).symm
  · exact congrArg Record.count (finding_eq_of_findings_eq h hcode hne)

theorem message?_eq_of_findings_eq {d d' : Diagnostics} {codes : List String}
    (h : d.findings codes = d'.findings codes) {code : String} (hcode : code ∈ codes)
    (hpos : 0 < d.count code) : d.message? code = d'.message? code := by
  have hpos' : 0 < d'.count code := count_eq_of_findings_eq h hcode ▸ hpos
  obtain ⟨message, hm⟩ := message?_of_count_pos hpos
  obtain ⟨message', hm'⟩ := message?_of_count_pos hpos'
  have hsame := congrArg Record.message
    (finding_eq_of_findings_eq h hcode (UInt64.pos_iff_ne_zero.mp hpos))
  simp only [finding, hm, hm', Option.getD_some] at hsame
  rw [hm, hm', hsame]

end Diagnostics

theorem Statistics.newline_notMem_message?_parse (text code message : String)
    (h : (parse text).message? code = some message) : '\n' ∉ message.toList := by
  have hfirst := (Diagnostics.firstMessage_of_message? h).2 (records text) rfl
  obtain ⟨r, hr, rfl⟩ := Option.map_eq_some_iff.mp hfirst
  exact newline_notMem_message (List.mem_of_find?_eq_some hr)

/-- Two outputs of checkers with the same summary, coloured or not, state the same count for every
code of a code set, and the same message if the code occurs. Any naming checker makes the same
report with both. -/
theorem Diagnostics.summary_tells_apart (coloured : Bool) (text text' : String)
    (h : (Statistics.parse text).summary coloured = (Statistics.parse text').summary coloured) :
    (∀ set ∈ CodeSet.all, ∀ code ∈ set.codes,
      (Statistics.parse text).count code = (Statistics.parse text').count code ∧
      (0 < (Statistics.parse text).count code →
        (Statistics.parse text).message? code = (Statistics.parse text').message? code)) ∧
    ∀ (τ : Type) (naming : NamingChecker τ) (path : String) (s : τ),
      Audit.buildReport naming (Statistics.parse text).counters path s =
        Audit.buildReport naming (Statistics.parse text').counters path s := by
  have hfindings : (Statistics.parse text).findings CodeSet.judged =
      (Statistics.parse text').findings CodeSet.judged := by
    rw [← readParts_summary (Statistics.newline_notMem_message?_parse text) coloured,
      ← readParts_summary (Statistics.newline_notMem_message?_parse text') coloured, h]
  constructor
  · intro set hset code hcode
    have hjudged : code ∈ CodeSet.judged := (CodeSet.mem_judged code).mpr ⟨set, hset, hcode⟩
    exact ⟨count_eq_of_findings_eq hfindings hjudged, message?_eq_of_findings_eq hfindings hjudged⟩
  · intro τ naming path s
    have hreport : Report.ofCounters (Statistics.parse text).counters =
        Report.ofCounters (Statistics.parse text').counters := by
      funext answer
      apply Report.ofCounters_eq_of_counts
      exact fun code hjudged => count_eq_of_findings_eq hfindings hjudged
    rw [Audit.buildReport_apply, Audit.buildReport_apply, hreport]

/-- A message with a line of a summary in it; the counts come from one line and from two, and a code
of no code set is left out. -/
theorem Diagnostics.summary_of_two_outputs :
    let text := "2 E501     E401, 3 occurrences: x\n"
    let text' := "1 E501     E401, 3 occurrences: x\nnoise\n1 E501 y\n4 W605 z"
    (Statistics.parse text).summary true = (Statistics.parse text').summary true ∧
    (Statistics.parse text).count "E401" = (Statistics.parse text').count "E401" ∧
    (Statistics.parse text).count "E501" = (Statistics.parse text').count "E501" ∧
    0 < (Statistics.parse text).count "E501" ∧
    (Statistics.parse text).message? "E501" = (Statistics.parse text').message? "E501" := by
  intro text text'
  have hsame : (Statistics.parse text).summary true = (Statistics.parse text').summary true := by
    decide +kernel
  have htold := (Diagnostics.summary_tells_apart true text text' hsame).1
  have himport := htold .imports (by simp [CodeSet.all]) "E401" (by decide)
  have hlength := htold .lineLength (by simp [CodeSet.all]) "E501" (by decide)
  have hpos : 0 < (Statistics.parse text).count "E501" := by decide
  exact ⟨hsame, himport.1, hlength.1, hpos, hlength.2 hpos⟩

end StyleAudit
