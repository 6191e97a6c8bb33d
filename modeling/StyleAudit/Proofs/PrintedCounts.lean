import StyleAudit.Proofs.Growth
import StyleAudit.Proofs.Printing

/-!
# Printed counts

A checker may print a count with any number of digits. As long as its value is a count, it is
recorded as it was printed, and a larger one among the same other lines makes no report better. The
sum of recorded counts stops at the largest count, but a single numeral beyond it does not: its line
is passed over like one that is no statistics, and the findings it states are lost.
-/

namespace StyleAudit
set_option autoImplicit false

open Text

namespace Statistics

/-- One or more ASCII digits. Zeros may lead. -/
structure Numeral where
  digits : List Char
  digits_ne_nil : digits ≠ []
  digits_ascii : ∀ c ∈ digits, isAsciiDigit c = true

namespace Numeral

def ofText (text : String) (h : text.toList ≠ [] ∧ text.toList.all isAsciiDigit = true) :
    Numeral :=
  ⟨text.toList, h.1, List.all_eq_true.mp h.2⟩

def value (n : Numeral) : Nat := Nat.ofDigits 10 (n.digits.reverse.map fun c => c.toNat - 48)

/-- The numeral, a code and a message with spaces between them. -/
def line (n : Numeral) (code message : String) : String :=
  String.ofList n.digits ++ " " ++ code ++ " " ++ message

theorem count?_digits (n : Numeral) : count? n.digits = Count.ofNat? n.value := by
  rw [count?, if_pos (List.all_eq_true.mpr n.digits_ascii), valueIn_eq_ofDigits n.digits_ascii]
  rfl

theorem toList_line (n : Numeral) (code message : String) :
    (n.line code message).toList =
      n.digits ++ ' ' :: (code.toList ++ ' ' :: message.toList) := by
  simp [line]

section Lines
variable (n : Numeral) {code message : String} (hcode : IsCode code)
variable (hmessage : '\n' ∉ message.toList)
include hcode

theorem read?_line : Record.read? (n.line code message).toList =
    (Count.ofNat? n.value).map fun count =>
      ⟨code, count, String.ofList (trim (' ' :: message.toList))⟩ := by
  obtain ⟨letters, number, hparts, hletters, hupper, hnumber, hdigit⟩ := hcode
  have hspace : isBlank ' ' = true := by decide
  have hdivided : Division.Of (n.line code message).toList
      ⟨[], n.digits, [' '], letters, number, ' ' :: message.toList⟩ := by
    refine ⟨?_, by simp, n.digits_ne_nil, ?_, List.cons_ne_nil _ _, by simpa using hspace,
      hletters, hupper, hnumber, hdigit, ?_⟩
    · rw [toList_line, hparts]
      simp
    · exact fun c hc => isDecimal_of_isAsciiDigit (n.digits_ascii c hc)
    · intro c hc
      obtain rfl : ' ' = c := by simpa using hc
      exact not_isAsciiDigit_of_isBlank hspace
  rw [read?_of_division hdivided, n.count?_digits, ← hparts, String.ofList_toList]

include hmessage

theorem records_line : records (n.line code message) =
    ((Count.ofNat? n.value).map fun count =>
      (⟨code, count, String.ofList (trim (' ' :: message.toList))⟩ : Record)).toList := by
  have hdigits : '\n' ∉ n.digits := fun h => absurd (n.digits_ascii _ h) (by decide)
  have hline : '\n' ∉ (n.line code message).toList := by
    rw [toList_line]
    simp [hdigits, hcode.newline_notMem, hmessage]
  rw [records_eq_readParts, readParts_line _ hline, n.read?_line hcode]

/-- The line states its count if it fits, and states nothing about any code otherwise. -/
theorem stated_line (other : String) : stated other (records (n.line code message)) =
    if code = other ∧ n.value < 2 ^ 64 then n.value else 0 := by
  rw [n.records_line hcode hmessage]
  by_cases hfits : n.value < 2 ^ 64
  · have hcount : Count.ofNat? n.value = some (UInt64.ofNat n.value) := if_pos hfits
    have hvalue : (UInt64.ofNat n.value).toNat = n.value := UInt64.toNat_ofNat_of_lt' hfits
    simp only [hcount, Option.map_some, Option.toList_some, stated, List.map_singleton,
      List.sum_singleton, hvalue, hfits, and_true]
  · have hcount : Count.ofNat? n.value = none := if_neg hfits
    rw [hcount, if_neg fun h => hfits h.2]
    rfl

theorem parse_line_of_overflow (h : 2 ^ 64 ≤ n.value) :
    parse (n.line code message) = .empty := by
  have hcount : Count.ofNat? n.value = none := if_neg (by omega)
  rw [parse, n.records_line hcode hmessage, hcount]
  rfl

end Lines
end Numeral

/-- A line can stand between the two texts: each of them is empty or parted from it by a line
feed. -/
def Encloses (before after : String) : Prop :=
  (before = "" ∨ ∃ a, before = a ++ "\n") ∧ (after = "" ∨ ∃ b, after = "\n" ++ b)

theorem records_enclosed {before after : String} (h : Encloses before after) (line : String) :
    records (before ++ line ++ after) = records before ++ records line ++ records after := by
  have hempty : records "" = [] := rfl
  have hbefore : ∀ text, records (before ++ text) = records before ++ records text := by
    intro text
    obtain rfl | ⟨a, rfl⟩ := h.1
    · rw [String.empty_append, hempty, List.nil_append]
    · have hended := records_append_newline a ""
      rw [String.append_empty, hempty, List.append_nil] at hended
      rw [records_append_newline, hended]
  have hafter : ∀ text, records (text ++ after) = records text ++ records after := by
    intro text
    obtain rfl | ⟨b, rfl⟩ := h.2
    · rw [String.append_empty, hempty, List.append_nil]
    · have hbegun := records_append_newline "" b
      rw [String.empty_append, hempty, List.nil_append] at hbegun
      rw [← String.append_assoc, records_append_newline, hbegun]
  rw [hafter, hbefore]

theorem stated_append (code : String) (rs rs' : List Record) :
    stated code (rs ++ rs') = stated code rs + stated code rs' := by
  rw [stated, List.map_append, List.sum_append]
  rfl

section Growing
variable {less more : Numeral} (hle : less.value ≤ more.value) (hfits : more.value < 2 ^ 64)
variable {code message : String} (hcode : IsCode code) (hmessage : '\n' ∉ message.toList)
variable {before after : String} (henclosed : Encloses before after)
include hle hfits hcode hmessage henclosed

theorem count_parse_le_of_value_le (other : String) :
    (parse (before ++ less.line code message ++ after)).count other ≤
      (parse (before ++ more.line code message ++ after)).count other := by
  have hline : stated other (records (less.line code message)) ≤
      stated other (records (more.line code message)) := by
    have hless : less.value < 2 ^ 64 := by omega
    rw [less.stated_line hcode hmessage, more.stated_line hcode hmessage]
    by_cases hsame : code = other
    · rw [if_pos ⟨hsame, hless⟩, if_pos ⟨hsame, hfits⟩]
      exact hle
    · rw [if_neg fun h => hsame h.1, if_neg fun h => hsame h.1]
  rw [UInt64.le_iff_toNat_le, toNat_count_parse, toNat_count_parse, records_enclosed henclosed,
    records_enclosed henclosed]
  apply Count.capped_mono
  simp only [stated_append]
  omega

end Growing

theorem isCode_longLine : IsCode "E501" :=
  ⟨['E'], ['5', '0', '1'], rfl, by decide, List.all_eq_true.mp rfl, by decide,
    List.all_eq_true.mp rfl⟩

end Statistics

open Statistics (Numeral IsCode Encloses parse isCode_longLine)

/-- A printed count whose value fits is the count of its code, and a larger one that fits makes no
report better, whatever is printed before and after the line and whatever the naming checker
answers. A count that does not fit takes its line away. -/
theorem Audit.printed_counts_are_kept (n : Numeral) (code message : String) (hcode : IsCode code)
    (hmessage : '\n' ∉ message.toList) :
    (n.value < 2 ^ 64 →
      ((parse (n.line code message)).count code).toNat = min (2 ^ 64 - 1) n.value) ∧
    (2 ^ 64 ≤ n.value → parse (n.line code message) = .empty) ∧
    ∀ less : Numeral, less.value ≤ n.value → n.value < 2 ^ 64 →
      ∀ before after, Encloses before after →
      ∀ (τ : Type) (naming : NamingChecker τ) (path : String) (s : τ) (answer : Verdict × Count),
        (naming.results path s).1 = .ok answer →
        ∃ first second,
          (buildReport naming (parse (before ++ less.line code message ++ after)).counters
            path s).1 = .ok first ∧
          (buildReport naming (parse (before ++ n.line code message ++ after)).counters
            path s).1 = .ok second ∧
          second.NoBetterThan first := by
  refine ⟨?_, n.parse_line_of_overflow hcode hmessage, ?_⟩
  · intro hfits
    rw [Statistics.toNat_count_parse, n.stated_line hcode hmessage, if_pos ⟨rfl, hfits⟩]
    rfl
  · intro less hle hfits before after henclosed τ naming path s answer hanswer
    have hbuilt : ∀ m, (buildReport naming m path s).1 = .ok (Report.ofCounters m answer) := by
      intro m
      rw [buildReport_apply, hanswer]
      rfl
    refine ⟨_, _, hbuilt _, hbuilt _, Report.ofCounters_noBetterThan ?_ answer⟩
    intro other
    rw [Diagnostics.getD_counters, Diagnostics.getD_counters]
    exact Statistics.count_parse_le_of_value_le hle hfits hcode hmessage henclosed other

/-- The largest count, printed with a zero in front and between a smaller count of the same code and
one of another code. -/
theorem Audit.largest_count_is_kept :
    let naming : NamingChecker Unit := ⟨fun _ => pure (.compliant, 0), pure ()⟩
    let less := Numeral.ofText "7" (by decide)
    let more := Numeral.ofText "018446744073709551615" (by decide)
    let output (n : Numeral) := "1 E501 a\r\n" ++ n.line "E501" " b 2 E501 c\r" ++ "\n3 W191 d"
    IsCode "E501" ∧ less.value ≤ more.value ∧ more.value < 2 ^ 64 ∧
    ((parse (more.line "E501" " b 2 E501 c\r")).count "E501").toNat = 2 ^ 64 - 1 ∧
    ∃ first second,
      (buildReport naming (parse (output less)).counters "a.py" ()).1 = .ok first ∧
      (buildReport naming (parse (output more)).counters "a.py" ()).1 = .ok second ∧
      second.NoBetterThan first := by
  intro naming less more output
  have hle : less.value ≤ more.value := by decide
  have hfits : more.value < 2 ^ 64 := by decide
  obtain ⟨hcount, -, hreports⟩ :=
    Audit.printed_counts_are_kept more "E501" " b 2 E501 c\r" isCode_longLine (by decide)
  have henclosed : Encloses "1 E501 a\r\n" "\n3 W191 d" :=
    ⟨.inr ⟨"1 E501 a\r", by decide⟩, .inr ⟨"3 W191 d", by decide⟩⟩
  exact ⟨isCode_longLine, hle, hfits, hcount hfits,
    hreports less hle hfits _ _ henclosed Unit naming "a.py" () (.compliant, 0) rfl⟩

/-- One more than the largest count is recorded as nothing at all: the code has no count, the total
falls to zero and the category is clean. -/
theorem Audit.count_beyond_largest_is_lost :
    let naming : NamingChecker Unit := ⟨fun _ => pure (.compliant, 0), pure ()⟩
    let largest := Numeral.ofText "18446744073709551615" (by decide)
    let beyond := Numeral.ofText "18446744073709551616" (by decide)
    IsCode "E501" ∧ largest.value ≤ beyond.value ∧
    beyond.line "E501" "line too long" = "18446744073709551616 E501 line too long" ∧
    ((parse (beyond.line "E501" "line too long")).count "E501").toNat ≠
      min (2 ^ 64 - 1) beyond.value ∧
    ∃ first second,
      (buildReport naming (parse (largest.line "E501" "line too long")).counters "a.py" ()).1 =
        .ok first ∧
      (buildReport naming (parse (beyond.line "E501" "line too long")).counters "a.py" ()).1 =
        .ok second ∧
      second.total < first.total ∧ first.failing = [.lineLength] ∧ second.failing = [] := by
  intro naming largest beyond
  refine ⟨isCode_longLine, by decide, by decide, by decide, _, _, rfl, rfl, ?_, ?_, ?_⟩
  · decide
  · decide
  · decide

end StyleAudit
