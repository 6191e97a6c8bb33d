import StyleAudit.Proofs.Bookkeeping

/-!
# Texts read apart and together

The statistics of two texts with a line feed between them are those of both: counts are added and
the first text has the word on messages, however the first text ends. A carriage return before a
line feed says nothing, whether the lines of a text lose it or keep it.
-/

namespace StyleAudit
set_option autoImplicit false

namespace Text

/-- A carriage return is put before every line feed. -/
def returned (cs : List Char) : List Char :=
  cs.flatMap fun c => if c = '\n' then ['\r', '\n'] else [c]

def withReturns (text : String) : String := String.ofList (returned text.toList)

section Parts
variable {α : Type} {read : List Char → Option α}
variable (hread : ∀ line, read (line ++ ['\r']) = read line)
include hread

/-- The start of a line waits in front until the line feed comes. -/
theorem filterMap_splitOn_returned {start : List Char} (hstart : '\n' ∉ start) (cs : List Char) :
    ((start ++ returned cs).splitOn '\n').filterMap read =
      ((start ++ cs).splitOn '\n').filterMap read := by
  induction cs generalizing start with
  | nil => rfl
  | cons c rest ih =>
    by_cases hc : c = '\n'
    · have hreturned : returned (c :: rest) = ['\r'] ++ '\n' :: returned rest := by
        rw [returned, List.flatMap_cons, if_pos hc]
        rfl
      have hline : '\n' ∉ start ++ ['\r'] := by
        rw [List.mem_append, not_or]
        exact ⟨hstart, by decide⟩
      rw [hreturned, hc, ← List.append_assoc, List.splitOn_append_cons_self,
        List.splitOn_append_cons_self, List.splitOn_eq_singleton hline,
        List.splitOn_eq_singleton hstart, List.filterMap_append, List.filterMap_append]
      have hrest := ih List.not_mem_nil
      rw [List.nil_append, List.nil_append] at hrest
      rw [hrest, List.filterMap_cons, List.filterMap_cons, hread]
    · have hreturned : returned (c :: rest) = [c] ++ returned rest := by
        rw [returned, List.flatMap_cons, if_neg hc]
        rfl
      have hline : '\n' ∉ start ++ [c] := by
        rw [List.mem_append, not_or]
        exact ⟨hstart, by simpa using Ne.symm hc⟩
      have hrest := ih hline
      rw [List.append_assoc, List.append_assoc] at hrest
      rw [hreturned]
      exact hrest

theorem readParts_withReturns (text : String) :
    readParts read (withReturns text) = readParts read text := by
  rw [readParts, withReturns, String.toList_ofList]
  exact filterMap_splitOn_returned hread List.not_mem_nil text.toList

end Parts
end Text

namespace Statistics

open Text

theorem records_withReturns (text : String) : records (withReturns text) = records text := by
  rw [records_eq_readParts, records_eq_readParts]
  apply readParts_withReturns
  intro line
  exact read?_concat line (by decide)

theorem toNat_count_parse_append_newline (a b code : String) :
    ((parse (a ++ "\n" ++ b)).count code).toNat =
      Count.capped (((parse a).count code).toNat + ((parse b).count code).toNat) := by
  rw [parse_append_newline, toNat_count_recordAll, toNat_count_parse b, Count.capped_add_capped]

theorem message?_parse_append_newline (a b code : String) :
    (parse (a ++ "\n" ++ b)).message? code =
      ((parse a).message? code).or ((parse b).message? code) := by
  rw [parse_append_newline, Diagnostics.message?_recordAll, ← Diagnostics.message?_records]
  rfl

/-- Parsing is compositional at a line feed, and it does not see which of the two line endings a
text has. -/
theorem parse_apart_and_together :
    (∀ a b code,
      ((parse (a ++ "\n" ++ b)).count code).toNat =
        min (2 ^ 64 - 1) (((parse a).count code).toNat + ((parse b).count code).toNat) ∧
      (parse (a ++ "\n" ++ b)).message? code =
        ((parse a).message? code).or ((parse b).message? code)) ∧
    ∀ text, parse (withReturns text) = parse text := by
  constructor
  · intro a b code
    exact ⟨toNat_count_parse_append_newline a b code, message?_parse_append_newline a b code⟩
  · intro text
    rw [parse, records_withReturns]
    rfl

example : (parse ("2 E501 long\r" ++ "\n" ++ "\n1 E501 longer")).tallies.entries =
    [("E501", ⟨3, "long"⟩)] := by decide

end Statistics
end StyleAudit
