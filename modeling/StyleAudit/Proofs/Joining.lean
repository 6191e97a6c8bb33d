import Mathlib.Data.List.Basic
import StyleAudit.Proofs.LineGrammar

/-!
# Texts joined at a line feed

What is read part by part between the line feeds of a text can be read from two texts apart and put
together. Statistics are read in this way: a blank at the end of a line is part of no record, so the
carriage return before a line feed, which the lines of a text lose, does not matter. Two texts with
a line feed between them state their records one after the other, however the first one ends.
-/

namespace StyleAudit
set_option autoImplicit false

namespace Text

theorem Trimmed.concat {text core : List Char} {c : Char} (h : Trimmed text core)
    (hc : isBlank c = true) : Trimmed (text ++ [c]) core := by
  obtain ⟨before, after, rfl, hbefore, hafter, hhead, hlast⟩ := h
  refine ⟨before, after ++ [c], by simp only [List.append_assoc], hbefore, ?_, hhead, hlast⟩
  intro x hx
  rcases List.mem_append.mp hx with hx | hx
  · exact hafter x hx
  · rw [List.mem_singleton.mp hx]
    exact hc

theorem Trimmed.of_concat {text core : List Char} {c : Char} (h : Trimmed (text ++ [c]) core)
    (hc : isBlank c = true) : Trimmed text core := by
  have hcore : trim text = core := ((trimmed_trim text).concat hc).trim_eq.symm.trans h.trim_eq
  rw [← hcore]
  exact trimmed_trim text

theorem Trimmed.subset {text core : List Char} (h : Trimmed text core) : core ⊆ text := by
  obtain ⟨before, after, rfl, -⟩ := h
  intro c hc
  exact List.mem_append_left after (List.mem_append_right before hc)

theorem not_isAsciiDigit_of_isBlank {c : Char} (h : isBlank c = true) : isAsciiDigit c = false := by
  have hdecimal := not_isDecimal_of_isBlank h
  rw [isDecimal, Bool.or_eq_false_iff] at hdecimal
  exact hdecimal.1

theorem newline_notMem_of_mem_splitOn {text part : List Char} (h : part ∈ text.splitOn '\n') :
    '\n' ∉ part := by
  induction text generalizing part with
  | nil =>
    obtain rfl : part = [] := by simpa using h
    exact List.not_mem_nil
  | cons c rest ih =>
    obtain ⟨first, parts, hparts⟩ := List.exists_cons_of_ne_nil (List.splitOn_ne_nil '\n' rest)
    rw [List.splitOn_cons_eq_if_modifyHead, hparts] at h
    rw [hparts] at ih
    by_cases hc : c = '\n'
    · rw [if_pos (beq_iff_eq.mpr hc)] at h
      rcases List.mem_cons.mp h with rfl | h
      · exact List.not_mem_nil
      · exact ih h
    · rw [if_neg (by simpa using hc), List.modifyHead_cons] at h
      rcases List.mem_cons.mp h with rfl | h
      · have hfirst : '\n' ∉ first := ih List.mem_cons_self
        simp [hfirst, Ne.symm hc]
      · exact ih (List.mem_cons_of_mem first h)

section Parts
variable {α : Type} (read : List Char → Option α)

/-- What a reader of single lines finds between the line feeds of a text. -/
def readParts (text : String) : List α := (text.toList.splitOn '\n').filterMap read

theorem readParts_append_newline (a b : String) :
    readParts read (a ++ "\n" ++ b) = readParts read a ++ readParts read b := by
  have htext : (a ++ "\n" ++ b).toList = a.toList ++ '\n' :: b.toList := by
    rw [String.toList_append, String.toList_append, List.append_assoc]
    rfl
  rw [readParts, htext, List.splitOn_append_cons_self, List.filterMap_append]
  rfl

theorem readParts_line {line : String} (h : '\n' ∉ line.toList) :
    readParts read line = (read line.toList).toList := by
  rw [readParts, List.splitOn_eq_singleton h, List.filterMap_cons]
  cases read line.toList <;> rfl

/-- A text of lines, each with a line feed at its end. -/
def ended (lines : List String) : String := String.join (lines.map fun line => line ++ "\n")

theorem ended_append (lines others : List String) :
    ended (lines ++ others) = ended lines ++ ended others := by
  rw [ended, List.map_append, String.join_append]
  rfl

theorem readParts_ended (hempty : read [] = none) (lines : List String) :
    readParts read (ended lines) = lines.flatMap (readParts read) := by
  induction lines with
  | nil =>
    change readParts read "" = []
    rw [readParts_line read List.not_mem_nil]
    change (read []).toList = []
    rw [hempty]
    rfl
  | cons line rest ih =>
    have hended : ended (line :: rest) = line ++ "\n" ++ ended rest := by
      rw [ended, List.map_cons, String.join_cons]
      rfl
    rw [hended, readParts_append_newline, ih, List.flatMap_cons]

end Parts
end Text

namespace Statistics

open Text

theorem states_concat {line : List Char} {r : Record} {c : Char} (h : States line r)
    (hc : isBlank c = true) : States (line ++ [c]) r := by
  obtain ⟨d, hd, hascii, hvalue, hcode, hmessage⟩ := h
  refine ⟨{ d with rest := d.rest ++ [c] }, ?_, hascii, hvalue, hcode, hmessage.concat hc⟩
  refine { hd with line_eq := ?_, rest_stops := ?_ }
  · rw [hd.line_eq]
    simp only [List.append_assoc]
  · intro x hx
    cases hrest : d.rest with
    | nil =>
      obtain rfl : c = x := by simpa [hrest] using hx
      exact not_isAsciiDigit_of_isBlank hc
    | cons y rest =>
      apply hd.rest_stops
      simpa [hrest] using hx

theorem states_of_concat {line : List Char} {r : Record} {c : Char} (h : States (line ++ [c]) r)
    (hc : isBlank c = true) : States line r := by
  obtain ⟨⟨indent, digits, gap, letters, number, rest⟩, hd, hascii, hvalue, hcode, hmessage⟩ := h
  have hline := hd.line_eq
  rcases List.eq_nil_or_concat' rest with rfl | ⟨rest, x, rfl⟩
  · -- Without a rest the line would end in a digit of its code.
    obtain ⟨init, x, hnumber⟩ := (List.eq_nil_or_concat' number).resolve_left hd.number_ne_nil
    have hdigit : isAsciiDigit x = true := hd.number_digit x (by simp [hnumber])
    simp only [hnumber, List.append_nil, ← List.append_assoc] at hline
    obtain rfl : c = x := List.singleton_inj.mp (List.append_inj' hline rfl).2
    rw [not_isAsciiDigit_of_isBlank hc] at hdigit
    contradiction
  · simp only [← List.append_assoc] at hline
    obtain ⟨hfront, hlast⟩ := List.append_inj' hline rfl
    obtain rfl : c = x := List.singleton_inj.mp hlast
    refine ⟨⟨indent, digits, gap, letters, number, rest⟩, ?_, hascii, hvalue, hcode,
      hmessage.of_concat hc⟩
    refine { hd with line_eq := hfront, rest_stops := ?_ }
    intro y hy
    apply hd.rest_stops
    rw [List.head?_append, Option.mem_def.mp hy]
    rfl

theorem read?_concat {c : Char} (line : List Char) (hc : isBlank c = true) :
    Record.read? (line ++ [c]) = Record.read? line := by
  refine Option.ext fun r => ?_
  rw [read?_eq_some_iff, read?_eq_some_iff]
  exact ⟨fun h => states_of_concat h hc, fun h => states_concat h hc⟩

theorem read?_dropReturn (part : List Char) :
    Record.read? (dropReturn part) = Record.read? part := by
  unfold dropReturn
  split
  · rename_i hlast
    obtain ⟨line, rfl⟩ := List.getLast?_eq_some_iff.mp hlast
    rw [List.dropLast_concat, read?_concat line (by decide)]
  · rfl

theorem filterMap_rows (parts : List (List Char)) :
    (rows parts).filterMap Record.read? = parts.filterMap Record.read? := by
  induction parts with
  | nil => rfl
  | cons part rest ih =>
    cases rest with
    | nil =>
      by_cases hpart : part = []
      · subst hpart
        rfl
      · rw [rows, if_neg hpart]
    | cons next rest =>
      rw [rows, List.filterMap_cons, List.filterMap_cons, read?_dropReturn, ih]

theorem records_eq_readParts (text : String) : records text = readParts Record.read? text := by
  rw [records, lines_eq_rows, filterMap_rows]
  rfl

theorem records_append_newline (a b : String) :
    records (a ++ "\n" ++ b) = records a ++ records b := by
  rw [records_eq_readParts, records_eq_readParts, records_eq_readParts, readParts_append_newline]

theorem records_ended (lines : List String) : records (ended lines) = lines.flatMap records := by
  have hrecords : records = readParts Record.read? := funext records_eq_readParts
  rw [hrecords, readParts_ended Record.read? rfl]

theorem parse_append_newline (a b : String) :
    parse (a ++ "\n" ++ b) = recordAll (parse a) (records b) := by
  rw [parse, records_append_newline, recordAll, List.foldl_append]
  rfl

theorem newline_notMem_message {text : String} {r : Record} (h : r ∈ records text) :
    '\n' ∉ r.message.toList := by
  rw [records_eq_readParts] at h
  obtain ⟨part, hpart, hread⟩ := List.mem_filterMap.mp h
  obtain ⟨d, hd, -, -, -, hmessage⟩ := states_of_read? hread
  have hrest : d.rest ⊆ part := by
    rw [hd.line_eq]
    exact List.subset_append_right _ _
  exact fun hin => newline_notMem_of_mem_splitOn hpart (hrest (hmessage.subset hin))

end Statistics
end StyleAudit
