import StyleAudit.Presentation
import StyleAudit.Proofs.Totals

/-!
# The summary told from the report

The summary goes through the diagnostics code by code; the report was judged from their counters.
Nothing but the messages is lost on the way: a reader of the report who knows the message of each
code can write the summary down again, word for word.
-/

namespace StyleAudit
set_option autoImplicit false

/-- One entry of a breakdown as a line, with the message of its code. -/
def Breakdown.entryLine (message? : String → Option String) (entry : String × Count) : String :=
  let plural := if entry.2 = 1 then "" else "s"
  "    " ++ entry.1 ++ ", " ++ toString entry.2.toNat ++ " occurrence" ++ plural ++ ": " ++
    (message? entry.1).getD "" ++ "\n"

def Slot.retell (clean : String) (message? : String → Option String) (slot : Slot) : String :=
  match slot.verdict? with
  | none => ""
  | some v =>
    if v.isCompliant then "    None. " ++ clean ++ " statements conform to PEP 8.\n"
    else match v.errors with
      | none => ""
      | some b => String.join (b.entries.map (Breakdown.entryLine message?))

/-- The summary written from a report: its slots in report order, those without a code set left
out. -/
def Report.retell (r : Report) (message? : String → Option String) : String :=
  String.join (r.slots.filterMap fun (category, slot) =>
    (CodeSet.all.find? fun set => set.category == category).map fun set =>
      set.header ++ " Errors:\n" ++ slot.retell set.clean message?)

namespace Diagnostics

theorem found_counters (d : Diagnostics) (codes : List String) :
    Verdict.found codes d.counters =
      (codes.filter fun code => decide (d.count code ≠ 0)).map
        fun code => (code, d.count code) := by
  simp only [Verdict.found_eq_map, getD_counters]

theorem detailLine_eq_entryLine (d : Diagnostics) {code : String} (h : d.count code ≠ 0) :
    d.detailLine false code = Breakdown.entryLine d.message? (code, d.count code) := by
  have hplural : (if 1 < d.count code then "s" else "") =
      if d.count code = 1 then "" else "s" := by
    by_cases hone : d.count code = 1
    · simp [hone]
    · have hzero : (d.count code).toNat ≠ 0 := fun e => h (UInt64.toNat_inj.mp e)
      have hnotOne : (d.count code).toNat ≠ 1 := fun e => hone (UInt64.toNat_inj.mp e)
      have hmany : 1 < d.count code := by
        rw [UInt64.lt_iff_toNat_lt]
        change 1 < (d.count code).toNat
        omega
      simp [hone, hmany]
  exact congrArg (fun plural => "    " ++ code ++ ", " ++ toString (d.count code).toNat ++
    " occurrence" ++ plural ++ ": " ++ (d.message? code).getD "" ++ "\n") hplural

/-- A section of the summary and the verdict on its code set tell the same. -/
theorem sectionText_eq_retell (d : Diagnostics) (set : CodeSet) :
    d.sectionText false set = set.header ++ " Errors:\n" ++
      (Slot.checked (Verdict.ofCodes set.codes d.counters).1).retell set.clean d.message? := by
  have hhead : Text.bold false (set.header ++ " Errors:") ++ "\n" = set.header ++ " Errors:\n" := by
    change set.header ++ " Errors:" ++ "\n" = _
    rw [String.append_assoc]
    rfl
  rw [Verdict.ofCodes_eq, found_counters, sectionText, hhead]
  rw [List.isEmpty_map]
  cases hempty : (set.codes.filter fun code => decide (d.count code ≠ 0)).isEmpty with
  | true => rfl
  | false =>
    simp only [Bool.false_eq_true, if_false, Slot.retell, Slot.verdict?, Verdict.isCompliant,
      List.map_map]
    congr 2
    refine List.map_congr_left fun code hcode => ?_
    have hcount : d.count code ≠ 0 := by simpa using (List.mem_filter.mp hcode).2
    exact d.detailLine_eq_entryLine hcount

end Diagnostics

/-- Whatever a naming checker answers, the report made with its answer and the messages of the
diagnostics give the uncoloured summary: per code set, in report order, the header and then the
clean sentence where the slot complies, and otherwise the entries of its breakdown. -/
theorem Report.retells_the_summary {τ : Type} (naming : NamingChecker τ) (d : Diagnostics)
    (path : String) (s : τ) (answer : Verdict × Count)
    (hnaming : (naming.results path s).1 = .ok answer) :
    ∃ report, (Audit.buildReport naming d.counters path s).1 = .ok report ∧
      d.summary false = report.retell d.message? := by
  refine ⟨Report.ofCounters d.counters answer, ?_, ?_⟩
  · rw [Audit.buildReport_apply, hnaming]
    rfl
  · have hsections : CodeSet.all.map (d.sectionText false) =
        CodeSet.all.map fun set => set.header ++ " Errors:\n" ++
          (Slot.checked (Verdict.ofCodes set.codes d.counters).1).retell set.clean d.message? :=
      List.map_congr_left fun set _ => d.sectionText_eq_retell set
    rw [Diagnostics.summary, hsections]
    rfl

/-- One code set with two findings, one with a repeated finding, three clean ones and a code that
is in no set. -/
theorem Report.retells_three_findings :
    let d := Statistics.parse "2 E402 low\n1 E401 two at once\n3 E501 long\n4 W605 other\n"
    let naming : NamingChecker Unit := ⟨fun _ => pure (.compliant, 0), pure ()⟩
    ∃ report, (Audit.buildReport naming d.counters "a.py" ()).1 = .ok report ∧
      d.summary false = report.retell d.message? ∧
      report.retell d.message? =
        "Indentation Errors:\n    None. Indentations of statements conform to PEP 8.\n" ++
        "Tabs vs. Spaces Errors:\n    None. Space-indented statements conform to PEP 8.\n" ++
        "Line Length Errors:\n    E501, 3 occurrences: long\n" ++
        "Blank Line Errors:\n    None. Blank line statements conform to PEP 8.\n" ++
        "Import Statement Errors:\n    E401, 1 occurrence: two at once\n" ++
        "    E402, 2 occurrences: low\n" := by
  intro d naming
  obtain ⟨report, hbuilt, htold⟩ :=
    Report.retells_the_summary naming d "a.py" () (.compliant, 0) rfl
  refine ⟨report, hbuilt, htold, ?_⟩
  rw [← htold]
  decide +kernel

end StyleAudit
