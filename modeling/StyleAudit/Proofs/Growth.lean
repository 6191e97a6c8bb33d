import Mathlib.Algebra.Order.BigOperators.Group.List
import StyleAudit.Proofs.Influence
import StyleAudit.Proofs.Joining
import StyleAudit.Proofs.Outcomes

/-!
# More output of a checker

Recording one more line makes no count smaller and changes no message that is there. By induction
the same holds of any further lines, and so of any text that follows a first one after a line feed.
A report from larger counts is no better: it has the findings of the first one, at least as often,
and perhaps others.
-/

namespace StyleAudit
set_option autoImplicit false

open StyleAudit.Count

theorem Count.capped_mono {a b : Nat} (h : a ≤ b) : capped a ≤ capped b := by
  unfold capped
  omega

namespace Diagnostics

/-- What was recorded later has no smaller count and keeps every message. -/
structure Grown (d d' : Diagnostics) : Prop where
  count : ∀ code, d.count code ≤ d'.count code
  message : ∀ code message, d.message? code = some message → d'.message? code = some message

theorem Grown.refl (d : Diagnostics) : d.Grown d := ⟨fun _ => UInt64.le_refl _, fun _ _ h => h⟩

theorem Grown.trans {d d' d'' : Diagnostics} (h : d.Grown d') (h' : d'.Grown d'') :
    d.Grown d'' where
  count code := UInt64.le_trans (h.count code) (h'.count code)
  message code message hm := h'.message code message (h.message code message hm)

theorem grown_record (d : Diagnostics) (code : String) (n : Count) (message : String) :
    d.Grown (d.record code n message) := by
  constructor
  · intro other
    rw [UInt64.le_iff_toNat_le, toNat_count_record]
    have hfits := capped_toNat (d.count other)
    have hmono := capped_mono (Nat.le_add_right (d.count other).toNat
      (if code = other then n.toNat else 0))
    omega
  · intro other text htext
    rw [message?_record, htext]
    rfl

theorem grown_recordAll (d : Diagnostics) (rs : List Statistics.Record) :
    d.Grown (Statistics.recordAll d rs) := by
  induction rs generalizing d with
  | nil => exact .refl d
  | cons r rest ih => exact (d.grown_record r.code r.count r.message).trans (ih _)

theorem grown_parse (a b : String) :
    (Statistics.parse a).Grown (Statistics.parse (a ++ "\n" ++ b)) := by
  rw [Statistics.parse_append_newline]
  exact grown_recordAll _ _

theorem fatal?_eq_none_iff (d : Diagnostics) :
    d.fatal? = none ↔ ∀ code ∈ CodeSet.fatalCodes, d.count code = 0 := by
  rw [fatal?, Option.map_eq_none_iff, List.find?_eq_none]
  simp only [decide_eq_true_eq, UInt64.pos_iff_ne_zero, ne_eq, not_not]

theorem Grown.fatal?_eq_none {d d' : Diagnostics} (h : d.Grown d') (hnone : d'.fatal? = none) :
    d.fatal? = none := by
  rw [fatal?_eq_none_iff] at hnone ⊢
  intro code hcode
  have hle := h.count code
  rw [hnone code hcode] at hle
  exact UInt64.le_zero_iff.mp hle

end Diagnostics

namespace Verdict

theorem isFailing_ofCodes (codes : List String) (counters : Counters) :
    (Slot.checked (ofCodes codes counters).1).isFailing = true ↔ found codes counters ≠ [] := by
  rw [ofCodes_eq]
  split
  · rename_i hempty
    simp [Slot.isFailing, Slot.verdict?, isCompliant, compliant, List.isEmpty_iff.mp hempty]
  · rename_i hfound
    refine iff_of_true rfl ?_
    simpa using hfound

end Verdict

namespace Report

/-- The findings of an earlier report are in the later one, each at least as often; its failing
categories fail, and its total is reached. -/
structure NoBetterThan (later earlier : Report) : Prop where
  findings : ∀ category code n, (code, n) ∈ (earlier.slot category).findings →
    ∃ k, (code, k) ∈ (later.slot category).findings ∧ n ≤ k
  failing : ∀ category ∈ earlier.failing, category ∈ later.failing
  total : earlier.total ≤ later.total

section Counters
variable {m m' : Counters} (h : ∀ code, (m.get? code).getD 0 ≤ (m'.get? code).getD 0)
include h

theorem found_grows {codes : List String} {code : String} {n : Count}
    (hfound : (code, n) ∈ Verdict.found codes m) :
    ∃ k, (code, k) ∈ Verdict.found codes m' ∧ n ≤ k := by
  obtain ⟨hcode, rfl, hne⟩ := Verdict.mem_found.mp hfound
  have hle := h code
  refine ⟨(m'.get? code).getD 0, Verdict.mem_found.mpr ⟨hcode, rfl, ?_⟩, hle⟩
  intro hzero
  rw [hzero] at hle
  exact hne (UInt64.le_zero_iff.mp hle)

theorem total_grows (naming : Verdict × Count) :
    (ofCounters m naming).total ≤ (ofCounters m' naming).total := by
  rw [UInt64.le_iff_toNat_le, toNat_total, toNat_total]
  apply capped_mono
  apply Nat.add_le_add_left
  apply List.sum_le_sum
  intro code _
  exact UInt64.le_iff_toNat_le.mp (h code)

theorem ofCounters_noBetterThan (naming : Verdict × Count) :
    (ofCounters m' naming).NoBetterThan (ofCounters m naming) := by
  refine ⟨?_, ?_, total_grows h naming⟩
  · intro category code n hin
    rcases CodeSet.category_cases category with rfl | rfl | ⟨set, hset, rfl⟩
    · exact ⟨n, hin, UInt64.le_refl n⟩
    · exact ⟨n, hin, UInt64.le_refl n⟩
    · rw [slot_ofCounters _ _ hset, Verdict.findings_ofCodes] at hin ⊢
      exact found_grows h hin
  · intro category hin
    obtain ⟨hall, hfails⟩ := List.mem_filter.mp hin
    refine List.mem_filter.mpr ⟨hall, ?_⟩
    rcases CodeSet.category_cases category with rfl | rfl | ⟨set, hset, rfl⟩
    · exact hfails
    · exact hfails
    · rw [slot_ofCounters _ _ hset, Verdict.isFailing_ofCodes] at hfails ⊢
      obtain ⟨e, he⟩ := List.exists_mem_of_ne_nil _ hfails
      obtain ⟨k, hk, -⟩ := found_grows h he
      exact List.ne_nil_of_mem hk

end Counters
end Report

/-- If a report is made when a checker prints a text, a line feed and another text, then a report is
made from the first text alone. The longer output has no better report and keeps the messages. -/
theorem Audit.longer_output_is_no_better {τ : Type} (isFile : τ → String → Bool)
    (naming : NamingChecker τ) (name a b : String) (s t : τ) (second : Audit)
    (h : run isFile (.printing (a ++ "\n" ++ b)) naming name s = (.ok second, t)) :
    ∃ first, run isFile (.printing a) naming name s = (.ok first, t) ∧
      second.report.NoBetterThan first.report ∧
      ∀ code message, first.diagnostics.message? code = some message →
        second.diagnostics.message? code = some message := by
  have hgrown := Diagnostics.grown_parse a b
  obtain ⟨hname, hfile, hfatal, answer, hanswer, rfl, rfl⟩ := run_printing_eq_ok_iff.mp h
  refine ⟨_, run_printing_eq_ok_iff.mpr ⟨hname, hfile, hgrown.fatal?_eq_none hfatal, answer,
    hanswer, rfl, rfl⟩, ?_, hgrown.message⟩
  apply Report.ofCounters_noBetterThan
  intro code
  rw [Diagnostics.getD_counters, Diagnostics.getD_counters]
  exact hgrown.count code

/-- A second code set joins the findings, and the first text ends in a carriage return that the line
feed takes away. -/
theorem Audit.no_better_with_an_import :
    let naming : NamingChecker Unit := ⟨fun _ => pure (.compliant, 0), pure ()⟩
    let a := "0 E402 late\n2 E501 long\r"
    let b := "3 E501 longer\n1 E402 later"
    ∃ first second : Audit,
      run (fun _ _ => true) (.printing (a ++ "\n" ++ b)) naming "a.py" () = (.ok second, ()) ∧
      run (fun _ _ => true) (.printing a) naming "a.py" () = (.ok first, ()) ∧
      second.report.NoBetterThan first.report ∧
      second.report.failing = [.lineLength, .imports] ∧
      second.diagnostics.message? "E402" = some "late" := by
  intro naming a b
  have hrun : run (fun _ _ => true) (.printing (a ++ "\n" ++ b)) naming "a.py" () =
      (.ok ⟨Report.ofCounters (Statistics.parse (a ++ "\n" ++ b)).counters (.compliant, 0),
        Statistics.parse (a ++ "\n" ++ b)⟩, ()) := by
    have hfatal : (Statistics.parse (a ++ "\n" ++ b)).fatal? = none := by decide
    exact run_printing_eq_ok_iff.mpr ⟨by decide, rfl, hfatal, (.compliant, 0), rfl, rfl, rfl⟩
  obtain ⟨first, hfirst, hreport, -⟩ := Audit.longer_output_is_no_better (fun _ _ => true) naming
    "a.py" a b () () _ hrun
  exact ⟨first, _, hrun, hfirst, hreport, by decide, by decide⟩

end StyleAudit
