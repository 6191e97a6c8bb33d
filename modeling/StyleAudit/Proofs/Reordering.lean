import Mathlib.Algebra.BigOperators.Group.List.Basic
import StyleAudit.Presentation
import StyleAudit.Proofs.Influence
import StyleAudit.Proofs.Joining

/-!
# The order of a checker's lines

The count of a code is a sum over the lines that state it, so it does not depend on their order.
The order within a breakdown comes from the code set, and the fatal code from the list of fatal
codes. What can depend on the order is the message of a code, since the first one stays; a message
is no part of a report and shows only in the failure of a file that could not be checked.
-/

namespace StyleAudit
set_option autoImplicit false

namespace Statistics

open Text

theorem stated_perm (code : String) {rs rs' : List Record} (h : rs.Perm rs') :
    stated code rs = stated code rs' :=
  (h.map _).sum_eq

theorem count_ended_perm {lines lines' : List String} (h : lines.Perm lines') (code : String) :
    (parse (ended lines)).count code = (parse (ended lines')).count code := by
  have hrecords : (records (ended lines)).Perm (records (ended lines')) := by
    rw [records_ended, records_ended]
    exact h.flatMap_right records
  apply UInt64.toNat_inj.mp
  rw [toNat_count_parse, toNat_count_parse, stated_perm code hrecords]

end Statistics

namespace Diagnostics
variable {d d' : Diagnostics}

theorem map_fst_fatal? (d : Diagnostics) :
    d.fatal?.map Prod.fst = CodeSet.fatalCodes.find? fun code => decide (0 < d.count code) := by
  rw [fatal?, Option.map_map]
  exact Option.map_id'

theorem fatal?_code_eq (h : ∀ code, d.count code = d'.count code) :
    d.fatal?.map Prod.fst = d'.fatal?.map Prod.fst := by
  rw [map_fst_fatal?, map_fst_fatal?]
  simp only [h]

end Diagnostics

namespace Audit

/-- Two ends of an audit that show the same: one line of JSON and one footer, or one failure, where
the message of a fatal finding may differ. -/
inductive Alike : Except Failure Audit → Except Failure Audit → Prop
  | reported {a b : Audit} : a.report.toJson.render = b.report.toJson.render →
      a.report.footer = b.report.footer → Alike (.ok a) (.ok b)
  | failed (f : Failure) : Alike (.error f) (.error f)
  | uncheckable (code message message' : String) :
      Alike (.error (.uncheckable code message)) (.error (.uncheckable code message'))

section Runs
variable {τ : Type} (isFile : τ → String → Bool) (naming : NamingChecker τ) (name : String) (s : τ)

theorem alike_of_counts {text text' : String}
    (h : ∀ code, (Statistics.parse text).count code = (Statistics.parse text').count code) :
    Alike (run isFile (.printing text) naming name s).1
        (run isFile (.printing text') naming name s).1 ∧
      (run isFile (.printing text) naming name s).2 =
        (run isFile (.printing text') naming name s).2 := by
  have hcode := Diagnostics.fatal?_code_eq h
  rw [run_printing, run_printing]
  by_cases hname : isFileName name = true
  · rw [if_pos hname, if_pos hname]
    by_cases hfile : isFile s name = true
    · rw [if_pos hfile, if_pos hfile]
      rcases hf : (Statistics.parse text).fatal? with _ | ⟨code, message⟩ <;>
        rcases hf' : (Statistics.parse text').fatal? with _ | ⟨code', message'⟩ <;>
        rw [hf, hf'] at hcode
      · rcases (naming.results name s).1 with f | answer
        · exact ⟨.failed f, rfl⟩
        · have hreport := Report.ofCounters_eq_of_counts answer fun code _ => h code
          refine ⟨.reported ?_ ?_, rfl⟩
          · exact congrArg (fun r => r.toJson.render) hreport
          · exact congrArg Report.footer hreport
      · cases hcode
      · cases hcode
      · cases hcode
        exact ⟨.uncheckable code message message', rfl⟩
    · rw [if_neg hfile, if_neg hfile]
      exact ⟨.failed _, rfl⟩
  · rw [if_neg hname, if_neg hname]
    exact ⟨.failed _, rfl⟩

end Runs

/-- A checker that prints the same lines in another order leads to the same line of JSON, the same
footer and the same state, or to the same failure up to the message of a fatal finding. -/
theorem line_order_is_irrelevant {τ : Type} (isFile : τ → String → Bool) (naming : NamingChecker τ)
    (name : String) (s : τ) (lines lines' : List String) (h : lines.Perm lines') :
    Alike (run isFile (.printing (Text.ended lines)) naming name s).1
        (run isFile (.printing (Text.ended lines')) naming name s).1 ∧
      (run isFile (.printing (Text.ended lines)) naming name s).2 =
        (run isFile (.printing (Text.ended lines')) naming name s).2 :=
  alike_of_counts isFile naming name s (Statistics.count_ended_perm h)

/-- Two lines of one code that pass the largest count together, once around another line and once
before it; the first message differs. -/
theorem line_order_of_three :
    let naming : NamingChecker Unit := ⟨fun _ => pure (.compliant, 1), pure ()⟩
    let lines := ["18446744073709551615 E501 a", "1 W191 b", "2 E501 c"]
    let lines' := ["2 E501 c", "18446744073709551615 E501 a", "1 W191 b"]
    lines.Perm lines' ∧
    (Statistics.parse (Text.ended lines)).message? "E501" = some "a" ∧
    (Statistics.parse (Text.ended lines')).message? "E501" = some "c" ∧
    Alike (run (fun _ _ => true) (.printing (Text.ended lines)) naming "a.py" ()).1
      (run (fun _ _ => true) (.printing (Text.ended lines')) naming "a.py" ()).1 := by
  intro naming lines lines'
  have hperm : lines.Perm lines' := by decide
  refine ⟨hperm, by decide, by decide, ?_⟩
  exact (line_order_is_irrelevant (fun _ _ => true) naming "a.py" () lines lines' hperm).1

end Audit
end StyleAudit
