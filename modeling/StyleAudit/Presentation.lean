import StyleAudit.Failure
import StyleAudit.Report
import StyleAudit.Statistics
import StyleAudit.Text.Colour
import StyleAudit.Text.Json

/-! # How a report is shown

Two forms: one line of JSON, and a summary for people that lists what was found in each code-set
category and ends with a footer. -/

namespace StyleAudit
set_option autoImplicit false

open Text

namespace Breakdown

def toJson (b : Breakdown) : Json := .object (b.entries.map fun e => (e.1, .number e.2.toNat))

end Breakdown

namespace Verdict

def flagJson : Option Bool → Json
  | some b => .bool b
  | none => .null

def toJson (v : Verdict) : Json :=
  .object [("pep", flagJson v.pep), ("google", flagJson v.google),
    ("errors", match v.errors with
      | some b => b.toJson
      | none => .null)]

end Verdict

namespace Slot

def toJson : Slot → Json
  | .checked v => v.toJson
  | .notSupported => .null

end Slot

namespace Report

def toJson (r : Report) : Json :=
  .object ((r.slots.map fun s => (s.1.name ++ "_analysis", s.2.toJson)) ++
    [("total_error_count", .number r.total.toNat)])

/-- Closing line of the summary: the total and the categories that do not comply. -/
def footer (r : Report) : String :=
  let names := r.failing.map Category.name
  let failing := if names.isEmpty then "none" else ",".intercalate names
  "— Summary — total_errors=" ++ toString r.total.toNat ++ " failing=" ++ failing

end Report

namespace Statistics.Record

/-- The ending of the word for a number of occurrences. -/
def ending (n : Count) : String := if 1 < n then "s" else ""

/-- A record as a line of a summary. -/
def detail (coloured : Bool) (r : Record) : String :=
  "    " ++ red coloured r.code ++ ", " ++ toString r.count.toNat ++ " occurrence" ++
    ending r.count ++ ": " ++ r.message

end Statistics.Record

namespace Diagnostics

/-- What was found about a code. -/
def finding (d : Diagnostics) (code : String) : Statistics.Record :=
  ⟨code, d.count code, (d.message? code).getD ""⟩

/-- Detail line of a code that occurs. -/
def detailLine (d : Diagnostics) (coloured : Bool) (code : String) : String :=
  (d.finding code).detail coloured ++ "\n"

/-- Section of one code set: its details, or the sentence that nothing was found. -/
def sectionText (d : Diagnostics) (coloured : Bool) (set : CodeSet) : String :=
  let found := set.codes.filter fun code => decide (d.count code ≠ 0)
  bold coloured (set.header ++ " Errors:") ++ "\n" ++
    if found.isEmpty then "    None. " ++ set.clean ++ " statements conform to PEP 8.\n"
    else String.join (found.map (d.detailLine coloured))

/-- The summary for people. Naming is not part of it. -/
def summary (d : Diagnostics) (coloured : Bool) : String :=
  String.join (CodeSet.all.map (d.sectionText coloured))

end Diagnostics

/-- What is printed for an output mode: the summary and the footer for `human`, and one line of JSON
for every other mode. -/
def Report.display (r : Report) (d : Diagnostics) (mode : String) (coloured : Bool) : String :=
  if mode = "human" then d.summary coloured ++ bold coloured r.footer ++ "\n"
  else r.toJson.render ++ "\n"

/-- The JSON line of a report, if it can be written. -/
def Report.compose (r : Report) : Except Failure String := r.toJson.write.mapError .badJson

/-- Print a report for an output mode. A JSON line that cannot be written is a failure. -/
def Report.print (r : Report) (d : Diagnostics) (mode : String) (coloured : Bool) :
    Except Failure String :=
  if mode = "human" then .ok (r.display d mode coloured) else r.compose.map (· ++ "\n")

end StyleAudit
