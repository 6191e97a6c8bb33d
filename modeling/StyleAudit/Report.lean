import StyleAudit.Category
import StyleAudit.Count
import StyleAudit.Diagnostics

/-! # Verdicts and reports

A verdict says whether one category complies with two style guides, PEP 8 and the Google guide, and
what was found. A report has a slot per category and the number of all errors. -/

namespace StyleAudit
set_option autoImplicit false

/-- Error counts per code, in the order in which they were added. -/
structure Breakdown where
  entries : List (String × Count) := []
  deriving Repr, DecidableEq

namespace Breakdown

def push (b : Breakdown) (code : String) (count : Count) : Breakdown :=
  ⟨b.entries ++ [(code, count)]⟩

/-- Count of the first entry of a code. -/
def get? (b : Breakdown) (code : String) : Option Count :=
  (b.entries.find? fun e => e.1 == code).map Prod.snd

def codes (b : Breakdown) : List String := b.entries.map Prod.fst

def total (b : Breakdown) : Count := Count.sum (b.entries.map Prod.snd)

def size (b : Breakdown) : Nat := b.entries.length

def isEmpty (b : Breakdown) : Bool := b.entries.isEmpty

end Breakdown

/-- Compliance of one category with the two guides; `none` is an open question. -/
structure Verdict where
  pep : Option Bool
  google : Option Bool
  errors : Option Breakdown
  deriving Repr, DecidableEq

namespace Verdict

/-- Nothing was found under either guide. -/
def compliant : Verdict := ⟨some true, some true, none⟩

def isCompliant (v : Verdict) : Bool := v.pep == some true && v.google == some true

def errorTotal (v : Verdict) : Count :=
  match v.errors with
  | some b => b.total
  | none => 0

/-- The codes of a list that occur, in its order, with their counts. -/
def found (codes : List String) (counters : Counters) : List (String × Count) :=
  codes.filterMap fun code =>
    match counters.get? code with
    | some n => if 0 < n then some (code, n) else none
    | none => none

/-- Judge a list of codes by their counters: the breakdown lists the codes that occur, and both
guides fail as soon as one does. -/
def ofCodes (codes : List String) (counters : Counters) : Verdict × Count :=
  let entries := found codes counters
  if entries.isEmpty then (compliant, 0)
  else (⟨some false, some false, some ⟨entries⟩⟩, Count.sum (entries.map Prod.snd))

end Verdict

/-- A category of a report. A category that was never checked is not a pass. -/
inductive Slot where
  | checked (verdict : Verdict)
  | notSupported
  deriving Repr, DecidableEq

namespace Slot

def verdict? : Slot → Option Verdict
  | .checked v => some v
  | .notSupported => none

def errorTotal (s : Slot) : Count :=
  match s.verdict? with
  | some v => v.errorTotal
  | none => 0

/-- Checked and not compliant. -/
def isFailing (s : Slot) : Bool :=
  match s.verdict? with
  | some v => !v.isCompliant
  | none => false

end Slot

/-- The compliance report of one file. -/
structure Report where
  naming : Slot
  indentation : Slot
  tabsVsSpaces : Slot
  lineLength : Slot
  blankLines : Slot
  imports : Slot
  fileEncoding : Slot
  total : Count
  deriving Repr, DecidableEq

namespace Report

def slot (r : Report) : Category → Slot
  | .naming => r.naming
  | .indentation => r.indentation
  | .tabsVsSpaces => r.tabsVsSpaces
  | .lineLength => r.lineLength
  | .blankLines => r.blankLines
  | .imports => r.imports
  | .fileEncoding => r.fileEncoding

/-- All slots, in report order. -/
def slots (r : Report) : List (Category × Slot) := Category.all.map fun c => (c, r.slot c)

/-- The categories that were checked and do not comply, in report order. -/
def failing (r : Report) : List Category := Category.all.filter fun c => (r.slot c).isFailing

/-- The report of a file from the counters of a checker and the answer of a naming checker. The
slots between naming and file encoding take the verdicts on the code sets by their places. -/
def ofCounters (counters : Counters) (naming : Verdict × Count) : Report :=
  let judged := CodeSet.all.map fun set => Verdict.ofCodes set.codes counters
  have hsize : judged.length = 5 := by simp [judged, CodeSet.all]
  { naming := .checked naming.1
    indentation := .checked judged[0].1
    tabsVsSpaces := .checked judged[1].1
    lineLength := .checked judged[2].1
    blankLines := .checked judged[3].1
    imports := .checked judged[4].1
    fileEncoding := .notSupported
    total := judged.foldl (fun total answer => total.plus answer.2) naming.2 }

end Report
end StyleAudit
