import StyleAudit.Category
import StyleAudit.Count
import StyleAudit.Table

/-! # Diagnostics

What one pass of a checker found: for each code the number of occurrences and one message. -/

namespace StyleAudit
set_option autoImplicit false

/-- Number of occurrences per code. A code without an entry counts as zero. -/
abbrev Counters := Table Count

structure Tally where
  count : Count
  message : String
  deriving Repr, DecidableEq

structure Diagnostics where
  tallies : Table Tally := {}
  deriving Repr, DecidableEq

namespace Diagnostics

def empty : Diagnostics := {}

/-- Add occurrences of a code. The first message of a code stays. -/
def record (d : Diagnostics) (code : String) (count : Count) (message : String) : Diagnostics :=
  ⟨d.tallies.alter code fun
    | none => ⟨count, message⟩
    | some t => ⟨t.count.plus count, t.message⟩⟩

def counters (d : Diagnostics) : Counters := d.tallies.mapValues Tally.count

def count (d : Diagnostics) (code : String) : Count :=
  match d.tallies.get? code with
  | some t => t.count
  | none => 0

def message? (d : Diagnostics) (code : String) : Option String :=
  (d.tallies.get? code).map Tally.message

/-- The first fatal code that occurs, with its message. -/
def fatal? (d : Diagnostics) : Option (String × String) :=
  (CodeSet.fatalCodes.find? fun code => decide (0 < d.count code)).map fun code =>
    (code, (d.message? code).getD "")

end Diagnostics
end StyleAudit
