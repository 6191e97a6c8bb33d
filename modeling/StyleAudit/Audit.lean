import StyleAudit.Naming

/-! # Auditing one file

The file is scanned once by an engine, then judged by a naming checker, and the two answers make
the report. The naming checker is released whatever happens after its session begins. -/

namespace StyleAudit
set_option autoImplicit false

/-- A source of diagnostics, with states `τ`. -/
structure Engine (τ : Type) where
  scan : String → Step τ Diagnostics

/-- A source of naming verdicts. It may hold something between its results and its release. -/
structure NamingChecker (τ : Type) where
  results : String → Step τ (Verdict × Count)
  cleanup : StateM τ Unit

namespace NamingChecker

variable {τ α : Type}

/-- Do a step and then release the checker, also when the step fails. -/
def session (naming : NamingChecker τ) (step : Step τ α) : Step τ α := fun s =>
  let (result, s) := step s
  (result, (naming.cleanup s).2)

end NamingChecker

/-- Blanks that a file name may not contain. Plain spaces are allowed. -/
def forbiddenBlanks : List Char := ['\t', '\n', '\r', '\x0b', '\x0c']

/-- Whether a file name is acceptable. -/
def isFileName (name : String) : Bool := !name.toList.any forbiddenBlanks.contains

/-- What an audit found. -/
structure Audit where
  report : Report
  diagnostics : Diagnostics

namespace Audit

variable {τ : Type}

def validate (name : String) : Except Failure Unit :=
  if isFileName name then .ok () else .error (.invalidFileName name)

/-- Ask the naming checker about a file and make the report. -/
def buildReport (naming : NamingChecker τ) (counters : Counters) (path : String) :
    Step τ Report :=
  naming.session do
    let answer ← naming.results path
    return Report.ofCounters counters answer

/-- Audit the file at a path. A missing file, or one that could not be checked, has no report. -/
def ofFile (isFile : τ → String → Bool) (engine : Engine τ) (naming : NamingChecker τ)
    (path : String) : Step τ Audit := do
  if !isFile (← get) path then throw (.fileNotFound path)
  let diagnostics ← engine.scan path
  match diagnostics.fatal? with
  | some (code, message) => throw (.uncheckable code message)
  | none =>
    let report ← buildReport naming diagnostics.counters path
    return { report, diagnostics }

/-- Audit the file of a given name, if the name is acceptable. -/
def run (isFile : τ → String → Bool) (engine : Engine τ) (naming : NamingChecker τ)
    (name : String) : Step τ Audit := do
  match validate name with
  | .error failure => throw failure
  | .ok () => ofFile isFile engine naming name

end Audit

namespace Checker

variable {σ : Type}

/-- The engine that runs a checker. -/
def engine (c : Checker) (host : Host σ) : Engine (NamingState σ) where
  scan path := NamingState.liftStep (c.scan host path)

/-- The naming checker that runs an external program. -/
def namingChecker (c : Checker) (host : Host σ) : NamingChecker (NamingState σ) where
  results := c.namingResults host
  cleanup := release host

end Checker
end StyleAudit
