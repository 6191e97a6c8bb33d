import StyleAudit.Host
import StyleAudit.Statistics
import StyleAudit.Text.Utf8

/-! # Checkers

A checker is an external program that prints statistics for a file. -/

namespace StyleAudit
set_option autoImplicit false

open Text

/-- A program and its leading arguments; the file to check is the last argument. -/
structure Checker where
  program : String
  args : List String
  /-- Text that the version banner must mention, such as the name of a plugin. -/
  requires : Option String
  deriving Repr, DecidableEq

namespace Checker

/-- The style checker of a file when nothing else is configured. -/
def style : Checker := ⟨"pycodestyle", ["--statistics", "-qq"], none⟩

/-- The naming checker when nothing else is configured. Without its plugin it would report nothing
at all, which would read as a clean result. -/
def naming : Checker := ⟨"flake8", ["--select=N8", "--statistics", "-qq"], some "pep8-naming"⟩

variable {σ : Type}

/-- Run the checker's program. -/
def start (c : Checker) (host : Host σ) (args : List String) : Step σ Outcome := do
  match ← (host.run c.program (c.args ++ args) : StateM σ _) with
  | .ok outcome => return outcome
  | .error cause => throw (.checkerUnavailable c.program cause)

/-- What the program prints for `--version`, both streams. -/
def banner (outcome : Outcome) : String :=
  Utf8.lossyText outcome.stdout ++ Utf8.lossyText outcome.stderr

/-- Check that the version banner mentions the required text. -/
def verify (c : Checker) (host : Host σ) : Step σ Unit := do
  match c.requires with
  | none => return ()
  | some required =>
    let outcome ← c.start host ["--version"]
    if occursIn required.toList (banner outcome).toList then return ()
    else throw (.missingPlugin c.program required)

/-- Check a file, with extra arguments before its path. The statuses 0 and 1 are success: 1 says
that something was found. -/
def check (c : Checker) (host : Host σ) (extra : List String) (path : String) :
    Step σ Outcome := do
  let outcome ← c.start host (extra ++ [path])
  match outcome.status with
  | .code 0 | .code 1 => return outcome
  | status =>
    let stderr := String.ofList (trim (Utf8.decodeLossy outcome.stderr.data.toList))
    throw (.checkerFailed c.program status.text stderr)

/-- Verify the checker, run it once on a file and read its statistics. -/
def scan (c : Checker) (host : Host σ) (path : String) : Step σ Diagnostics := do
  c.verify host
  let outcome ← c.check host [] path
  return Statistics.parse (Utf8.lossyText outcome.stdout)

end Checker
end StyleAudit
