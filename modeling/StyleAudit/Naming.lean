import StyleAudit.Checker
import StyleAudit.Report

/-! # The naming checker

An external naming checker writes its statistics to a file in a scratch directory, which is made at
the first use and kept until the checker is released. -/

namespace StyleAudit
set_option autoImplicit false

open Text

/-- A naming checker and the system it works on. -/
structure NamingState (σ : Type) where
  /-- The version banner was found good. -/
  verified : Bool := false
  /-- The scratch directory that the checker holds. -/
  scratch : Option String := none
  world : σ

namespace NamingState

variable {σ α : Type}

/-- Do a step of the system. -/
def lift (step : StateM σ α) : StateM (NamingState σ) α := fun s =>
  let (a, world) := step s.world
  (a, { s with world })

/-- Do a step of the system that may fail. -/
def liftStep (step : Step σ α) : Step (NamingState σ) α := lift step

end NamingState

namespace Checker

variable {σ : Type}

/-- Verify the banner unless that was done before. -/
def verifyOnce (c : Checker) (host : Host σ) : Step (NamingState σ) Unit := do
  if !(← get).verified then
    NamingState.liftStep (c.verify host)
    modify fun s => { s with verified := true }

/-- The scratch directory, made now unless there is one. -/
def scratchDir (host : Host σ) : Step (NamingState σ) String := do
  match (← get).scratch with
  | some dir => return dir
  | none =>
    match ← (NamingState.lift host.makeScratch : StateM (NamingState σ) _) with
    | .ok dir =>
      modify fun s => { s with scratch := some dir }
      return dir
    | .error cause => throw (.inputOutput cause (host.tempDir (← get).world))

/-- The file for the statistics. -/
def outputFile (dir : String) : String := dir ++ "/naming.txt"

/-- Remove what an earlier call left at a path. -/
def removeLeftover (host : Host σ) (path : String) : Step (NamingState σ) Unit := do
  match ← (NamingState.lift (host.removeFile path) : StateM (NamingState σ) _) with
  | .ok () => return ()
  | .error cause => if cause = .noEntry then return () else throw (.inputOutput cause path)

/-- The text at a path; a file that is not there has nothing to say. -/
def readOutput (host : Host σ) (path : String) : Step (NamingState σ) String := do
  match host.readText (← get).world path with
  | .ok text => return text
  | .error cause => if cause = .noEntry then return "" else throw (.inputOutput cause path)

/-- The naming diagnostics: those of the output file, or those of standard output when the file
holds no statistics. -/
def namingDiagnostics (text : String) (stdout : ByteArray) : Diagnostics :=
  let d := Statistics.parse text
  if d.counters.isEmpty then Statistics.parse (Utf8.lossyText stdout) else d

/-- The naming verdict of a file and the number of naming errors. -/
def namingResults (c : Checker) (host : Host σ) (path : String) :
    Step (NamingState σ) (Verdict × Count) := do
  c.verifyOnce host
  let file := outputFile (← scratchDir host)
  removeLeftover host file
  let outcome ← NamingState.liftStep (c.check host ["--output-file=" ++ file] path)
  let text ← readOutput host file
  return Verdict.ofCodes CodeSet.namingCodes (namingDiagnostics text outcome.stdout).counters

/-- Release the scratch directory, if the checker holds one. -/
def release (host : Host σ) : StateM (NamingState σ) Unit := do
  match (← get).scratch with
  | none => return ()
  | some dir =>
    modify fun s => { s with scratch := none }
    NamingState.lift (host.removeScratch dir)

end Checker
end StyleAudit
