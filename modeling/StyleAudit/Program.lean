import StyleAudit.Audit
import StyleAudit.Options
import StyleAudit.Presentation
import StyleAudit.Settings

/-! # The program

From a command line to what is printed and the exit code: 0 for a report, whatever it says, and for
help and version; 2 for everything else. -/

namespace StyleAudit
set_option autoImplicit false

open Text

/-- What a run of the program leaves. -/
structure Exit where
  code : Nat
  stdout : String := ""
  stderr : String := ""
  deriving Repr, DecidableEq

namespace Program

variable {σ : Type}

/-- Notice for an output mode that is not known. -/
def modeNote (coloured : Bool) (mode : String) : String :=
  if mode = "json" ∨ mode = "human" then ""
  else noteMark coloured ++ " unknown output mode '" ++ mode ++ "'; using json\n"

def failureNotice (coloured : Bool) (f : Failure) : String :=
  errorMark coloured ++ " " ++ f.message ++ "\n"

/-- Audit a file with given settings. -/
def auditWith (host : Host σ) (coloured : Bool) (settings : Effective) (file : String) :
    StateM σ Exit := fun s =>
  let engine := settings.engine.engine host
  let naming := settings.naming.namingChecker host
  let isFile := fun (t : NamingState σ) path => host.isFile t.world path
  let note := modeNote coloured settings.output
  let (result, t) := Audit.run isFile engine naming file { world := s }
  let printed := result.bind fun audit =>
    audit.report.print audit.diagnostics settings.output coloured
  match printed with
  | .ok stdout => ({ code := 0, stdout, stderr := note }, t.world)
  | .error f => ({ code := 2, stderr := note ++ failureNotice coloured f }, t.world)

/-- Run the program on a parsed command line. -/
def runOptions (decoders : Decoders) (host : Host σ) (coloured : Bool) (options : Options) :
    StateM σ Exit := fun s =>
  match Settings.resolve decoders host s options.root options.output with
  | .error f => ({ code := 2, stderr := failureNotice coloured f }, s)
  | .ok settings => auditWith host coloured settings options.file s

/-- Run the program on a command line. -/
def run (decoders : Decoders) (host : Host σ) (coloured : Bool) (args : List String) :
    StateM σ Exit := fun s =>
  match Options.parse args with
  | .error r =>
    if r.isInformation then ({ code := 0, stdout := r.text }, s)
    else ({ code := 2, stderr := r.text }, s)
  | .ok options => runOptions decoders host coloured options s

end Program
end StyleAudit
