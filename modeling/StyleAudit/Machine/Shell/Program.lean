import StyleAudit.Machine.Shell.State
import StyleAudit.Machine.Tool

/-! # Finding programs

A name with a slash is a path; any other name is looked up in the search directories. -/

namespace StyleAudit.Machine.Shell
set_option autoImplicit false

/-- A program that was found. -/
inductive Executable where
  | tool (name : String)
  | script (path : Octets) (data : ByteArray)

/-- The program that a path names. -/
def programAt (s : State) (path : Octets) : Except Cause Executable :=
  match toolAt? path with
  | some t => .ok (.tool t)
  | none =>
    match s.files.resolve s.cwd path with
    | .error cause => .error cause
    | .ok loc =>
      match s.files.node? loc with
      | some (.file data true) => .ok (.script path data)
      | _ => .error .denied

/-- Search directories for a program. A file that may not be run is passed over, but remembered. -/
def searchProgram (s : State) (name : Octets) (failure : Cause) :
    List Octets → Except Cause Executable
  | [] => .error failure
  | dir :: dirs =>
    match programAt s (if dir.isEmpty then name else dir ++ '/' :: name) with
    | .ok found => .ok found
    | .error cause => searchProgram s name (if cause = .denied then cause else failure) dirs

/-- The parts of a list between its colons. -/
def searchDirs (path : Octets) : List Octets :=
  let swap := fun c => if c == ':' then '/' else if c == '/' then ':' else c
  (Path.split (path.map swap)).map fun dir => dir.map swap

/-- The program of a command name: a path, or a name looked up in the search directories. -/
def findProgram (s : State) (name : Octets) : Except Cause Executable :=
  if name.isEmpty then .error .noEntry
  else if name.contains '/' then programAt s name
  else searchProgram s name .noEntry (searchDirs ((lookup s.vars "PATH".toList).getD []))

/-- The interpreter and its argument on the first line of a script. -/
def interpreter? (data : ByteArray) : Option (Octets × Option Octets) :=
  match Octets.ofBytes data with
  | '#' :: '!' :: rest =>
    let blank := fun c => c == ' ' || c == '\t'
    let line := ((rest.takeWhile (· != '\n')).dropWhile blank).reverse.dropWhile blank |>.reverse
    let path := line.takeWhile fun c => !blank c
    let arg := (line.dropWhile fun c => !blank c).dropWhile blank
    some (path, if arg.isEmpty then none else some arg)
  | _ => none

end StyleAudit.Machine.Shell
