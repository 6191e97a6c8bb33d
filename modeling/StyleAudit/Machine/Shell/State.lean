import StyleAudit.Machine.Shell.Arithmetic
import StyleAudit.Machine.Shell.Fields
import StyleAudit.Machine.Shell.Script

/-! # State of a shell

A shell works on a file tree and writes to buffers. -/

namespace StyleAudit.Machine.Shell
set_option autoImplicit false

/-- Where output goes. -/
inductive Sink where
  | buffer (n : Nat)
  | file (loc : Location)
  | closed

/-- Ways of working that a script can switch on. -/
structure Switches where
  /-- Leave when a command fails. -/
  leaveOnFailure : Bool := false
  /-- Refuse parameters that are not set. -/
  refuseUnset : Bool := false
  /-- Show commands before they run. -/
  trace : Bool := false

structure State where
  files : FileTree
  cwd : Location
  vars : List (Octets × Octets) := []
  exported : List Octets := []
  params : List Octets := []
  name : Octets
  line : Nat := 1
  status : Nat := 0
  /-- The status of the last command whose output went into the current command line. -/
  inner : Nat := 0
  input : Octets := []
  buffers : Array ByteArray
  out : Sink
  err : Sink
  switches : Switches := {}
  /-- The status of what runs now is looked at, so failures are no reason to leave. -/
  tested : Bool := false
  functions : List (Octets × Command) := []
  /-- Values to put back at the end of each function that runs, innermost function first. -/
  saved : List (List (Octets × Option Octets)) := []
  /-- The number of loops around what runs now. -/
  loops : Nat := 0
  /-- Scripts for signals, and for the end under number zero. -/
  traps : List (Nat × Octets) := []
  /-- Scripts of signals that have come. -/
  due : List Octets := []

/-- Ways to leave the commands that are being run. -/
inductive Leave where
  | exit
  | signal (n : Nat)
  /-- Leave the current function. -/
  | function
  /-- End as many loops. -/
  | endLoops (n : Nat)
  /-- Go on with the next round of the loop that is as far out. -/
  | nextRound (n : Nat)

abbrev Run := ExceptT Leave (StateM State)

/-- The process number of every shell. -/
def processNumber : Octets := "4711".toList

def write (sink : Sink) (cs : Octets) : Run Unit :=
  modify fun s =>
    match sink with
    | .buffer n => { s with buffers := s.buffers.modify n (· ++ Octets.toBytes cs) }
    | .file loc => { s with files := s.files.append loc (Octets.toBytes cs) }
    | .closed => s

def say (cs : Octets) : Run Unit := do write (← get).out cs

/-- Write a message of the shell itself. -/
def complain (message : String) : Run Unit := do
  let s ← get
  let place := (": " ++ toString s.line ++ ": ").toList
  write s.err (s.name ++ place ++ Octets.ofText message ++ ['\n'])

def setStatus (n : Nat) : Run Unit := modify fun s => { s with status := n }

/-- Leave the shell with a status. -/
def leaveWith {α : Type} (n : Nat) : Run α := do
  setStatus n
  throw .exit

def lookup (vars : List (Octets × Octets)) (name : Octets) : Option Octets :=
  (vars.find? fun v => v.1 == name).map Prod.snd

def assign (name value : Octets) : Run Unit :=
  modify fun s => { s with vars := (name, value) :: s.vars.filter fun v => v.1 != name }

/-- Put back the value that a variable had. -/
def putBack (vars : List (Octets × Octets)) (old : Octets × Option Octets) :
    List (Octets × Octets) :=
  let others := vars.filter fun v => v.1 != old.1
  match old.2 with
  | some value => (old.1, value) :: others
  | none => others

/-- The characters that divide fields. -/
def State.dividers (s : State) : Octets := (lookup s.vars "IFS".toList).getD standardDividers

/-- What stands between the positional parameters when they are joined. -/
def State.joint (s : State) : Octets := s.dividers.take 1

def natOctets (n : Nat) : Octets := Nat.toDigits 10 n

/-- The value of a parameter. -/
def State.param (s : State) (name : Octets) : Option Octets :=
  match name with
  | ['#'] => some (natOctets s.params.length)
  | ['?'] => some (natOctets s.status)
  | ['$'] => some processNumber
  | ['-'] => some []
  | ['!'] => none
  | ['@'] | ['*'] => if s.params.isEmpty then none else some (s.joint.intercalate s.params)
  | _ =>
    if name.all Char.isDigit then
      match (numeralIn 10 0 name).1 with
      | 0 => some s.name
      | n + 1 => s.params[n]?
    else lookup s.vars name

end StyleAudit.Machine.Shell
