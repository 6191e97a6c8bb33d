import StyleAudit.Host
import StyleAudit.Machine.Shell.Run

/-! # A workstation as a host

A workstation is a file tree, a current directory, a directory for temporary files and an
environment. It runs the system tools and shell scripts of its own file tree. -/

namespace StyleAudit.Machine
set_option autoImplicit false

open Text

structure Workstation where
  files : FileTree
  cwd : Location
  tempDir : String
  /-- Environment variables. -/
  vars : List (Octets × Octets)
  /-- The number of scratch directories made so far. -/
  made : Nat := 0

/-- Bound on the work of one program. -/
def programFuel : Nat := 1000000

/-- The location of a path in a file tree, if there is one. A name cannot hold a zero byte. -/
def Workstation.resolve (s : Workstation) (path : String) : Except Cause Location :=
  let cs := Octets.ofText path
  if cs.contains '\x00' then .error (.other "file name contained an unexpected NUL byte")
  else s.files.resolve s.cwd cs

def Workstation.node? (s : Workstation) (path : String) : Option Node :=
  match s.resolve path with
  | .ok loc => s.files.node? loc
  | .error _ => none

def Workstation.isFile (s : Workstation) (path : String) : Bool :=
  match s.node? path with
  | some (.file _ _) => true
  | _ => false

def Workstation.readText (s : Workstation) (path : String) : Except Cause String :=
  match s.resolve path with
  | .error cause => .error cause
  | .ok loc =>
    match s.files.node? loc with
    | some (.file data _) =>
      match Utf8.text? data with
      | some text => .ok text
      | none => .error .notText
    | _ => .error .isDirectory

def Workstation.removeFile (s : Workstation) (path : String) : Except Cause Unit × Workstation :=
  match s.resolve path with
  | .error cause => (.error cause, s)
  | .ok loc =>
    if s.files.isDir loc then (.error .isDirectory, s)
    else (.ok (), { s with files := s.files.remove loc })

/-- The name of a scratch directory ends in six characters that no other one has. -/
def scratchName (n : Nat) : String :=
  let digits := Nat.toDigits 10 n
  "stylereport-naming" ++ String.ofList (List.replicate (6 - digits.length) '0' ++ digits)

def Workstation.makeScratch (s : Workstation) : Except Cause String × Workstation :=
  let path := s.tempDir ++ "/" ++ scratchName s.made
  match s.files.resolveNew s.cwd (Octets.ofText path) with
  | .ok loc =>
    (.ok path, { s with files := s.files.put loc .dir, made := s.made + 1 })
  | .error cause => (.error (.osAt (errnoOf cause) path), s)

def Workstation.removeScratch (s : Workstation) (path : String) : Workstation :=
  match s.resolve path with
  | .ok loc => { s with files := s.files.remove loc }
  | .error _ => s

/-- The shell state in which a program starts. -/
def Workstation.shell (s : Workstation) : Shell.State where
  files := s.files
  cwd := s.cwd
  vars := s.vars
  exported := s.vars.map Prod.fst
  name := []
  buffers := #[.empty, .empty]
  out := .buffer 0
  err := .buffer 1

/-- The refusal of a script that no interpreter runs. -/
def refusal? (s : Shell.State) : Shell.Executable → Option Cause
  | .tool _ => none
  | .script _ data =>
    match Shell.interpreter? data with
    | none => some (.os 8)
    | some (program, _) =>
      match Shell.programAt s program with
      | .ok _ => none
      | .error cause => some cause

/-- Run a program to its end. No memory of it is kept. -/
def Workstation.run (s : Workstation) (program : String) (args : List String) :
    Except Cause Outcome × Workstation :=
  if (program :: args).any fun a => a.toList.contains '\x00' then (.error .nulByte, s)
  else
    let name := Octets.ofText program
    match Shell.findProgram s.shell name with
    | .error cause => (.error cause, s)
    | .ok found =>
      match refusal? s.shell found with
      | some cause => (.error cause, s)
      | none =>
        let (result, t) := Shell.execute programFuel name found (args.map Octets.ofText) s.shell
        let status := match result with
          | .error (.signal n) => ExitStatus.signal n false
          | _ => .code (t.status % 256)
        let outcome :=
          { stdout := t.buffers.getD 0 .empty, stderr := t.buffers.getD 1 .empty, status }
        (.ok outcome, { s with files := t.files })

/-- A workstation as a host of audits. -/
def Workstation.host : Host Workstation where
  currentDir s := .ok (Octets.toText (locationPath s.cwd))
  tempDir s := s.tempDir
  isFile := Workstation.isFile
  isEntry s path := (s.node? path).isSome
  readText := Workstation.readText
  removeFile path s := s.removeFile path
  makeScratch s := s.makeScratch
  removeScratch path s := ((), s.removeScratch path)
  run program args s := s.run program args

end StyleAudit.Machine
