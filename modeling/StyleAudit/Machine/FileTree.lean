import StyleAudit.Failure
import StyleAudit.Machine.Octets
import StyleAudit.Path

/-! # File trees

Directories and files by location. There are no links, so a location is the list of names from the
entry up to the root, and `..` drops the first of them. -/

namespace StyleAudit.Machine
set_option autoImplicit false

/-- Names from an entry up to the root, which has the empty location. -/
abbrev Location := List Octets

inductive Node where
  | file (data : ByteArray) (executable : Bool)
  | dir

structure FileTree where
  nodes : List (Location × Node) := []

/-- Length limits of a name and of a path. -/
def maxName : Nat := 255

def maxPath : Nat := 4096

namespace FileTree

def node? (t : FileTree) (loc : Location) : Option Node :=
  if loc.isEmpty then some .dir else (t.nodes.find? fun e => e.1 == loc).map Prod.snd

def isDir (t : FileTree) (loc : Location) : Bool :=
  match t.node? loc with
  | some .dir => true
  | _ => false

/-- Put a node at a location, in place of one that is there. -/
def put (t : FileTree) (loc : Location) (node : Node) : FileTree :=
  if t.nodes.any fun e => e.1 == loc then
    ⟨t.nodes.map fun e => if e.1 == loc then (loc, node) else e⟩
  else ⟨t.nodes ++ [(loc, node)]⟩

/-- Remove an entry and all below it. -/
def remove (t : FileTree) (loc : Location) : FileTree :=
  ⟨t.nodes.filter fun e => !loc.isSuffixOf e.1⟩

/-- Names of the entries directly in a directory. -/
def children (t : FileTree) (loc : Location) : List Octets :=
  t.nodes.filterMap fun e =>
    match e.1 with
    | name :: parent => if parent == loc then some name else none
    | [] => none

/-- Follow the segments of a path from a directory. -/
def follow (t : FileTree) (loc : Location) : List Octets → Except Cause Location
  | [] => .ok loc
  | s :: rest =>
    if !t.isDir loc then .error .notDirectory
    else if s.isEmpty || s == ['.'] then t.follow loc rest
    else if s == ['.', '.'] then t.follow loc.tail rest
    else if maxName < s.length then .error .nameTooLong
    else if (t.node? (s :: loc)).isSome then t.follow (s :: loc) rest
    else .error .noEntry

/-- The location where a path starts. -/
def origin (cwd : Location) (path : Octets) : Location :=
  if path.head? == some '/' then [] else cwd

/-- The entry that a path names. -/
def resolve (t : FileTree) (cwd : Location) (path : Octets) : Except Cause Location :=
  if path.isEmpty then .error .noEntry
  else if maxPath ≤ path.length then .error .nameTooLong
  else t.follow (origin cwd path) (Path.split path)

/-- The segments of a path without trailing slashes, last one first. -/
def segmentsBack (path : Octets) : List Octets := (Path.split path).reverse.dropWhile List.isEmpty

/-- The location of the entry that a path names or would name: its directory must exist. -/
def resolveNew (t : FileTree) (cwd : Location) (path : Octets) : Except Cause Location :=
  match t.resolve cwd path with
  | .ok loc => .ok loc
  | .error cause =>
    if cause ≠ .noEntry || path.isEmpty then .error cause
    else match segmentsBack path with
      | [] => .error cause
      | name :: before =>
        match t.follow (origin cwd path) before.reverse with
        | .ok dir => if t.isDir dir then .ok (name :: dir) else .error .notDirectory
        | .error cause => .error cause

/-- Open a file for writing: it is made if it is missing, and emptied unless its contents are
kept. -/
def openWrite (t : FileTree) (cwd : Location) (path : Octets) (keep : Bool) :
    Except Cause (Location × FileTree) :=
  match t.resolveNew cwd path with
  | .error cause => .error cause
  | .ok loc =>
    match t.node? loc with
    | some .dir => .error .isDirectory
    | some (.file data executable) =>
      .ok (loc, if keep then t else t.put loc (.file (if keep then data else .empty) executable))
    | none =>
      if path.getLast? == some '/' then .error .isDirectory
      else .ok (loc, t.put loc (.file .empty false))

/-- Add bytes at the end of a file. -/
def append (t : FileTree) (loc : Location) (bytes : ByteArray) : FileTree :=
  match t.node? loc with
  | some (.file data executable) => t.put loc (.file (data ++ bytes) executable)
  | _ => t

/-- The contents of the file that a path names. -/
def read (t : FileTree) (cwd : Location) (path : Octets) : Except Cause ByteArray :=
  match t.resolve cwd path with
  | .error cause => .error cause
  | .ok loc =>
    match t.node? loc with
    | some (.file data _) => .ok data
    | _ => .error .isDirectory

/-- Make a directory and the directories above it. Locations run up to the root, so the outermost
directory is made first. -/
def makeDirs (t : FileTree) : Location → FileTree
  | [] => t
  | name :: parent =>
    let t := t.makeDirs parent
    if (t.node? (name :: parent)).isSome then t else t.put (name :: parent) .dir

end FileTree

/-- The location of an absolute path without dots. -/
def locationOf (path : String) : Location :=
  ((Path.split (Octets.ofText path)).filter fun s => !s.isEmpty).reverse

/-- The path of a location. -/
def locationPath (loc : Location) : Octets :=
  if loc.isEmpty then ['/'] else loc.reverse.flatMap fun name => '/' :: name

end StyleAudit.Machine
