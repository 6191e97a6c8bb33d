/-! # Paths

Paths as text with slashes. Empty components and components `.` say nothing, except that a relative
path may start with `.`; components `..` are kept. -/

namespace StyleAudit.Path
set_option autoImplicit false

/-- A component, without slashes. -/
abbrev Segment := List Char

/-- The pieces between slashes, empty ones too. -/
def split : List Char → List Segment
  | [] => [[]]
  | c :: rest =>
    if c = '/' then [] :: split rest
    else match split rest with
      | [] => [[c]]
      | s :: more => (c :: s) :: more

/-- Pieces with slashes between them. -/
def unsplit : List Segment → List Char
  | [] => []
  | [s] => s
  | s :: t :: more => s ++ '/' :: unsplit (t :: more)

/-- A component that says nothing. -/
def isIdle (s : Segment) : Bool := s.isEmpty || s == ['.']

/-- How a path starts. -/
inductive Start where
  | root
  /-- A relative path that starts with the component `.`. -/
  | here
  | relative
  deriving Repr, DecidableEq

def Start.chars : Start → List Char
  | .root => ['/']
  | .here => ['.']
  | .relative => []

/-- The start of a path and the pieces after it. -/
def parts (path : List Char) : Start × List Segment :=
  match path with
  | '/' :: rest => (.root, split rest)
  | ['.'] => (.here, [])
  | '.' :: '/' :: rest => (.here, [] :: split rest)
  | _ => (.relative, split path)

/-- The directories above a path from its pieces, last piece first. Each one is written as far as it
goes, without idle pieces at its end. -/
def above (start : Start) : List Segment → List (List Char)
  | [] => if start = .here then [[]] else []
  | s :: before =>
    if isIdle s then above start before
    else (start.chars ++ unsplit (before.dropWhile isIdle).reverse) :: above start before

/-- A path and all directories above it, nearest first. A relative path ends in the empty path. -/
def ancestors (path : String) : List String :=
  let (start, segments) := parts path.toList
  path :: (above start segments.reverse).map String.ofList

def isAbsolute (path : String) : Bool := path.toList.head? == some '/'

/-- A path taken from a directory. An absolute path stands for itself. -/
def join (dir path : String) : String :=
  if isAbsolute path then path
  else if dir.isEmpty || dir.toList.getLast? == some '/' then dir ++ path
  else dir ++ "/" ++ path

/-- The components of a path that say something. -/
def components (path : String) : List Segment :=
  let (_, segments) := parts path.toList
  segments.filter fun s => !isIdle s

/-- The path without idle components. -/
def normalize (path : String) : String :=
  String.ofList ((if isAbsolute path then ['/'] else []) ++ unsplit (components path))

end StyleAudit.Path
