import StyleAudit.Machine.FileTree
import StyleAudit.Machine.Shell.Pattern

/-! # Fields

Words are expanded to items first, which are then joined to a text, read as a pattern, or divided
into fields. A field that has pattern characters outside quotes stands for the paths that fit it. -/

namespace StyleAudit.Machine.Shell
set_option autoImplicit false

/-- Parts of an expanded word. -/
inductive Item where
  /-- A character, whether it was quoted, and whether it may divide fields. -/
  | char (c : Char) (quoted divides : Bool)
  /-- A boundary between fields. -/
  | cut
  /-- A field is here even if it is empty. -/
  | anchor

def items (quoted divides : Bool) (cs : Octets) : List Item :=
  cs.map fun c => .char c quoted divides

/-- The characters of an expanded word that is not divided. -/
def itemText (is : List Item) : Octets :=
  is.filterMap fun
    | .char c _ _ => some c
    | .cut => some ' '
    | .anchor => none

def itemPattern (is : List Item) : List Glob :=
  patternOf (is.filterMap fun
    | .char c quoted _ => some (c, quoted)
    | .cut => some (' ', true)
    | .anchor => none)

/-- The positional parameters as items. Quoted, each is a field of its own. -/
def paramItems (quoted : Bool) : List Octets → List Item
  | [] => []
  | [p] => if quoted then .anchor :: items true false p else items false true p
  | p :: q :: rest =>
    (if quoted then .anchor :: items true false p else items false true p) ++
      .cut :: paramItems quoted (q :: rest)

/-- Characters that divide fields unless others are chosen. -/
def standardDividers : Octets := [' ', '\t', '\n']

def isSpace (c : Char) : Bool := standardDividers.contains c

/-- A division into fields on its way. Lists are in reverse. -/
structure Splitting where
  /-- The field being read; `none` until something starts it. -/
  field : Option (List PatternChar) := none
  done : List (List PatternChar) := []
  /-- A blank has just ended a field; a divider of another kind after it belongs to it. -/
  ended : Bool := false

namespace Splitting

/-- End the field that is being read. -/
def close (p : Splitting) (ended : Bool) : Splitting :=
  match p.field with
  | some f => { field := none, done := f.reverse :: p.done, ended }
  | none => p

def add (dividers : Octets) (p : Splitting) : Item → Splitting
  | .char c quoted divides =>
    if divides && dividers.contains c then
      if isSpace c then p.close true
      else if p.field.isSome then p.close false
      else if p.ended then { p with ended := false }
      else { p with done := [] :: p.done }
    else { p with field := some ((c, quoted) :: p.field.getD []), ended := false }
  | .cut => p.close false
  | .anchor => { p with field := some (p.field.getD []), ended := false }

end Splitting

/-- Divide an expanded word into fields. -/
def fields (dividers : Octets) (is : List Item) : List (List PatternChar) :=
  ((is.foldl (Splitting.add dividers) {}).close false).done.reverse

/-- Whether a part of a field is a pattern. -/
def isPattern (field : List PatternChar) : Bool :=
  field.any fun c => !c.2 && (c.1 == '*' || c.1 == '?' || c.1 == '[')

/-- The parts of a field between its slashes. -/
def patternSegments : List PatternChar → List (List PatternChar)
  | [] => [[]]
  | c :: rest =>
    if c.1 == '/' then [] :: patternSegments rest
    else match patternSegments rest with
      | [] => [[c]]
      | s :: more => (c :: s) :: more

/-- Names that fit a segment, in order. A name that starts with a point must be asked for. -/
def namesFitting (names : List Octets) (segment : List PatternChar) : List Octets :=
  let found := names.filter fun name =>
    fits (patternOf segment) name &&
      (name.head? != some '.' || (segment.head?.map Prod.fst) == some '.')
  found.mergeSort fun a b => !decide (String.ofList b < String.ofList a)

/-- The entries that a segment leads to from an entry with its path. -/
def stepInto (t : FileTree) (segment : List PatternChar) (path : Octets) (loc : Location) :
    List (Octets × Location) :=
  let name := segment.map Prod.fst
  if isPattern segment then
    (namesFitting (t.children loc) segment).map fun name => (path ++ name, name :: loc)
  else if name.isEmpty || name == ['.'] then [(path ++ name, loc)]
  else if name == ['.', '.'] then [(path ++ name, loc.tail)]
  else if (t.node? (name :: loc)).isSome then [(path ++ name, name :: loc)]
  else []

/-- The entries that segments lead to. -/
def pathsFrom (t : FileTree) : List (Octets × Location) → List (List PatternChar) → List Octets
  | found, [] => found.map Prod.fst
  | found, [segment] => pathsFrom t (found.flatMap fun e => stepInto t segment e.1 e.2) []
  | found, segment :: next :: rest =>
    let stepped := found.flatMap fun e => stepInto t segment e.1 e.2
    let dirs := stepped.filter fun e => t.isDir e.2
    pathsFrom t (dirs.map fun e => (e.1 ++ ['/'], e.2)) (next :: rest)

/-- What a field stands for: the paths that fit it, or itself if it is no pattern or none fits. -/
def fieldPaths (t : FileTree) (cwd : Location) (field : List PatternChar) : List Octets :=
  let text := field.map Prod.fst
  if isPattern field then
    match pathsFrom t [([], FileTree.origin cwd text)] (patternSegments field) with
    | [] => [text]
    | found => found
  else [text]

end StyleAudit.Machine.Shell
