import StyleAudit.Machine.Octets

/-! # Patterns of the shell

`*`, `?` and bracket expressions. A character that was quoted in the script stands for itself. -/

namespace StyleAudit.Machine.Shell
set_option autoImplicit false

inductive Glob where
  | one (c : Char)
  | any
  | star
  | set (negated : Bool) (ranges : List (Char × Char))

/-- A character of a pattern and whether it was quoted. -/
abbrev PatternChar := Char × Bool

/-- The members of a bracket expression up to the closing bracket, and the rest. -/
def bracketMembers :
    List (Char × Char) → List PatternChar → Option (List (Char × Char) × List PatternChar)
  | _, [] => none
  | done, (a, qa) :: ('-', false) :: (b, qb) :: rest =>
    if a == ']' && !qa && !done.isEmpty then some (done.reverse, ('-', false) :: (b, qb) :: rest)
    else if b == ']' && !qb then bracketMembers ((a, a) :: done) (('-', true) :: (b, qb) :: rest)
    else bracketMembers ((a, b) :: done) rest
  | done, (a, qa) :: rest =>
    if a == ']' && !qa && !done.isEmpty then some (done.reverse, rest)
    else bracketMembers ((a, a) :: done) rest
termination_by _ cs => (cs.length, (cs.filter fun c => !c.2).length)

/-- Read a pattern. Each call uses up at least one character. -/
def globsOf : Nat → List PatternChar → List Glob
  | 0, _ => []
  | _, [] => []
  | fuel + 1, (c, quoted) :: rest =>
    if quoted then .one c :: globsOf fuel rest
    else if c == '*' then .star :: globsOf fuel rest
    else if c == '?' then .any :: globsOf fuel rest
    else if c == '[' then
      let negated := rest.head? == some ('!', false)
      match bracketMembers [] (if negated then rest.tail else rest) with
      | some (ranges, rest) => .set negated ranges :: globsOf fuel rest
      | none => .one c :: globsOf fuel rest
    else .one c :: globsOf fuel rest

def Glob.takes (g : Glob) (c : Char) : Bool :=
  match g with
  | .one d => c == d
  | .any => true
  | .star => true
  | .set negated ranges => (ranges.any fun r => r.1 ≤ c && c ≤ r.2) != negated

/-- Whether a whole text fits a pattern. -/
def fits : List Glob → Octets → Bool
  | [], [] => true
  | [], _ :: _ => false
  | .star :: gs, [] => fits gs []
  | .star :: gs, c :: cs => fits gs (c :: cs) || fits (.star :: gs) cs
  | _ :: _, [] => false
  | g :: gs, c :: cs => g.takes c && fits gs cs
termination_by gs cs => gs.length + cs.length

def patternOf (cs : List PatternChar) : List Glob := globsOf (cs.length + 1) cs

/-- Drop the shortest or the longest start of a text that fits a pattern. -/
def dropStart (longest : Bool) (pattern : List Glob) (cs : Octets) : Octets :=
  let sizes := List.range (cs.length + 1)
  match (if longest then sizes.reverse else sizes).find? fun n => fits pattern (cs.take n) with
  | some n => cs.drop n
  | none => cs

/-- Drop the shortest or the longest end of a text that fits a pattern. -/
def dropEnd (longest : Bool) (pattern : List Glob) (cs : Octets) : Octets :=
  let sizes := List.range (cs.length + 1)
  match (if longest then sizes else sizes.reverse).find? fun n => fits pattern (cs.drop n) with
  | some n => cs.take n
  | none => cs

end StyleAudit.Machine.Shell
