import StyleAudit.Yaml.Cursor

/-! # Scalars, anchors and tags of YAML

Line breaks inside plain and quoted scalars fold: a single one is a space, and of several the first
is dropped. Block scalars keep their lines, or fold them unless one of two neighbours is
indented. -/

namespace StyleAudit.Yaml
set_option autoImplicit false

/-- Blanks between two parts of a scalar: those on one line, or the breaks after which it goes
on. -/
structure Gap where
  blanks : List Char := []
  /-- A line break was passed. -/
  broken : Bool := false
  first : List Char := []
  others : List Char := []

/-- The text that a gap stands for. -/
def Gap.text (g : Gap) : List Char :=
  if g.broken then
    if g.first == ['\n'] then (if g.others.isEmpty then [' '] else g.others)
    else g.first ++ g.others
  else g.blanks

/-- Pass over blanks and line breaks. A tab before column `least` of a later line is refused. -/
def takeGap (least : Option Nat) : Nat → Gap → Scan Gap
  | 0, g => return g
  | fuel + 1, g => do
    match ← peek with
    | none => return g
    | some c =>
      if isBlank c then
        match least with
        | some n =>
          if g.broken && (← get).column < n && c == '\t' then
            throw "tab in the indentation"
        | none => pure ()
        skip
        takeGap least fuel (if g.broken then g else { g with blanks := g.blanks ++ [c] })
      else if isBreak c then
        let b ← takeBreak
        if g.broken then takeGap least fuel { g with others := g.others ++ b }
        else takeGap least fuel { g with blanks := [], broken := true, first := b }
      else return g

def charsLeft : Scan Nat := do return (← get).rest.length

/-- What an escape stands for: a character, or the number of hexadecimal digits that follow. -/
def escapeOf : Char → Option (Sum Char Nat)
  | '0' => some (.inl '\x00')
  | 'a' => some (.inl '\x07')
  | 'b' => some (.inl '\x08')
  | 't' => some (.inl '\t')
  | '\t' => some (.inl '\t')
  | 'n' => some (.inl '\n')
  | 'v' => some (.inl '\x0b')
  | 'f' => some (.inl '\x0c')
  | 'r' => some (.inl '\r')
  | 'e' => some (.inl '\x1b')
  | ' ' => some (.inl ' ')
  | '"' => some (.inl '"')
  | '/' => some (.inl '/')
  | '\\' => some (.inl '\\')
  | 'N' => some (.inl '\x85')
  | '_' => some (.inl '\xa0')
  | 'L' => some (.inl '\u2028')
  | 'P' => some (.inl '\u2029')
  | 'x' => some (.inr 2)
  | 'u' => some (.inr 4)
  | 'U' => some (.inr 8)
  | _ => none

/-- A number of exactly `n` hexadecimal digits. -/
def hexNumber : Nat → Nat → Scan Nat
  | 0, value => return value
  | n + 1, value => do
    match (← peek).bind Text.digitValue with
    | some d =>
      skip
      hexNumber n (16 * value + d)
    | none => throw "expected a hexadecimal digit"

/-- The character of an escape, after its backslash. -/
def escape : Scan Char := do
  match (← peek).bind escapeOf with
  | none => throw "unknown escape"
  | some (.inl c) =>
    skip
    return c
  | some (.inr n) =>
    skip
    let value ← hexNumber n 0
    if (0xD800 ≤ value && value ≤ 0xDFFF) || 0x10FFFF < value then throw "bad character number"
    return Char.ofNat value

/-- The text of a quoted scalar up to its closing quote; `done` is what was read, in reverse. -/
def quotedText (single : Bool) : Nat → List Char → Scan (List Char)
  | 0, _ => throw "unterminated quoted scalar"
  | fuel + 1, done => do
    if ← atAnyMark then throw "document mark in a quoted scalar"
    let quote := if single then '\x27' else '"'
    match ← peek with
    | none => throw "unterminated quoted scalar"
    | some c =>
      if c == quote then
        skip
        if single && (← isNext quote) then
          skip
          quotedText single fuel (quote :: done)
        else return done.reverse
      else if c == '\\' && !single then
        skip
        if ← nextIs isBreak then
          let _ ← takeBreak
          let g ← takeGap none (← charsLeft) { broken := true }
          quotedText single fuel (g.text.reverse ++ done)
        else quotedText single fuel ((← escape) :: done)
      else if isBlank c || isBreak c then
        let g ← takeGap none (← charsLeft) {}
        quotedText single fuel (g.text.reverse ++ done)
      else
        skip
        quotedText single fuel (c :: done)

/-- A quoted scalar with its quotes. -/
def quoted (single : Bool) : Scan String := do
  skip
  return String.ofList (← quotedText single ((← charsLeft) + 1) [])

/-- Characters that end a plain scalar inside flow collections. -/
def isFlowEnd (c : Char) : Bool := ",[]\x7b\x7d".toList.contains c

/-- The characters of a plain scalar up to a blank or an indicator. -/
def plainRun (inFlow : Bool) : Nat → List Char → Scan (List Char)
  | 0, done => return done
  | fuel + 1, done => do
    match ← peek with
    | none => return done
    | some c =>
      if isBlank c || isBreak c then return done
      let follower ← peekAt 1
      if inFlow && c == ':' && (follower.map fun f => f == '?' || isFlowEnd f).getD false then
        throw "unexpected colon in a plain scalar"
      if c == ':' && (← blankAt 1) then return done
      if inFlow && isFlowEnd c then return done
      skip
      plainRun inFlow fuel (c :: done)

/-- The text of a plain scalar and whether a line break follows it. `indent` is the least column of
its later lines; `gap` is the text between the part read so far and here. -/
def plainText (inFlow : Bool) (indent : Nat) : Nat → Gap → List Char → Scan (List Char × Bool)
  | 0, gap, done => return (done.reverse, gap.broken)
  | fuel + 1, gap, done => do
    if (← atAnyMark) || (← isNext '#') then return (done.reverse, gap.broken)
    let run ← plainRun inFlow ((← charsLeft) + 1) []
    let (done, gap) :=
      if run.isEmpty then (done, gap) else (run ++ gap.text.reverse ++ done, ({} : Gap))
    if !(← nextIs fun c => isBlank c || isBreak c) then return (done.reverse, gap.broken)
    let gap ← takeGap (some indent) (← charsLeft) gap
    if !inFlow && (← get).column < indent then return (done.reverse, gap.broken)
    plainText inFlow indent fuel gap done

/-- A plain scalar and whether a line break follows it. -/
def plain (inFlow : Bool) (indent : Nat) : Scan (String × Bool) := do
  let (cs, broken) ← plainText inFlow indent ((← charsLeft) + 1) {} []
  return (String.ofList cs, broken)

inductive Chomping where
  | strip
  | clip
  | keep
  deriving DecidableEq

def chomping? : Scan (Option Chomping) := do
  match ← peek with
  | some '+' =>
    skip
    return some .keep
  | some '-' =>
    skip
    return some .strip
  | _ => return none

def indentation? : Scan (Option Nat) := do
  match ← peek with
  | some c =>
    if c.isDigit then
      if c == '0' then throw "indentation of zero"
      skip
      return Text.digitValue c
    else return none
  | none => return none

/-- The indicators of a block scalar, in either order. -/
def blockIndicators : Scan (Chomping × Option Nat) := do
  match ← chomping? with
  | some c => return (c, ← indentation?)
  | none =>
    match ← indentation? with
    | some n => return ((← chomping?).getD .clip, some n)
    | none => return (.clip, none)

/-- Empty lines of a block scalar. Without a known indentation the widest of them counts too. -/
def emptyLines (indent : Option Nat) : Nat → Nat → List Char → Scan (Nat × List Char)
  | 0, widest, breaks => return (widest, breaks)
  | fuel + 1, widest, breaks => do
    let column := (← get).column
    let left ← charsLeft
    let room := (indent.map fun n => n - column).getD left
    let spaces := ((← get).rest.take room).takeWhile (· == ' ')
    modify fun c => { c with rest := c.rest.drop spaces.length, index := c.index + spaces.length,
                             column := c.column + spaces.length }
    let column := (← get).column
    let inIndent := (indent.map fun n => decide (column < n)).getD true
    if inIndent && (← isNext '\t') then throw "tab in the indentation"
    if ← nextIs isBreak then
      let b ← takeBreak
      emptyLines indent fuel (max widest column) (breaks ++ b)
    else return (max widest column, breaks)

/-- The lines of a block scalar. `ended` is the break after the last line, `breaks` the empty lines
after it, and `wasBlank` says that the last line started with a blank. -/
def blockLines (folded : Bool) (indent : Nat) :
    Nat → Bool → List Char → List Char → List Char → Scan (List Char × List Char × List Char)
  | 0, _, ended, breaks, done => return (done, ended, breaks)
  | fuel + 1, wasBlank, ended, breaks, done => do
    if (← get).column != indent || (← peek).isNone then return (done, ended, breaks)
    let isBlankLine ← nextIs isBlank
    let done :=
      if folded && ended == ['\n'] && !wasBlank && !isBlankLine then
        if breaks.isEmpty then done ++ [' '] else done ++ breaks
      else done ++ ended ++ breaks
    let line ← takeWhile fun c => !isBreak c
    let ended ← takeBreak
    let (_, breaks) ← emptyLines (some indent) ((← charsLeft) + 1) 0 []
    blockLines folded indent fuel isBlankLine ended breaks (done ++ line)

/-- A block scalar from its indicator on; `parent` is the indentation around it, if there is one. -/
def block (folded : Bool) (parent : Option Nat) : Scan String := do
  skip
  let (chomp, increment) ← blockIndicators
  skipLineRest
  let known := increment.map fun n => (parent.getD 0) + n
  let (widest, breaks) ← emptyLines known ((← charsLeft) + 1) 0 []
  let indent := known.getD (max (max widest ((parent.map (· + 1)).getD 0)) 1)
  let (done, ended, breaks) ← blockLines folded indent ((← charsLeft) + 1) false [] breaks []
  let tail := match chomp with
    | .strip => []
    | .clip => ended
    | .keep => ended ++ breaks
  return String.ofList (done ++ tail)

/-- The name of an anchor or alias, after its indicator. -/
def anchorName : Scan String := do
  skip
  let name ← takeWhile isWordChar
  let ends := (← blankAt 0) || (← nextIs fun c => "?:,]\x7d%@\x60".toList.contains c)
  if name.isEmpty || !ends then throw "bad anchor name"
  return String.ofList name

/-- Characters of a tag; the last ones only in angle brackets. -/
def isTagChar (verbatim : Bool) (c : Char) : Bool :=
  isWordChar c || ";/?:@&=+$.!~*\x27()%".toList.contains c || (verbatim && ",[]".toList.contains c)

/-- How many octets follow the first octet of a character, if it can be one. -/
def octetsAfter (octet : Nat) : Option Nat :=
  if octet < 0x80 then some 0
  else if octet / 0x20 == 6 then some 1
  else if octet / 0x10 == 14 then some 2
  else if octet / 8 == 30 then some 3
  else none

/-- Put octets in place of percent escapes; `due` of them must follow to complete a character. -/
def tagEscapes : Nat → List Char → Except String (List Char)
  | 0, [] => .ok []
  | due, '%' :: a :: b :: rest =>
    match Text.digitValue a, Text.digitValue b with
    | some x, some y => do
      let octet := 16 * x + y
      let due ← match due with
        | 0 => (octetsAfter octet).elim (.error "bad octet in a tag") .ok
        | n + 1 => if octet / 0x40 == 2 then .ok n else .error "bad octet in a tag"
      return Char.ofNat octet :: (← tagEscapes due rest)
    | _, _ => .error "bad escape in a tag"
  | 0, c :: rest => if c == '%' then .error "bad escape in a tag"
    else do return c :: (← tagEscapes 0 rest)
  | _, _ => .error "unfinished character in a tag"

/-- The rest of a tag. -/
def tagText (verbatim : Bool) : Scan (List Char) := do
  let cs ← takeWhile (isTagChar verbatim)
  match tagEscapes 0 cs with
  | .ok cs => return cs
  | .error e => throw e

/-- A handle with its marks: `!`, `!!` or `!name!`; what looks like one may be the start of a
tag. -/
def tagHandle : Scan (List Char) := do
  if !(← isNext '!') then throw "expected an exclamation mark"
  skip
  let name ← takeWhile isWordChar
  if ← isNext '!' then
    skip
    return '!' :: name ++ ['!']
  else return '!' :: name

/-- A tag as handle and suffix. An empty handle means that the suffix is the whole tag. -/
def tag (inFlow : Bool) : Scan (String × String) := do
  let (handle, suffix) ←
    if ← isAt '<' 1 then do
      skip
      skip
      let suffix ← tagText true
      if suffix.isEmpty then throw "expected a tag"
      if !(← isNext '>') then throw "expected a closing bracket"
      skip
      pure ([], suffix)
    else do
      let handle ← tagHandle
      let suffix ← tagText false
      if 1 < handle.length && handle.getLast? == some '!' then
        if suffix.isEmpty then throw "expected a tag"
        pure (handle, suffix)
      else
        let whole := handle.tail ++ suffix
        if whole.isEmpty then pure ([], ['!']) else pure (['!'], whole)
  if !(inFlow && (← isNext ',')) && !(← blankAt 0) then throw "expected a blank after a tag"
  return (String.ofList handle, String.ofList suffix)

end StyleAudit.Yaml
