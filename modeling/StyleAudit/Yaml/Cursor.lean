import StyleAudit.Text.Digits

/-! # Reading position in a YAML text

A cursor holds the characters that are left, with their index, line and column. Scanners are steps
on a cursor that may refuse the text. -/

namespace StyleAudit.Yaml
set_option autoImplicit false

structure Cursor where
  rest : List Char
  index : Nat := 0
  line : Nat := 0
  column : Nat := 0

abbrev Scan := StateT Cursor (Except String)

def isBreak (c : Char) : Bool :=
  c == '\r' || c == '\n' || c == '\x85' || c == '\u2028' || c == '\u2029'

def isBlank (c : Char) : Bool := c == ' ' || c == '\t'

/-- Letters of names: ASCII letters, digits, underscore and hyphen. -/
def isWordChar (c : Char) : Bool := c.isAlphanum || c == '_' || c == '-'

/-- Characters that a text may contain. -/
def isAllowed (c : Char) : Bool :=
  let n := c.toNat
  n == 0x9 || n == 0xA || n == 0xD || (0x20 ≤ n && n ≤ 0x7E) || n == 0x85 ||
    (0xA0 ≤ n && n ≤ 0xD7FF) || (0xE000 ≤ n && n ≤ 0xFFFD) || 0x10000 ≤ n

/-- The character `n` places ahead, if there is one. -/
def peekAt (n : Nat) : Scan (Option Char) := do return (← get).rest[n]?

def peek : Scan (Option Char) := peekAt 0

/-- Whether the character `n` places ahead is a given one. -/
def isAt (c : Char) (n : Nat) : Scan Bool := do return (← peekAt n) == some c

def isNext (c : Char) : Scan Bool := isAt c 0

/-- A blank, a line break or the end of the text is `n` places ahead. -/
def blankAt (n : Nat) : Scan Bool := do
  match ← peekAt n with
  | some c => return isBlank c || isBreak c
  | none => return true

/-- The next character satisfies a test. -/
def nextIs (test : Char → Bool) : Scan Bool := do return ((← peek).map test).getD false

/-- The line or the text ends here. -/
def atLineEnd : Scan Bool := do return ((← peek).map isBreak).getD true

def skip : Scan Unit :=
  modify fun c =>
    { c with rest := c.rest.tail, index := c.index + 1, column := c.column + 1 }

/-- Pass over a line break and give the text that stands for it; nothing at any other place. -/
def takeBreak : Scan (List Char) := do
  let c ← get
  let go := fun (n : Nat) (rest : List Char) =>
    set { c with rest, index := c.index + n, line := c.line + 1, column := 0 }
  match c.rest with
  | '\r' :: '\n' :: rest =>
    go 2 rest
    return ['\n']
  | b :: rest =>
    if b == '\r' || b == '\n' || b == '\x85' then
      go 1 rest
      return ['\n']
    else if isBreak b then
      go 1 rest
      return [b]
    else return []
  | [] => return []

/-- Pass over characters that satisfy a test and give them. -/
def takeWhile (test : Char → Bool) : Scan (List Char) := do
  let c ← get
  let run := c.rest.takeWhile test
  set { c with rest := c.rest.drop run.length, index := c.index + run.length,
               column := c.column + run.length }
  return run

def skipBlanks : Scan Unit := do let _ ← takeWhile isBlank

/-- Pass over a comment, if one starts here. -/
def skipComment : Scan Unit := do
  if ← isNext '#' then
    let _ ← takeWhile fun c => !isBreak c

/-- Blanks and a comment up to a line break, which is passed over. -/
def skipLineRest : Scan Unit := do
  skipBlanks
  skipComment
  if !(← atLineEnd) then throw "expected a comment or a line break"
  let _ ← takeBreak

/-- A document mark, three equal characters and a blank, starts the line. -/
def atMark (c : Char) : Scan Bool := do
  return (← get).column == 0 && (← isAt c 0) && (← isAt c 1) && (← isAt c 2) && (← blankAt 3)

def atAnyMark : Scan Bool := do
  if ← atMark '-' then return true else atMark '.'

end StyleAudit.Yaml
