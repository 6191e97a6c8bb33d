import StyleAudit.Toml.Scalar

/-! # TOML documents

A reader takes characters from the front of a text. Values nest, so it has a fuel argument, which is
never less than the number of characters left. -/

namespace StyleAudit.Toml
set_option autoImplicit false

/-- A step of reading: it takes characters from the front or refuses the text. -/
abbrev Read := StateT (List Char) (Except String)

def isSpace (c : Char) : Bool := c == ' ' || c == '\t'

/-- Control characters have no place in a document, except as blanks and line ends. -/
def isControl (c : Char) : Bool := (c.toNat < 0x20 && c != '\t') || c.toNat == 0x7F

def skipSpaces : Read Unit := modify (·.dropWhile isSpace)

/-- Take a text if it is next. -/
def accept (text : String) : Read Bool := do
  let cs ← get
  if text.toList.isPrefixOf cs then
    set (cs.drop text.length)
    return true
  else return false

def expect (text : String) : Read Unit := do
  if !(← accept text) then throw ("expected " ++ text)

def acceptNewline : Read Bool := do
  if ← accept "\n" then return true else accept "\r\n"

/-- Take a comment, if there is one. -/
def skipComment : Read Unit := do
  let cs ← get
  match cs with
  | '#' :: rest =>
    let body := rest.takeWhile fun c => c != '\n' && c != '\r'
    if body.any isControl then throw "control character in a comment"
    set (rest.drop body.length)
  | _ => pure ()

/-- Blanks and a comment up to the end of the line or of the text. -/
def endLine : Read Unit := do
  skipSpaces
  skipComment
  if (← get).isEmpty then return ()
  if !(← acceptNewline) then throw "expected the end of the line"

/-- Blanks, comments and line ends. Each round takes at least one character. -/
def skipLines : Nat → Read Unit
  | 0 => pure ()
  | fuel + 1 => do
    skipSpaces
    skipComment
    if ← acceptNewline then skipLines fuel

/-- A character by its number, which must not be a surrogate or too large. -/
def numbered (size : Nat) : Read Char := do
  let cs ← get
  let ds := cs.take size
  if ds.length != size || !ds.all isHex then throw "bad escape"
  let n := Text.valueIn 16 ds
  if (0xD800 ≤ n && n ≤ 0xDFFF) || 0x10FFFF < n then throw "bad character number"
  set (cs.drop size)
  return Char.ofNat n

/-- The character of an escape, after its backslash. -/
def escape : Read Char := do
  match ← get with
  | [] => throw "unterminated string"
  | c :: rest =>
    set rest
    match c with
    | 'b' => return '\x08'
    | 't' => return '\t'
    | 'n' => return '\n'
    | 'f' => return '\x0c'
    | 'r' => return '\r'
    | 'e' => return '\x1b'
    | '"' => return '"'
    | '\\' => return '\\'
    | 'x' => numbered 2
    | 'u' => numbered 4
    | 'U' => numbered 8
    | _ => throw "bad escape"

/-- The rest of a basic string on one line. -/
def basic : Nat → List Char → Read String
  | 0, _ => throw "unterminated string"
  | fuel + 1, done => do
    match ← get with
    | [] => throw "unterminated string"
    | '"' :: rest =>
      set rest
      return String.ofList done.reverse
    | '\\' :: rest =>
      set rest
      basic fuel ((← escape) :: done)
    | c :: rest =>
      if isControl c then throw "control character in a string"
      set rest
      basic fuel (c :: done)

/-- The rest of a literal string on one line. -/
def literal : Read String := do
  let cs ← get
  let body := cs.takeWhile (· != '\x27')
  if body.any isControl then throw "control character in a string"
  match cs.drop body.length with
  | _ :: rest =>
    set rest
    return String.ofList body
  | [] => throw "unterminated string"

/-- A backslash at the end of a line takes all blanks and line ends after it; `none` if there is no
line end. -/
def foldedLine (cs : List Char) : Option (List Char) :=
  match cs.dropWhile isSpace with
  | '\n' :: rest => some (rest.dropWhile fun c => isSpace c || c == '\n' || c == '\r')
  | '\r' :: '\n' :: rest => some (rest.dropWhile fun c => isSpace c || c == '\n' || c == '\r')
  | _ => none

/-- The rest of a string over several lines. Up to two quotes may stand right before the closing
three. -/
def multiline (quote : Char) (escapes : Bool) : Nat → List Char → Read String
  | 0, _ => throw "unterminated string"
  | fuel + 1, done => do
    match ← get with
    | [] => throw "unterminated string"
    | c :: rest =>
      if c == quote && rest.take 2 == [quote, quote] then
        let extra := ((rest.drop 2).take 2).takeWhile (· == quote)
        set (rest.drop (2 + extra.length))
        return String.ofList (extra ++ done).reverse
      else if c == '\\' && escapes then
        match foldedLine rest with
        | some rest =>
          set rest
          multiline quote escapes fuel done
        | none =>
          set rest
          multiline quote escapes fuel ((← escape) :: done)
      else if c == '\r' then
        match rest with
        | '\n' :: rest =>
          set rest
          multiline quote escapes fuel ('\n' :: '\r' :: done)
        | _ => throw "carriage return in a string"
      else if c != '\n' && isControl c then throw "control character in a string"
      else
        set rest
        multiline quote escapes fuel (c :: done)

def isBareKeyChar (c : Char) : Bool := c.isAlphanum || c == '_' || c == '-'

/-- One part of a key. -/
def keyPart : Read String := do
  let cs ← get
  match cs with
  | '"' :: rest =>
    set rest
    basic cs.length []
  | '\x27' :: rest =>
    set rest
    literal
  | _ =>
    let name := cs.takeWhile isBareKeyChar
    if name.isEmpty then throw "expected a key"
    set (cs.drop name.length)
    return String.ofList name

/-- The parts of a key after its first, in front of which `done` stands in reverse. -/
def keyParts : Nat → List String → Read (List String)
  | 0, _ => throw "expected a key"
  | fuel + 1, done => do
    skipSpaces
    if ← accept "." then
      skipSpaces
      keyParts fuel ((← keyPart) :: done)
    else return done.reverse

/-- A key with its dots. -/
def key : Read (List String) := do
  skipSpaces
  let first ← keyPart
  keyParts ((← get).length + 1) [first]

/-- The last part of a key and the parts before it. -/
def splitKey (parts : List String) : List String × String :=
  (parts.dropLast, parts.getLast?.getD "")

def isScalarChar (c : Char) : Bool := !" \t\r\n,[]\x7b\x7d#=\"\x27".toList.contains c

/-- An unquoted value. A date and a time may have a space between them. -/
def unquoted : Read Value := do
  let cs ← get
  let word := cs.takeWhile isScalarChar
  let rest := cs.drop word.length
  let time := match rest with
    | ' ' :: more => ' ' :: more.takeWhile isScalarChar
    | _ => []
  let startsTime := (time.tail.head?.map Char.isDigit).getD false
  if dropDate word == some [] && startsTime then
    match scalar? (word ++ time) with
    | some v =>
      set (rest.drop time.length)
      return v
    | none => throw "bad date"
  else match scalar? word with
    | some v =>
      set rest
      return v
    | none => throw "bad value"

/-- Bound on the nesting of values. -/
def maxDepth : Nat := 80

mutual

def value : Nat → Nat → Read Value
  | 0, _ => throw "expected a value"
  | fuel + 1, depth => do
    let size := (← get).length
    if maxDepth < depth then throw "nested too deeply"
    if ← accept "\"\"\"" then
      let _ ← acceptNewline
      return .string (← multiline '"' true (size + 1) [])
    else if ← accept "\x27\x27\x27" then
      let _ ← acceptNewline
      return .string (← multiline '\x27' false (size + 1) [])
    else if ← accept "\"" then return .string (← basic size [])
    else if ← accept "\x27" then return .string (← literal)
    else if ← accept "[" then return .array false (← arrayItems fuel (depth + 1) [])
    else if ← accept "\x7b" then return .table .inline (← inlineEntries fuel (depth + 1) [])
    else unquoted

/-- The items of an array up to its closing bracket. -/
def arrayItems : Nat → Nat → List Value → Read (List Value)
  | 0, _, _ => throw "unterminated array"
  | fuel + 1, depth, done => do
    skipLines ((← get).length + 1)
    if ← accept "]" then return done.reverse
    let v ← value fuel depth
    skipLines ((← get).length + 1)
    if ← accept "," then arrayItems fuel depth (v :: done)
    else
      expect "]"
      return (v :: done).reverse

/-- The entries of an inline table up to its closing brace. -/
def inlineEntries : Nat → Nat → Entries → Read Entries
  | 0, _, _ => throw "unterminated table"
  | fuel + 1, depth, done => do
    skipLines ((← get).length + 1)
    if ← accept "\x7d" then return done
    let (path, name) := splitKey (← key)
    skipSpaces
    expect "="
    skipSpaces
    let v ← value fuel depth
    let done ← match descend true (enter (!path.isEmpty) name v) path .header done with
      | .ok (_, entries) => pure entries
      | .error e => throw e
    skipLines ((← get).length + 1)
    if ← accept "," then inlineEntries fuel depth done
    else
      expect "\x7d"
      return done

end

/-- A document read so far: its entries and the header of the current table. -/
structure Draft where
  entries : Entries := []
  header : List String := []

def Draft.change (d : Draft) (change : Change) : Except String Draft :=
  (change .header d.entries).map fun (_, entries) => { d with entries }

/-- A header line, after its first bracket. -/
def headerLine (d : Draft) : Read Draft := do
  let isArray ← accept "["
  let path ← key
  skipSpaces
  expect "]"
  if isArray then expect "]"
  endLine
  let (above, name) := splitKey path
  let opened := if isArray then openArrayItem name else openTable name
  match d.change (descend false opened above) with
  | .ok d => return { d with header := path }
  | .error e => throw e

/-- A line with a key and its value. -/
def entryLine (d : Draft) : Read Draft := do
  let (path, name) := splitKey (← key)
  skipSpaces
  expect "="
  skipSpaces
  let v ← value ((← get).length + 1) 1
  endLine
  match d.change (within (descend true (enter (!path.isEmpty) name v) path) d.header) with
  | .ok d => return d
  | .error e => throw e

/-- The lines of a document. Each round takes at least one character. -/
def documentLines : Nat → Draft → Read Draft
  | 0, _ => throw "unreadable document"
  | fuel + 1, d => do
    skipLines ((← get).length + 1)
    if (← get).isEmpty then return d
    if ← accept "[" then documentLines fuel (← headerLine d)
    else documentLines fuel (← entryLine d)

/-- The entries of a document. A byte order mark in front is passed over. -/
def parse (text : String) : Except String Entries :=
  let cs := text.toList
  let cs := if cs.head? == some '\uFEFF' then cs.tail else cs
  match (documentLines (cs.length + 1) {}).run cs with
  | .ok (d, _) => .ok d.entries
  | .error e => .error e

end StyleAudit.Toml
