import StyleAudit.Yaml.Scalar

/-! # Tokens of a YAML text

Indentation becomes start and end tokens of block collections. A node that may be the key of a
mapping is remembered with its place; when its colon comes, the key token goes in front of it, and
in front of that the start of the mapping, if its column is a new indentation. A key must end on its
line and within 1024 characters. -/

namespace StyleAudit.Yaml
set_option autoImplicit false

inductive Token where
  /-- A version directive. -/
  | version (major minor : Nat)
  /-- A directive that declares the meaning of a tag handle. -/
  | handle (name meaning : String)
  | documentStart
  | documentEnd
  | blockSequence
  | blockMapping
  | blockEnd
  | flowSequence
  | flowSequenceEnd
  | flowMapping
  | flowMappingEnd
  /-- The hyphen of a sequence. -/
  | entry
  /-- The comma of a flow collection. -/
  | comma
  | key
  | value
  | alias (name : String)
  | anchor (name : String)
  | tag (handle suffix : String)
  | scalar (plain : Bool) (text : String)
  deriving Repr, DecidableEq

/-- A node that a colon would make a key. -/
structure Candidate where
  /-- How many tokens precede the node. -/
  place : Nat
  /-- The node stands where only a key can stand. -/
  required : Bool
  line : Nat
  index : Nat
  column : Nat

/-- The state of the tokenizer. -/
structure Tokenizer where
  cursor : Cursor
  /-- The columns of the open block collections, innermost first. -/
  indents : List Nat := []
  /-- A key may start here. -/
  keyAllowed : Bool := true
  candidate : Option Candidate := none
  /-- The candidates around the open flow collections, innermost first. -/
  outer : List (Option Candidate) := []
  /-- The tokens so far, last one first. -/
  tokens : List Token := []

abbrev Tokenize := StateT Tokenizer (Except String)

/-- Read with the cursor of the tokenizer. -/
def scan {α : Type} (read : Scan α) : Tokenize α := do
  let t ← get
  match read t.cursor with
  | .ok (a, cursor) =>
    set { t with cursor }
    return a
  | .error e => throw e

def inFlow : Tokenize Bool := do return !(← get).outer.isEmpty

def emit (token : Token) : Tokenize Unit := modify fun t => { t with tokens := token :: t.tokens }

/-- Put a token behind the first `place` ones. -/
def emitAt (place : Nat) (token : Token) : Tokenize Unit :=
  modify fun t =>
    let later := t.tokens.length - place
    { t with tokens := t.tokens.take later ++ token :: t.tokens.drop later }

def allowKey (allowed : Bool) : Tokenize Unit := modify fun t => { t with keyAllowed := allowed }

/-- Close the block collections that are indented deeper than a column, or all of them. -/
def closeBlocks (column : Option Nat) : Tokenize Unit := do
  if ← inFlow then return
  modify fun t =>
    let deeper := t.indents.takeWhile fun i => (column.map fun c => decide (c < i)).getD true
    { t with indents := t.indents.drop deeper.length
             tokens := List.replicate deeper.length .blockEnd ++ t.tokens }

/-- Open a block collection if its column is deeper than those around it. -/
def openBlock (column place : Nat) (token : Token) : Tokenize Unit := do
  if ← inFlow then return
  let t ← get
  if (t.indents.head?.map fun i => decide (i < column)).getD true then
    set { t with indents := column :: t.indents }
    emitAt place token

/-- The candidate, if there is one, turns out to be no key. -/
def dropCandidate : Tokenize Unit := do
  let t ← get
  if (t.candidate.map Candidate.required).getD false then throw "expected a colon"
  set { t with candidate := none }

/-- The node that starts here may be a key. -/
def addCandidate : Tokenize Unit := do
  let t ← get
  if t.keyAllowed then
    dropCandidate
    let c := t.cursor
    let candidate : Candidate :=
      { place := t.tokens.length, required := t.outer.isEmpty && t.indents.head? == some c.column
        line := c.line, index := c.index, column := c.column }
    modify fun t => { t with candidate := some candidate }

/-- Whether a candidate is too far behind to be a key. -/
def Candidate.isStale (k : Candidate) (c : Cursor) : Bool :=
  k.line < c.line || k.index + 1024 < c.index

/-- Drop a candidate that is too far behind. -/
def freshen (c : Cursor) : Option Candidate → Except String (Option Candidate)
  | none => .ok none
  | some k =>
    if k.isStale c then (if k.required then .error "expected a colon" else .ok none)
    else .ok (some k)

def freshenAll : Tokenize Unit := do
  let t ← get
  match (do return (← freshen t.cursor t.candidate, ← t.outer.mapM (freshen t.cursor))) with
  | .ok (candidate, outer) => set { t with candidate, outer }
  | .error e => throw e

/-- Pass over blanks, comments and line breaks. After a break a key may start, and tabs are not
passed over where one may. -/
def skipToToken : Nat → Tokenize Unit
  | 0 => return
  | fuel + 1 => do
    let t ← get
    let tabs := !t.outer.isEmpty || !t.keyAllowed
    scan do
      if (← get).column == 0 && (← isNext '\ufeff') then skip
      let _ ← takeWhile fun c => c == ' ' || (tabs && c == '\t')
      skipComment
    if ← scan (nextIs isBreak) then
      let _ ← scan takeBreak
      if t.outer.isEmpty then allowKey true
      skipToToken fuel

/-- A part of a version number: at most nine digits. -/
def versionNumber : Scan Nat := do
  let digits ← takeWhile Char.isDigit
  if digits.isEmpty || 9 < digits.length then throw "bad version number"
  return Text.valueIn 10 digits

/-- A directive with its line. -/
def directive : Scan Token := do
  skip
  let name ← takeWhile isWordChar
  if name.isEmpty || !(← blankAt 0) then throw "bad directive name"
  let token ←
    match String.ofList name with
    | "YAML" => do
      skipBlanks
      let major ← versionNumber
      if !(← isNext '.') then throw "expected a point"
      skip
      pure (Token.version major (← versionNumber))
    | "TAG" => do
      skipBlanks
      let handle ← tagHandle
      if 1 < handle.length && handle.getLast? != some '!' then throw "bad tag handle"
      if !(← nextIs isBlank) then throw "expected a blank"
      skipBlanks
      let meaning ← tagText true
      if meaning.isEmpty then throw "expected the meaning of a handle"
      if !(← blankAt 0) then throw "expected a blank"
      pure (Token.handle (String.ofList handle) (String.ofList meaning))
    | _ => throw "unknown directive"
  skipLineRest
  return token

/-- Leave all collections before a directive, a document mark or the end. -/
def leaveDocument : Tokenize Unit := do
  closeBlocks none
  dropCandidate
  allowKey false

def documentMark (token : Token) : Tokenize Unit := do
  leaveDocument
  scan (do skip; skip; skip)
  emit token

def flowStart (token : Token) : Tokenize Unit := do
  addCandidate
  modify fun t => { t with outer := t.candidate :: t.outer, candidate := none }
  allowKey true
  scan skip
  emit token

def flowEnd (token : Token) : Tokenize Unit := do
  dropCandidate
  modify fun t =>
    match t.outer with
    | around :: outer => { t with candidate := around, outer }
    | [] => t
  allowKey false
  scan skip
  emit token

def flowComma : Tokenize Unit := do
  dropCandidate
  allowKey true
  scan skip
  emit .comma

/-- Open a block collection at an indicator, which must stand where a key may start. -/
def openAtIndicator (token : Token) : Tokenize Unit := do
  if ← inFlow then return
  let t ← get
  if !t.keyAllowed then throw "indicator in the wrong place"
  openBlock t.cursor.column t.tokens.length token

def blockEntry : Tokenize Unit := do
  openAtIndicator .blockSequence
  dropCandidate
  allowKey true
  scan skip
  emit .entry

def explicitKey : Tokenize Unit := do
  openAtIndicator .blockMapping
  dropCandidate
  allowKey (!(← inFlow))
  scan skip
  emit .key

/-- A colon makes the candidate a key. -/
def mappingValue : Tokenize Unit := do
  match (← get).candidate with
  | some k =>
    emitAt k.place .key
    openBlock k.column k.place .blockMapping
    modify fun t => { t with candidate := none }
    allowKey false
  | none =>
    openAtIndicator .blockMapping
    allowKey (!(← inFlow))
  scan skip
  emit .value

/-- Emit what is read as a node, or a property of one, that may be a key. -/
def nodeToken (read : Scan Token) : Tokenize Unit := do
  addCandidate
  allowKey false
  emit (← scan read)

def blockScalar (folded : Bool) : Tokenize Unit := do
  dropCandidate
  allowKey true
  let parent := (← get).indents.head?
  emit (.scalar false (← scan (block folded parent)))

def plainScalar : Tokenize Unit := do
  addCandidate
  allowKey false
  let indent := ((← get).indents.head?.map (· + 1)).getD 0
  let flow ← inFlow
  let (text, broken) ← scan (plain flow indent)
  if broken then allowKey true
  emit (.scalar true text)

/-- Characters that start something other than a plain scalar. -/
def isIndicator (c : Char) : Bool := "-?:,[]\x7b\x7d#&*!|>\x27\"%@\x60".toList.contains c

/-- A plain scalar can start with a character; the next one decides for some. -/
def startsPlain (flow : Bool) (c : Char) (next : Option Char) : Bool :=
  let beforeBlank := (next.map fun d => isBlank d || isBreak d).getD true
  !(isBlank c || isBreak c || isIndicator c) ||
    (c == '-' && !(next.map isBlank).getD false) ||
    (!flow && (c == '?' || c == ':') && !beforeBlank)

/-- Emit the token that starts with a character of the line. -/
def tokenFrom (c : Char) : Tokenize Unit := do
  let flow ← inFlow
  let spaced := flow || (← scan (blankAt 1))
  match c with
  | '[' => flowStart .flowSequence
  | '\x7b' => flowStart .flowMapping
  | ']' => flowEnd .flowSequenceEnd
  | '\x7d' => flowEnd .flowMappingEnd
  | ',' => flowComma
  | '*' => nodeToken (do return .alias (← anchorName))
  | '&' => nodeToken (do return .anchor (← anchorName))
  | '!' => nodeToken (do let (handle, suffix) ← tag flow; return .tag handle suffix)
  | '\x27' => nodeToken (do return .scalar false (← quoted true))
  | '"' => nodeToken (do return .scalar false (← quoted false))
  | _ =>
    if c == '-' && (← scan (blankAt 1)) then blockEntry
    else if c == '?' && spaced then explicitKey
    else if c == ':' && spaced then mappingValue
    else if c == '|' && !flow then blockScalar false
    else if c == '>' && !flow then blockScalar true
    else if startsPlain flow c (← scan (peekAt 1)) then plainScalar
    else throw "no token starts here"

/-- Emit the tokens of the rest of the text. -/
def tokenizeRest : Nat → Tokenize Unit
  | 0 => throw "text too long"
  | fuel + 1 => do
    skipToToken ((← scan charsLeft) + 1)
    freshenAll
    closeBlocks (some (← get).cursor.column)
    match ← scan peek with
    | none => leaveDocument
    | some c =>
      if c == '%' && (← get).cursor.column == 0 then
        leaveDocument
        emit (← scan directive)
      else if ← scan (atMark '-') then documentMark .documentStart
      else if ← scan (atMark '.') then documentMark .documentEnd
      else tokenFrom c
      tokenizeRest fuel

/-- The tokens of a text, in order. -/
def tokens (text : String) : Except String (List Token) := do
  let chars := text.toList
  if !chars.all isAllowed then throw "character that is not allowed"
  let chars := if chars.head? == some '\ufeff' then chars.tail else chars
  let (_, t) ← (tokenizeRest (chars.length + 1)).run { cursor := { rest := chars } }
  return t.tokens.reverse

end StyleAudit.Yaml
