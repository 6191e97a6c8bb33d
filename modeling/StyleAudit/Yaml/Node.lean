import StyleAudit.Yaml.Token

/-! # Nodes of a YAML document

A stream holds at most one document. An anchor gets the number of distinct names before it, and an
alias the number that its name has at that place. A name that is anchored twice can share its second
number with the next new name; then the last node with the number is meant. -/

namespace StyleAudit.Yaml
set_option autoImplicit false

inductive Node where
  | scalar (tag : Option String) (plain : Bool) (text : String)
  | sequence (items : List Node)
  | mapping (entries : List (Node × Node))
  /-- Another place of an anchored node. -/
  | alias (number : Nat)

/-- What stands where a node is left out. -/
def Node.empty : Node := .scalar none true ""

/-- The state of a reading of tokens. -/
structure Reader where
  tokens : List Token
  /-- Tag handles with their meaning; the first entry of a handle counts. -/
  handles : List (String × String)
  /-- The numbers of the anchored names. -/
  names : List (String × Nat) := []
  /-- The number of each anchored node in order of start, last one first. -/
  numbers : List Nat := []
  /-- Anchored nodes that are complete, with their place in the order of start. -/
  finished : List (Nat × Node) := []

abbrev Read := StateT Reader (Except String)

/-- The next token is a given one. -/
def isToken (token : Token) : Read Bool := do return (← get).tokens.head? == some token

/-- The next token is one of some. -/
def isTokenIn (tokens : List Token) : Read Bool := do
  return ((← get).tokens.head?.map tokens.contains).getD false

def drop : Read Unit := modify fun r => { r with tokens := r.tokens.tail }

/-- Pass over a token if it is the next one. -/
def accept (token : Token) : Read Bool := do
  if ← isToken token then
    drop
    return true
  else return false

def expect (token : Token) : Read Unit := do
  if !(← accept token) then throw "unexpected token"

def anchor? : Read (Option String) := do
  match (← get).tokens with
  | .anchor name :: rest =>
    modify fun r => { r with tokens := rest }
    return some name
  | _ => return none

/-- A tag with the meaning of its handle. -/
def tag? : Read (Option String) := do
  match (← get).tokens with
  | .tag handle suffix :: rest =>
    modify fun r => { r with tokens := rest }
    if handle.isEmpty then return some suffix
    match (← get).handles.lookup handle with
    | some meaning => return some (meaning ++ suffix)
    | none => throw "unknown tag handle"
  | _ => return none

/-- The anchor and the tag of a node, in either order. -/
def properties : Read (Option String × Option String) := do
  match ← anchor? with
  | some a => return (some a, ← tag?)
  | none =>
    match ← tag? with
    | some t => return (← anchor?, some t)
    | none => return (none, none)

/-- Register the anchor of a node that starts; the result is the place of the node. -/
def startAnchor (name : String) : Read Nat := do
  let r ← get
  let number := r.names.length
  set { r with names := (name, number) :: r.names.filter (fun n => n.1 != name)
               numbers := number :: r.numbers }
  return r.numbers.length

/-- Keep a complete node for its aliases. -/
def finishAnchor (place : Option Nat) (node : Node) : Read Node := do
  match place with
  | some place =>
    modify fun r => { r with finished := (place, node) :: r.finished }
    return node
  | none => return node

/-- The node that an alias means. -/
def Reader.target (r : Reader) (number : Nat) : Option Node :=
  r.finished.lookup (r.numbers.length - 1 - r.numbers.idxOf number)

/-- Where the next token is a node is read. Block collections are allowed outside flow collections,
and as a part of a mapping a sequence may stand without an indentation of its own. -/
structure Setting where
  inBlock : Bool
  inMapping : Bool

namespace Setting

def flow : Setting := ⟨false, false⟩
def block : Setting := ⟨true, false⟩
def part : Setting := ⟨true, true⟩

end Setting

mutual

def node (setting : Setting) : Nat → Read Node
  | 0 => throw "nesting too deep"
  | fuel + 1 => do
    match (← get).tokens with
    | .alias name :: rest =>
      modify fun r => { r with tokens := rest }
      match (← get).names.lookup name with
      | some number => return .alias number
      | none => throw "unknown alias"
    | _ =>
      let (anchor, tag) ← properties
      let place ← anchor.mapM startAnchor
      let found ← content setting (anchor.isSome || tag.isSome) tag fuel
      finishAnchor place found

/-- A node after its properties. With a property it may be empty. -/
def content (setting : Setting) (hasProperty : Bool) (tag : Option String) : Nat → Read Node
  | 0 => throw "nesting too deep"
  | fuel + 1 => do
    match (← get).tokens with
    | .scalar isPlain text :: rest =>
      modify fun r => { r with tokens := rest }
      return .scalar (if tag == some "!" then none else tag) isPlain text
    | .flowSequence :: rest =>
      modify fun r => { r with tokens := rest }
      return .sequence (← flowItems true fuel)
    | .flowMapping :: rest =>
      modify fun r => { r with tokens := rest }
      return .mapping (← flowEntries true fuel)
    | next :: rest =>
      if setting.inMapping && next = .entry then return .sequence (← looseItems fuel)
      else if setting.inBlock && next = .blockSequence then
        modify fun r => { r with tokens := rest }
        return .sequence (← blockItems fuel)
      else if setting.inBlock && next = .blockMapping then
        modify fun r => { r with tokens := rest }
        return .mapping (← blockEntries fuel)
      else if hasProperty then return .scalar tag true ""
      else throw "expected a node"
    | [] => if hasProperty then return .scalar tag true "" else throw "expected a node"

/-- A node, or an empty one before some tokens. -/
def nodeUnless (setting : Setting) (ends : List Token) : Nat → Read Node
  | 0 => throw "nesting too deep"
  | fuel + 1 => do
    if ← isTokenIn ends then return .empty else node setting fuel

/-- The items of a block sequence up to its end. -/
def blockItems : Nat → Read (List Node)
  | 0 => throw "nesting too deep"
  | fuel + 1 => do
    if ← accept .entry then
      let item ← nodeUnless .block [.entry, .blockEnd] fuel
      return item :: (← blockItems fuel)
    else
      expect .blockEnd
      return []

/-- The items of a sequence without an indentation of its own. -/
def looseItems : Nat → Read (List Node)
  | 0 => throw "nesting too deep"
  | fuel + 1 => do
    if ← accept .entry then
      let item ← nodeUnless .block [.entry, .key, .value, .blockEnd] fuel
      return item :: (← looseItems fuel)
    else return []

/-- The entries of a block mapping up to its end. -/
def blockEntries : Nat → Read (List (Node × Node))
  | 0 => throw "nesting too deep"
  | fuel + 1 => do
    if ← accept .key then
      let ends : List Token := [.key, .value, .blockEnd]
      let key ← nodeUnless .part ends fuel
      let value ← if ← accept .value then nodeUnless .part ends fuel else pure .empty
      return (key, value) :: (← blockEntries fuel)
    else
      expect .blockEnd
      return []

/-- The items of a flow sequence up to its bracket. A key starts a mapping of one entry. -/
def flowItems (first : Bool) : Nat → Read (List Node)
  | 0 => throw "nesting too deep"
  | fuel + 1 => do
    if ← accept .flowSequenceEnd then return []
    if !first then expect .comma
    if ← accept .flowSequenceEnd then return []
    let item ← if ← accept .key then flowPair fuel else node .flow fuel
    return item :: (← flowItems false fuel)

/-- A mapping of one entry inside a flow sequence, after its key token. The token after an empty key
is passed over. -/
def flowPair : Nat → Read Node
  | 0 => throw "nesting too deep"
  | fuel + 1 => do
    let ends : List Token := [.comma, .flowSequenceEnd]
    let key ←
      if ← isTokenIn (.value :: ends) then do
        drop
        pure .empty
      else node .flow fuel
    let value ← if ← accept .value then nodeUnless .flow ends fuel else pure .empty
    return .mapping [(key, value)]

/-- The entries of a flow mapping up to its brace. -/
def flowEntries (first : Bool) : Nat → Read (List (Node × Node))
  | 0 => throw "nesting too deep"
  | fuel + 1 => do
    if ← accept .flowMappingEnd then return []
    if !first then expect .comma
    if ← accept .flowMappingEnd then return []
    let ends : List Token := [.comma, .flowMappingEnd]
    if ← accept .key then
      let key ← nodeUnless .flow (.value :: ends) fuel
      let value ← if ← accept .value then nodeUnless .flow ends fuel else pure .empty
      return (key, value) :: (← flowEntries false fuel)
    else
      let key ← node .flow fuel
      return (key, .empty) :: (← flowEntries false fuel)

end

/-- The directives before a document; each at most once, and the version 1.1 or 1.2. -/
def directives : Bool → List (String × String) → List Token →
    Except String (List (String × String) × List Token)
  | versioned, handles, .version major minor :: rest =>
    if versioned then .error "version given twice"
    else if major == 1 && (minor == 1 || minor == 2) then directives true handles rest
    else .error "unknown version"
  | versioned, handles, .handle name meaning :: rest =>
    if (handles.lookup name).isSome then .error "handle declared twice"
    else directives versioned ((name, meaning) :: handles) rest
  | _, handles, rest => .ok (handles, rest)

/-- Handles that need no declaration. -/
def defaultHandles : List (String × String) := [("!", "!"), ("!!", "tag:yaml.org,2002:")]

/-- The content of a document that starts with a mark. -/
def markedContent (fuel : Nat) : Read Node := do
  match (← get).tokens with
  | [] | .documentEnd :: _ | .documentStart :: _ | .version _ _ :: _ | .handle _ _ :: _ =>
    return .empty
  | _ => node .block fuel

/-- A document: its root, and what its aliases mean. -/
structure Document where
  root : Node
  target : Nat → Option Node

/-- The content of a document. Directives need a mark after them. -/
def documentContent (hasDirectives : Bool) (fuel : Nat) : Read Node := do
  if ← accept .documentStart then markedContent fuel
  else if hasDirectives then throw "expected the start of a document"
  else node .block fuel

/-- The document of a text, or nothing if there is none. -/
def document (text : String) : Except String (Option Document) := do
  let all ← tokens text
  if all.isEmpty then return none
  let (handles, rest) ← directives false [] all
  let content := documentContent (rest.length < all.length) (4 * all.length + 8)
  let (root, r) ← content.run { tokens := rest, handles := handles ++ defaultHandles }
  if r.tokens.all (· = .documentEnd) then return some { root, target := r.target }
  else throw "expected the end of the text"

end StyleAudit.Yaml
