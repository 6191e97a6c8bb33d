import StyleAudit.Settings
import StyleAudit.Yaml.Node

/-! # Settings in YAML

A string is the text of any scalar. An optional value is missing if it is an empty or null plain
scalar. Keys that are not known are passed over, and a known key may stand once. -/

namespace StyleAudit.Yaml
set_option autoImplicit false

/-- Plain scalars that mean no value. -/
def nulls : List String := ["~", "null", "Null", "NULL"]

namespace Document

/-- The node itself in place of an alias. -/
def follow (d : Document) : Node → Except String Node
  | .alias number =>
    match d.target number with
    | some n => .ok n
    | none => .error "unknown alias"
  | n => .ok n

def string (d : Document) (n : Node) : Except String String := do
  match ← d.follow n with
  | .scalar _ _ text => return text
  | _ => throw "expected a string"

/-- The items of a sequence; an empty plain scalar has none. -/
def strings (d : Document) (n : Node) : Except String (List String) := do
  match ← d.follow n with
  | .sequence items => items.mapM d.string
  | .scalar _ true "" => return []
  | _ => throw "expected a sequence"

/-- The entries of a mapping with their keys as text; an empty plain scalar has none. -/
def entries (d : Document) (n : Node) : Except String (List (String × Node)) := do
  match ← d.follow n with
  | .mapping entries => entries.mapM fun e => do return (← d.string e.1, e.2)
  | .scalar _ true "" => return []
  | _ => throw "expected a mapping"

/-- Whether a node stands for a value. -/
def hasValue (d : Document) (n : Node) : Except String Bool := do
  match ← d.follow n with
  | .scalar (some "tag:yaml.org,2002:null") true text =>
    if nulls.contains text then return false else throw "expected null"
  | .scalar none true text => return !(text.isEmpty || nulls.contains text)
  | _ => return true

/-- The value of a known key. -/
def optional {α : Type} (d : Document) (entries : List (String × Node)) (key : String)
    (read : Node → Except String α) : Except String (Option α) := do
  match entries.filter fun e => e.1 == key with
  | [] => return none
  | [(_, n)] => if ← d.hasValue n then return some (← read n) else return none
  | _ => throw "duplicate key"

def checker (d : Document) (n : Node) : Except String CheckerSettings := do
  let entries ← d.entries n
  return { program := ← d.optional entries "program" d.string
           args := ← d.optional entries "args" d.strings
           requires := ← d.optional entries "requires" d.string }

end Document

/-- The settings that a text states. -/
def settings (text : String) : Except String Settings := do
  match ← document text with
  | none => return {}
  | some d =>
    let entries ← d.entries d.root
    return { output := ← d.optional entries "output" d.string
             engine := ← d.optional entries "engine" d.checker
             naming := ← d.optional entries "naming" d.checker }

end StyleAudit.Yaml
