/-! # TOML values and tables

A table remembers how it came to be, because that decides whether it may be extended: a header opens
a table once, dotted keys extend only tables made by dotted keys, and an inline table is closed. -/

namespace StyleAudit.Toml
set_option autoImplicit false

/-- How a table came to be. -/
inductive Origin where
  /-- Opened by a header of its own, or the document itself. -/
  | header
  /-- Above a table that a header opened. -/
  | implied
  /-- By a dotted key. -/
  | dotted
  | inline
  deriving Repr, DecidableEq

inductive Value where
  | string (s : String)
  | integer
  | float
  | boolean
  | datetime
  /-- The flag says that headers made the array and may extend it. -/
  | array (ofTables : Bool) (items : List Value)
  | table (origin : Origin) (entries : List (String × Value))

abbrev Entries := List (String × Value)

def lookup (key : String) (entries : Entries) : Option Value :=
  (entries.find? fun e => e.1 == key).map Prod.snd

/-- Put a value for a key, in place of one that is there. -/
def put (key : String) (value : Value) : Entries → Entries
  | [] => [(key, value)]
  | (k, v) :: rest => if k == key then (k, value) :: rest else (k, v) :: put key value rest

/-- What is done to a table: its origin and entries give its new entries. -/
abbrev Change := Origin → Entries → Except String (Origin × Entries)

/-- Change the table that a path of keys leads to, and make the tables on the way. -/
def descend (dotted : Bool) (change : Change) : List String → Change
  | [], origin, entries => change origin entries
  | key :: path, origin, entries =>
    let inside := fun (o : Origin) (es : Entries) => do
      let (o, es) ← descend dotted change path o es
      return Value.table o es
    match lookup key entries with
    | none => do
      let sub ← inside (if dotted then .dotted else .implied) []
      return (origin, put key sub entries)
    | some (.table o es) =>
      if o = .inline then .error ("inline table " ++ key ++ " is closed")
      else if dotted && o = .header then .error ("duplicate key " ++ key)
      else do
        let sub ← inside o es
        return (origin, put key sub entries)
    | some (.array true items) =>
      match items.reverse with
      | .table o es :: before => do
        let last ← inside o es
        return (origin, put key (.array true (last :: before).reverse) entries)
      | _ => .error ("cannot extend " ++ key)
    | some _ => .error ("cannot extend " ++ key)

/-- Open the table of a header. -/
def openTable (key : String) : Change := fun origin entries =>
  match lookup key entries with
  | none => .ok (origin, put key (.table .header []) entries)
  | some (.table .implied es) => .ok (origin, put key (.table .header es) entries)
  | some _ => .error ("duplicate key " ++ key)

/-- Add a table to the array of a double header. -/
def openArrayItem (key : String) : Change := fun origin entries =>
  match lookup key entries with
  | none => .ok (origin, put key (.array true [.table .header []]) entries)
  | some (.array true items) =>
    .ok (origin, put key (.array true (items ++ [.table .header []])) entries)
  | some _ => .error ("duplicate key " ++ key)

/-- Enter a value. A dotted key must end in a table made by dotted keys. -/
def enter (isDotted : Bool) (key : String) (value : Value) : Change := fun origin entries =>
  if isDotted && origin ≠ .dotted then .error ("duplicate key " ++ key)
  else if (lookup key entries).isSome then .error ("duplicate key " ++ key)
  else .ok (origin, put key value entries)

/-- Change the table of a header that was opened before. -/
def within (change : Change) : List String → Change
  | [], origin, entries => change origin entries
  | key :: path, origin, entries =>
    match lookup key entries with
    | some (.table o es) => do
      let (o, es) ← within change path o es
      return (origin, put key (.table o es) entries)
    | some (.array true items) =>
      match items.reverse with
      | .table o es :: before => do
        let (o, es) ← within change path o es
        return (origin, put key (.array true (.table o es :: before).reverse) entries)
      | _ => .error ("no table " ++ key)
    | _ => .error ("no table " ++ key)

end StyleAudit.Toml
