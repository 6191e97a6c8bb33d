import StyleAudit.Settings
import StyleAudit.Toml.Document

/-! # Settings in TOML

Keys that are not known are passed over. The settings of a checker are a table, or its three values
in order; a date has no entry that is known. -/

namespace StyleAudit.Toml
set_option autoImplicit false

def stringOf : Value → Except String String
  | .string s => .ok s
  | _ => .error "expected a string"

def stringsOf : Value → Except String (List String)
  | .array _ items => items.mapM stringOf
  | _ => .error "expected an array"

/-- The value of a key that may be missing. -/
def optional {α : Type} (entries : Entries) (key : String) (read : Value → Except String α) :
    Except String (Option α) :=
  match lookup key entries with
  | some v => (read v).map some
  | none => .ok none

def checkerOf : Value → Except String CheckerSettings
  | .table _ entries => do
    return { program := ← optional entries "program" stringOf
             args := ← optional entries "args" stringsOf
             requires := ← optional entries "requires" stringOf }
  | .array _ (program :: args :: requires :: _) => do
    return { program := some (← stringOf program), args := some (← stringsOf args)
             requires := some (← stringOf requires) }
  | .datetime => .ok {}
  | _ => .error "expected a table"

/-- The settings that a document states. -/
def settings (text : String) : Except String Settings := do
  let entries ← parse text
  return { output := ← optional entries "output" stringOf
           engine := ← optional entries "engine" checkerOf
           naming := ← optional entries "naming" checkerOf }

end StyleAudit.Toml
