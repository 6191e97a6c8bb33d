/-! # Tables

Finite maps from text keys, kept in the order in which the keys were first entered. A look-up sees
the first entry of a key; `insert` and `alter` never make a second one. -/

namespace StyleAudit
set_option autoImplicit false

structure Table (α : Type) where
  entries : List (String × α) := []
  deriving Repr, DecidableEq

namespace Table

variable {α β : Type}

def empty : Table α := ⟨[]⟩

/-- Value of the first entry for a key. -/
def find (key : String) : List (String × α) → Option α
  | [] => none
  | (k, v) :: rest => if k = key then some v else find key rest

def get? (t : Table α) (key : String) : Option α := find key t.entries

/-- Replace the first entry for a key by what `f` makes of it, or add one at the end. -/
def alterEntries (key : String) (f : Option α → α) : List (String × α) → List (String × α)
  | [] => [(key, f none)]
  | (k, v) :: rest => if k = key then (k, f (some v)) :: rest else (k, v) :: alterEntries key f rest

def alter (t : Table α) (key : String) (f : Option α → α) : Table α :=
  ⟨alterEntries key f t.entries⟩

def insert (t : Table α) (key : String) (value : α) : Table α := t.alter key fun _ => value

def erase (t : Table α) (key : String) : Table α :=
  ⟨t.entries.filter fun e => !decide (e.1 = key)⟩

def mapValues (t : Table α) (f : α → β) : Table β := ⟨t.entries.map fun e => (e.1, f e.2)⟩

def keys (t : Table α) : List String := t.entries.map Prod.fst

def isEmpty (t : Table α) : Bool := t.entries.isEmpty

/-- Later pairs replace earlier ones of the same key. -/
def ofList (pairs : List (String × α)) : Table α :=
  pairs.foldl (fun t e => t.insert e.1 e.2) empty

/-- The entries by key, in code point order. -/
def sorted (t : Table α) : List (String × α) := t.entries.mergeSort fun a b => decide (a.1 ≤ b.1)

theorem find_alterEntries (key other : String) (f : Option α → α) (entries : List (String × α)) :
    find other (alterEntries key f entries) =
      if other = key then some (f (find key entries)) else find other entries := by
  induction entries with
  | nil =>
    by_cases h : key = other
    · simp [alterEntries, find, h]
    · have h' : ¬other = key := fun e => h e.symm
      simp [alterEntries, find, h, h']
  | cons e rest ih =>
    obtain ⟨k, v⟩ := e
    by_cases hk : k = key
    · subst hk
      by_cases ho : k = other
      · subst ho
        simp [alterEntries, find]
      · have ho' : ¬other = k := fun e => ho e.symm
        simp [alterEntries, find, ho, ho']
    · by_cases ho : k = other
      · subst ho
        simp [alterEntries, find, hk]
      · by_cases hok : other = key <;> simp_all [alterEntries, find]

@[simp] theorem get?_alter (t : Table α) (key other : String) (f : Option α → α) :
    (t.alter key f).get? other = if other = key then some (f (t.get? key)) else t.get? other :=
  find_alterEntries key other f t.entries

end Table
end StyleAudit
