import Mathlib.Data.List.Basic
import Mathlib.Tactic.IntervalCases
import StyleAudit.Text.Json

/-!
# Reading JSON back

A reader of JSON text, one character at a time: null, booleans, integers without a sign, strings
with all their escapes, and objects as lists of members in the order of the text. Spaces between
tokens are passed over, and text of any other form is refused. What is written for a value is read
back as that value, on one line.
-/

namespace StyleAudit.Text.Json
set_option autoImplicit false

section Reader

/-- The value of a digit in base ten. -/
def decimalValue (c : Char) : Option Nat := (digitValue c).filter (· < 10)

/-- The character that a letter after a backslash stands for. -/
def unescape? (c : Char) : Option Char :=
  if c = '"' ∨ c = '\\' ∨ c = '/' then some c
  else if c = 'b' then some '\x08'
  else if c = 't' then some '\t'
  else if c = 'n' then some '\n'
  else if c = 'f' then some '\x0c'
  else if c = 'r' then some '\r'
  else none

/-- A place inside a string, after characters that are kept last one first. -/
inductive Quote where
  | plain (done : List Char)
  | escape (done : List Char)
  /-- One more hexadecimal digit is wanted, and `left` after it. -/
  | hex (done : List Char) (high : Option Nat) (n left : Nat)
  /-- A low surrogate must follow the high one. -/
  | pair (done : List Char) (high : Nat)
  | pairEscape (done : List Char) (high : Nat)

namespace Quote

def isHigh (n : Nat) : Bool := 0xD800 ≤ n && n < 0xDC00

def isLow (n : Nat) : Bool := 0xDC00 ≤ n && n < 0xE000

/-- After a code unit that was written in hexadecimal digits. -/
def unit (done : List Char) (high : Option Nat) (n : Nat) : Option Quote :=
  match high with
  | none =>
    if isHigh n then some (.pair done n)
    else if isLow n then none
    else some (.plain (Char.ofNat n :: done))
  | some h =>
    if isLow n then some (.plain (Char.ofNat (0x10000 + 0x400 * (h - 0xD800) + (n - 0xDC00)) :: done))
    else none

def step : Quote → Char → Option Quote
  | .plain done, c =>
    if c = '\\' then some (.escape done)
    else if c.toNat < 0x20 then none
    else some (.plain (c :: done))
  | .escape done, c =>
    if c = 'u' then some (.hex done none 0 3) else (unescape? c).map fun d => .plain (d :: done)
  | .hex done high n left, c =>
    (digitValue c).bind fun d =>
      match left with
      | 0 => unit done high (16 * n + d)
      | left + 1 => some (.hex done high (16 * n + d) left)
  | .pair done high, c => if c = '\\' then some (.pairEscape done high) else none
  | .pairEscape done high, c => if c = 'u' then some (.hex done (some high) 0 3) else none

/-- The string that a quotation mark ends. -/
def closed? : Quote → Char → Option String
  | .plain done, c => if c = '"' then some (String.ofList done.reverse) else none
  | _, _ => none

end Quote

/-- An object that is still open: its members so far, last one first, and the key whose value is
read next. -/
structure Frame where
  members : List (String × Json)
  name : String

inductive State where
  | value (outer : List Frame)
  | word (left : List Char) (v : Json) (outer : List Frame)
  | number (n : Nat) (outer : List Frame)
  /-- Inside a string, which is a key after some members or a value. -/
  | quote (q : Quote) (members : Option (List (String × Json))) (outer : List Frame)
  /-- After an opening brace. -/
  | opened (outer : List Frame)
  | key (members : List (String × Json)) (outer : List Frame)
  | colon (members : List (String × Json)) (name : String) (outer : List Frame)
  | after (v : Json) (outer : List Frame)

namespace State

def isSpace (c : Char) : Bool := c == ' ' || c == '\t' || c == '\n' || c == '\r'

def stepValue (outer : List Frame) (c : Char) : Option State :=
  if isSpace c then some (.value outer)
  else if c = '"' then some (.quote (.plain []) none outer)
  else if c = '\x7b' then some (.opened outer)
  else if c = 'n' then some (.word "ull".toList .null outer)
  else if c = 't' then some (.word "rue".toList (.bool true) outer)
  else if c = 'f' then some (.word "alse".toList (.bool false) outer)
  else (decimalValue c).map fun d => .number d outer

def stepWord (left : List Char) (v : Json) (outer : List Frame) (c : Char) : Option State :=
  match left with
  | [] => none
  | [x] => if c = x then some (.after v outer) else none
  | x :: y :: more => if c = x then some (.word (y :: more) v outer) else none

def stepKey (members : List (String × Json)) (outer : List Frame) (c : Char) : Option State :=
  if isSpace c then some (.key members outer)
  else if c = '"' then some (.quote (.plain []) (some members) outer)
  else none

def stepOpened (outer : List Frame) (c : Char) : Option State :=
  if isSpace c then some (.opened outer)
  else if c = '\x7d' then some (.after (.object []) outer)
  else stepKey [] outer c

def stepColon (members : List (String × Json)) (name : String) (outer : List Frame) (c : Char) :
    Option State :=
  if isSpace c then some (.colon members name outer)
  else if c = ':' then some (.value (⟨members, name⟩ :: outer))
  else none

def stepAfter (v : Json) (outer : List Frame) (c : Char) : Option State :=
  if isSpace c then some (.after v outer)
  else match outer with
    | [] => none
    | frame :: outer =>
      let members := (frame.name, v) :: frame.members
      if c = ',' then some (.key members outer)
      else if c = '\x7d' then some (.after (.object members.reverse) outer)
      else none

def stepQuote (q : Quote) (members : Option (List (String × Json))) (outer : List Frame) (c : Char) :
    Option State :=
  match q.closed? c, members with
  | some text, none => some (.after (.string text) outer)
  | some text, some members => some (.colon members text outer)
  | none, members => (q.step c).map fun q => .quote q members outer

/-- A number ends where no digit follows; zero takes no further digits. -/
def stepNumber (n : Nat) (outer : List Frame) (c : Char) : Option State :=
  match decimalValue c with
  | some d => if n = 0 then none else some (.number (10 * n + d) outer)
  | none => stepAfter (.number n) outer c

def step : State → Char → Option State
  | .value outer, c => stepValue outer c
  | .word left v outer, c => stepWord left v outer c
  | .number n outer, c => stepNumber n outer c
  | .quote q members outer, c => stepQuote q members outer c
  | .opened outer, c => stepOpened outer c
  | .key members outer, c => stepKey members outer c
  | .colon members name outer, c => stepColon members name outer c
  | .after v outer, c => stepAfter v outer c

def run (s : State) (text : List Char) : Option State := text.foldlM step s

/-- The value of a text that ends here. -/
def finished? : State → Option Json
  | .after v [] => some v
  | .number n [] => some (.number n)
  | _ => none

end State

def read? (text : String) : Option Json :=
  (State.run (.value []) text.toList).bind State.finished?

end Reader

/-- A character is written with a letter, with its number, or as it is. -/
theorem escapeChar_cases (c : Char) :
    (∃ e, escapeChar c = ['\\', e] ∧ unescape? e = some c ∧ e ≠ 'u' ∧ 0x20 ≤ e.toNat) ∨
    (c.toNat < 0x20 ∧ escapeChar c =
      ['\\', 'u', '0', '0', hexDigit (c.toNat / 16), hexDigit (c.toNat % 16)]) ∨
    (0x20 ≤ c.toNat ∧ escapeChar c = [c] ∧ c ≠ '"' ∧ c ≠ '\\') := by
  by_cases hshort : c ∈ ['"', '\\', '\x08', '\t', '\n', '\x0c', '\r']
  · left
    simp only [List.mem_cons, List.not_mem_nil, or_false] at hshort
    rcases hshort with rfl | rfl | rfl | rfl | rfl | rfl | rfl
    · exact ⟨'"', rfl, rfl, by decide, by decide⟩
    · exact ⟨'\\', rfl, rfl, by decide, by decide⟩
    · exact ⟨'b', rfl, rfl, by decide, by decide⟩
    · exact ⟨'t', rfl, rfl, by decide, by decide⟩
    · exact ⟨'n', rfl, rfl, by decide, by decide⟩
    · exact ⟨'f', rfl, rfl, by decide, by decide⟩
    · exact ⟨'r', rfl, rfl, by decide, by decide⟩
  · right
    simp only [List.mem_cons, List.not_mem_nil, or_false, not_or] at hshort
    obtain ⟨hquote, hslash, hb, ht, hn, hf, hr⟩ := hshort
    rw [escapeChar, if_neg hquote, if_neg hslash, if_neg hb, if_neg ht, if_neg hn, if_neg hf,
      if_neg hr]
    by_cases hcontrol : c.toNat < 0x20
    · exact .inl ⟨hcontrol, if_pos hcontrol⟩
    · exact .inr ⟨Nat.not_lt.mp hcontrol, if_neg hcontrol, hquote, hslash⟩

namespace State

theorem run_append (s : State) (xs ys : List Char) :
    run s (xs ++ ys) = (run s xs).bind fun t => run t ys := by
  rw [run, List.foldlM_append]
  rfl

theorem run_cons (s : State) (c : Char) (rest : List Char) :
    run s (c :: rest) = (step s c).bind fun t => run t rest := rfl

theorem run_singleton (s : State) (c : Char) : run s [c] = step s c := by
  rw [run_cons]
  cases step s c <;> rfl

section Strings
variable (members : Option (List (String × Json))) (outer : List Frame)

/-- A control character is written with the four digits of its number. -/
theorem run_controlEscape (done : List Char) {c : Char} (h : c.toNat < 0x20) :
    run (.quote (.plain done) members outer)
        ['\\', 'u', '0', '0', hexDigit (c.toNat / 16), hexDigit (c.toNat % 16)] =
      some (.quote (.plain (c :: done)) members outer) := by
  have hhigh := digitValue_hexDigit (c.toNat / 16) (by omega)
  have hlow := digitValue_hexDigit (c.toNat % 16) (by omega)
  have hstart : run (.quote (.plain done) members outer) ['\\', 'u', '0', '0'] =
      some (.quote (.hex done none 0 1) members outer) := rfl
  have hunit : Quote.unit done none (16 * (c.toNat / 16) + c.toNat % 16) =
      some (.plain (c :: done)) := by
    have hnum : 16 * (c.toNat / 16) + c.toNat % 16 = c.toNat := by omega
    have hnotHigh : Quote.isHigh c.toNat = false := by
      simp only [Quote.isHigh, Bool.and_eq_false_iff, decide_eq_false_iff_not]
      omega
    have hnotLow : Quote.isLow c.toNat = false := by
      simp only [Quote.isLow, Bool.and_eq_false_iff, decide_eq_false_iff_not]
      omega
    simp [Quote.unit, hnum, hnotHigh, hnotLow, Char.ofNat_toNat]
  change run _ (['\\', 'u', '0', '0'] ++
    [hexDigit (c.toNat / 16), hexDigit (c.toNat % 16)]) = _
  rw [run_append, hstart]
  simp [run, step, stepQuote, Quote.closed?, Quote.step, hhigh, hlow, hunit]

theorem run_escapeChar (done : List Char) (c : Char) :
    run (.quote (.plain done) members outer) (escapeChar c) =
      some (.quote (.plain (c :: done)) members outer) := by
  obtain ⟨e, hescape, hletter, hu, -⟩ | ⟨hcontrol, hescape⟩ | ⟨hplain, hescape, hquote, hslash⟩ :=
    escapeChar_cases c
  · rw [hescape]
    simp [run, step, stepQuote, Quote.closed?, Quote.step, hletter, hu]
  · rw [hescape]
    exact run_controlEscape members outer done hcontrol
  · rw [hescape]
    simp [run, step, stepQuote, Quote.closed?, Quote.step, hquote, hslash, hplain]

theorem run_escaped (done cs : List Char) :
    run (.quote (.plain done) members outer) (cs.flatMap escapeChar) =
      some (.quote (.plain (cs.reverse ++ done)) members outer) := by
  induction cs generalizing done with
  | nil => rfl
  | cons c rest ih =>
    rw [List.flatMap_cons, run_append, run_escapeChar, Option.bind_some, ih, List.reverse_cons,
      List.append_assoc, List.singleton_append]

theorem run_stringChars {s : State} (text : String)
    (hstart : step s '"' = some (.quote (.plain []) members outer)) :
    run s (stringChars text) = stepQuote (.plain text.toList.reverse) members outer '"' := by
  rw [stringChars, run_cons, hstart, Option.bind_some, run_append, run_escaped, Option.bind_some,
    List.append_nil, run_singleton]
  rfl

end Strings

section Numbers

theorem decimalValue_digitChar : ∀ d < 10, decimalValue (Nat.digitChar d) = some d := by decide

theorem stepValue_digitChar (outer : List Frame) :
    ∀ d < 10, step (.value outer) (Nat.digitChar d) = some (.number d outer) := by
  intro d hd
  interval_cases d <;> rfl

theorem run_toDigits (outer : List Frame) (n : Nat) :
    run (.value outer) (Nat.toDigits 10 n) = some (.number n outer) := by
  induction n using Nat.strongRecOn with
  | ind n ih =>
    by_cases hn : n < 10
    · rw [Nat.toDigits_of_lt_base hn, run_cons, stepValue_digitChar outer n hn]
      rfl
    · have hdigit := decimalValue_digitChar (n % 10) (Nat.mod_lt n (by omega))
      have hne : n / 10 ≠ 0 := by omega
      have hsum : 10 * (n / 10) + n % 10 = n := by omega
      rw [Nat.toDigits_of_base_le (by omega) (by omega), run_append, ih (n / 10) (by omega),
        Option.bind_some, run_singleton]
      simp only [step, stepNumber, hdigit, hne, if_false, hsum]

end Numbers

section Values

/-- A value has been read. A number may still go on, but nothing else can. -/
inductive Settled (v : Json) (outer : List Frame) : State → Prop
  | after : Settled v outer (.after v outer)
  | number {n : Nat} : v = .number n → Settled v outer (.number n outer)

theorem Settled.step_eq {v : Json} {outer : List Frame} {s : State} (h : Settled v outer s) {c : Char}
    (hc : decimalValue c = none) : step s c = stepAfter v outer c := by
  cases h with
  | after => rfl
  | number hv =>
    subst hv
    simp only [step, stepNumber, hc]

theorem Settled.finished {v : Json} {s : State} (h : Settled v [] s) : finished? s = some v := by
  cases h with
  | after => rfl
  | number hv =>
    subst hv
    rfl

/-- A key comes next, or it may. -/
inductive AtKey (members : List (String × Json)) (outer : List Frame) : State → Prop
  | key : AtKey members outer (.key members outer)
  | opened : members = [] → AtKey members outer (.opened outer)

theorem AtKey.step_quote {members : List (String × Json)} {outer : List Frame} {s : State}
    (h : AtKey members outer s) :
    step s '"' = some (.quote (.plain []) (some members) outer) := by
  cases h with
  | key => rfl
  | opened hmembers =>
    subst hmembers
    rfl

theorem AtKey.run_name {members : List (String × Json)} {outer : List Frame} {s : State}
    (h : AtKey members outer s) (name : String) (rest : List Char) :
    run s (stringChars name ++ ':' :: rest) = run (.value (⟨members, name⟩ :: outer)) rest := by
  have hquote : stepQuote (.plain name.toList.reverse) (some members) outer '"' =
      some (.colon members name outer) := by
    simp [stepQuote, Quote.closed?]
  rw [run_append, run_stringChars (some members) outer name h.step_quote, hquote, Option.bind_some,
    run_cons]
  rfl

mutual

/-- What is written for a value brings the reader over that value. -/
theorem run_chars : ∀ (j : Json) (outer : List Frame),
    ∃ s, run (.value outer) j.chars = some s ∧ Settled j outer s
  | .null, outer => ⟨_, rfl, .after⟩
  | .bool true, outer => ⟨_, rfl, .after⟩
  | .bool false, outer => ⟨_, rfl, .after⟩
  | .number n, outer => ⟨_, run_toDigits outer n, .number rfl⟩
  | .string text, outer => by
    refine ⟨.after (.string text) outer, ?_, .after⟩
    rw [chars, run_stringChars none outer text rfl]
    simp [stepQuote, Quote.closed?]
  | .object [], outer => ⟨_, rfl, .after⟩
  | .object (m :: ms), outer => by
    refine ⟨.after (.object (m :: ms)) outer, ?_, .after⟩
    have hopened : step (.value outer) '\x7b' = some (.opened outer) := rfl
    rw [chars, run_cons, hopened, Option.bind_some, run_memberChars (m :: ms) [] outer (.opened rfl)
      (List.cons_ne_nil m ms)]
    rfl

/-- Members and the closing brace complete the object whose other members were read before. -/
theorem run_memberChars : ∀ (ms done : List (String × Json)) (outer : List Frame) {s : State},
    AtKey done outer s → ms ≠ [] →
      run s (memberChars ms ++ ['\x7d']) = some (.after (.object (done.reverse ++ ms)) outer)
  | [], _, _, _, _, hne => absurd rfl hne
  | [(name, v)], done, outer, s, hkey, _ => by
    obtain ⟨t, hrun, hsettled⟩ := run_chars v (⟨done, name⟩ :: outer)
    rw [memberChars, List.append_assoc, List.cons_append, hkey.run_name, run_append, hrun,
      Option.bind_some, run_singleton, hsettled.step_eq (by decide)]
    simp [stepAfter, isSpace]
  | (name, v) :: m :: ms, done, outer, s, hkey, _ => by
    obtain ⟨t, hrun, hsettled⟩ := run_chars v (⟨done, name⟩ :: outer)
    have hcomma : stepAfter v (⟨done, name⟩ :: outer) ',' =
        some (.key ((name, v) :: done) outer) := rfl
    rw [memberChars, List.append_assoc, List.cons_append, hkey.run_name, List.append_assoc,
      List.cons_append, run_append, hrun, Option.bind_some, run_cons,
      hsettled.step_eq (by decide), hcomma, Option.bind_some,
      run_memberChars (m :: ms) ((name, v) :: done) outer .key (List.cons_ne_nil m ms)]
    simp

end

end Values
end State

section Line

theorem printable_of_all {cs : List Char} (h : cs.all (fun c => decide (0x20 ≤ c.toNat)) = true) :
    ∀ c ∈ cs, 0x20 ≤ c.toNat := by
  intro c hc
  exact of_decide_eq_true (List.all_eq_true.mp h c hc)

theorem printable_hexDigit : ∀ d < 16, 0x20 ≤ (hexDigit d).toNat := by decide

theorem printable_escapeChar (c : Char) : ∀ d ∈ escapeChar c, 0x20 ≤ d.toNat := by
  obtain ⟨e, hescape, -, -, hletter⟩ | ⟨hcontrol, hescape⟩ | ⟨hplain, hescape, -, -⟩ :=
    escapeChar_cases c
  · simp [hescape, hletter]
  · have hhigh := printable_hexDigit (c.toNat / 16) (by omega)
    have hlow := printable_hexDigit (c.toNat % 16) (by omega)
    simp [hescape, hhigh, hlow]
  · simp [hescape, hplain]

theorem printable_stringChars (text : String) : ∀ c ∈ stringChars text, 0x20 ≤ c.toNat := by
  intro c hc
  rw [stringChars, List.mem_cons, List.mem_append, List.mem_flatMap, List.mem_singleton] at hc
  rcases hc with rfl | ⟨d, -, hd⟩ | rfl
  · decide
  · exact printable_escapeChar d c hd
  · decide

theorem printable_toDigits (n : Nat) : ∀ c ∈ Nat.toDigits 10 n, 0x20 ≤ c.toNat := by
  intro c hc
  have hdigit := Nat.isDigit_of_mem_toDigits (by omega) (by omega) hc
  rw [Char.isDigit_iff_toNat] at hdigit
  have hzero : '0'.toNat = 48 := rfl
  omega

mutual

theorem printable_chars : ∀ (j : Json), ∀ c ∈ j.chars, 0x20 ≤ c.toNat
  | .null => printable_of_all rfl
  | .bool true => printable_of_all rfl
  | .bool false => printable_of_all rfl
  | .number n => printable_toDigits n
  | .string text => printable_stringChars text
  | .object ms => by
    intro c hc
    rw [chars, List.mem_cons, List.mem_append, List.mem_singleton] at hc
    rcases hc with rfl | hc | rfl
    · decide
    · exact printable_memberChars ms c hc
    · decide

theorem printable_memberChars : ∀ (ms : List (String × Json)), ∀ c ∈ memberChars ms, 0x20 ≤ c.toNat
  | [] => by simp [memberChars]
  | [(name, v)] => by
    intro c hc
    rw [memberChars, List.mem_append, List.mem_cons] at hc
    rcases hc with hc | rfl | hc
    · exact printable_stringChars name c hc
    · decide
    · exact printable_chars v c hc
  | (name, v) :: m :: ms => by
    intro c hc
    rw [memberChars, List.mem_append, List.mem_cons, List.mem_append, List.mem_cons] at hc
    rcases hc with hc | rfl | hc | rfl | hc
    · exact printable_stringChars name c hc
    · decide
    · exact printable_chars v c hc
    · decide
    · exact printable_memberChars (m :: ms) c hc

end

end Line
end StyleAudit.Text.Json
