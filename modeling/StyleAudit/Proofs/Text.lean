import Mathlib.Data.List.Induction
import Mathlib.Data.List.TakeWhile
import Mathlib.Data.Nat.Digits.Defs
import StyleAudit.Statistics

/-!
# Characters, runs and lines

The character classes of a statistics line exclude each other where one part of the line meets the
next, so each part is the longest run of its class. The text between the outer blanks and the lines
of a text are described without the functions that compute them.
-/

namespace StyleAudit.Text
set_option autoImplicit false

section Classes
variable {c : Char}

/-- The characters with the property White_Space, by number. -/
def blankNumbers : List Nat :=
  [0x9, 0xA, 0xB, 0xC, 0xD, 0x20, 0x85, 0xA0, 0x1680, 0x2000, 0x2001, 0x2002, 0x2003, 0x2004,
    0x2005, 0x2006, 0x2007, 0x2008, 0x2009, 0x200A, 0x2028, 0x2029, 0x202F, 0x205F, 0x3000]

theorem isBlank_iff : isBlank c = true ↔ c.toNat ∈ blankNumbers := by
  simp only [isBlank, blankNumbers, Bool.or_eq_true, Bool.and_eq_true, beq_iff_eq,
    decide_eq_true_eq, List.mem_cons, List.not_mem_nil, or_false]
  omega

theorem isAsciiDigit_iff : isAsciiDigit c = true ↔ 48 ≤ c.toNat ∧ c.toNat ≤ 57 := by
  simp only [isAsciiDigit, Bool.and_eq_true, decide_eq_true_eq]
  exact Iff.rfl

theorem isAsciiUpper_iff : isAsciiUpper c = true ↔ 65 ≤ c.toNat ∧ c.toNat ≤ 90 := by
  simp only [isAsciiUpper, Bool.and_eq_true, decide_eq_true_eq]
  exact Iff.rfl

theorem isDecimal_of_isAsciiDigit (h : isAsciiDigit c = true) : isDecimal c = true := by
  rw [isDecimal, h]
  rfl

theorem not_isDecimal_of_isBlank (h : isBlank c = true) : isDecimal c = false := by
  have hclass : ∀ n ∈ blankNumbers, ¬(48 ≤ n ∧ n ≤ 57) ∧
      (zeroDigits.any fun z => z ≤ n && n ≤ z + 9) = false := by decide
  obtain ⟨hascii, hother⟩ := hclass _ (isBlank_iff.mp h)
  rw [← isAsciiDigit_iff, Bool.not_eq_true] at hascii
  simp only [isDecimal, hascii, Bool.false_or]
  exact hother

theorem not_isBlank_of_isDecimal (h : isDecimal c = true) : isBlank c = false := by
  cases hb : isBlank c with
  | false => rfl
  | true => rw [not_isDecimal_of_isBlank hb] at h; contradiction

theorem not_isBlank_of_isAsciiUpper (h : isAsciiUpper c = true) : isBlank c = false := by
  cases hb : isBlank c with
  | false => rfl
  | true =>
    have hclass : ∀ n ∈ blankNumbers, ¬(65 ≤ n ∧ n ≤ 90) := by decide
    exact False.elim (hclass _ (isBlank_iff.mp hb) (isAsciiUpper_iff.mp h))

theorem not_isAsciiUpper_of_isAsciiDigit (h : isAsciiDigit c = true) : isAsciiUpper c = false := by
  cases hu : isAsciiUpper c with
  | false => rfl
  | true =>
    have hd := isAsciiDigit_iff.mp h
    have hl := isAsciiUpper_iff.mp hu
    omega

end Classes

section Runs
variable {α : Type} {p : α → Bool}

def Stops (p : α → Bool) (xs : List α) : Prop := ∀ x ∈ xs.head?, p x = false

theorem stops_dropWhile (p : α → Bool) (xs : List α) : Stops p (xs.dropWhile p) := by
  intro x hx
  have h := List.head?_dropWhile_not p xs
  rw [Option.mem_def.mp hx] at h
  exact h

theorem stops_append {xs : List α} (hne : xs ≠ []) (h : ∀ x ∈ xs, p x = false) (ys : List α) :
    Stops p (xs ++ ys) := by
  cases xs with
  | nil => exact absurd rfl hne
  | cons x rest =>
    intro y hy
    obtain rfl : x = y := by simpa using hy
    exact h x List.mem_cons_self

theorem dropWhile_of_stops {xs : List α} (h : Stops p xs) : xs.dropWhile p = xs := by
  cases xs with
  | nil => rfl
  | cons x rest => rw [List.dropWhile_cons, if_neg (by simp [h x rfl])]

theorem takeWhile_of_stops {xs : List α} (h : Stops p xs) : xs.takeWhile p = [] := by
  cases xs with
  | nil => rfl
  | cons x rest => rw [List.takeWhile_cons, if_neg (by simp [h x rfl])]

theorem takeWhile_run {run rest : List α} (hrun : ∀ x ∈ run, p x = true) (hrest : Stops p rest) :
    (run ++ rest).takeWhile p = run := by
  rw [List.takeWhile_append_of_pos hrun, takeWhile_of_stops hrest, List.append_nil]

theorem dropWhile_run {run rest : List α} (hrun : ∀ x ∈ run, p x = true) (hrest : Stops p rest) :
    (run ++ rest).dropWhile p = rest := by
  rw [List.dropWhile_append_of_pos hrun, dropWhile_of_stops hrest]

end Runs

section Trimming

/-- A text is its core with blanks on both sides, and the core has none at its ends. -/
def Trimmed (text core : List Char) : Prop :=
  ∃ before after, text = before ++ core ++ after ∧
    (∀ c ∈ before, isBlank c = true) ∧ (∀ c ∈ after, isBlank c = true) ∧
    (∀ c ∈ core.head?, isBlank c = false) ∧ (∀ c ∈ core.getLast?, isBlank c = false)

theorem trimmed_trim (text : List Char) : Trimmed text (trim text) := by
  have hsplit : text.dropWhile isBlank = trim text ++
      ((text.dropWhile isBlank).reverse.takeWhile isBlank).reverse := by
    rw [trim, ← List.reverse_append, List.takeWhile_append_dropWhile, List.reverse_reverse]
  refine ⟨text.takeWhile isBlank, ((text.dropWhile isBlank).reverse.takeWhile isBlank).reverse,
    ?_, ?_, ?_, ?_, ?_⟩
  · rw [List.append_assoc, ← hsplit, List.takeWhile_append_dropWhile]
  · exact fun c hc => List.mem_takeWhile_imp hc
  · exact fun c hc => List.mem_takeWhile_imp (List.mem_reverse.mp hc)
  · intro c hc
    apply stops_dropWhile isBlank text c
    rw [hsplit, List.head?_append, Option.mem_def.mp hc]
    rfl
  · intro c hc
    rw [trim, List.getLast?_reverse] at hc
    exact stops_dropWhile isBlank _ c hc

theorem Trimmed.trim_eq {text core : List Char} (h : Trimmed text core) : trim text = core := by
  obtain ⟨before, after, rfl, hbefore, hafter, hhead, hlast⟩ := h
  have hback : ∀ c ∈ after.reverse, isBlank c = true :=
    fun c hc => hafter c (List.mem_reverse.mp hc)
  have hstop : Stops isBlank core.reverse := by
    intro c hc
    rw [List.head?_reverse] at hc
    exact hlast c hc
  rw [trim, List.append_assoc, List.dropWhile_append_of_pos hbefore]
  cases core with
  | nil => simp [List.dropWhile_eq_nil_iff.mpr hafter]
  | cons c rest =>
    have hfront : Stops isBlank (c :: rest ++ after) := hhead
    rw [dropWhile_of_stops hfront, List.reverse_append, dropWhile_run hback hstop,
      List.reverse_reverse]

end Trimming

section Numerals

theorem digitValue_of_isAsciiDigit {c : Char} (h : isAsciiDigit c = true) :
    digitValue c = some (c.toNat - 48) := if_pos h

theorem valueIn_eq_ofDigits {cs : List Char} (h : ∀ c ∈ cs, isAsciiDigit c = true) :
    valueIn 10 cs = Nat.ofDigits 10 (cs.reverse.map fun c => c.toNat - 48) := by
  induction cs using List.reverseRecOn with
  | nil => rfl
  | append_singleton cs c ih =>
    have hfront : ∀ d ∈ cs, isAsciiDigit d = true := fun d hd => h d (List.mem_append_left _ hd)
    have hlast : digitValue c = some (c.toNat - 48) := digitValue_of_isAsciiDigit (h c (by simp))
    rw [valueIn_concat, ih hfront, hlast, Option.getD_some, List.reverse_append,
      List.reverse_singleton, List.singleton_append, List.map_cons, Nat.ofDigits_cons, Nat.add_comm]

theorem isValidChar_iff (n : Nat) :
    n.isValidChar ↔ ¬((0xD800 ≤ n && n ≤ 0xDFFF) || 0x10FFFF < n) = true := by
  rw [Nat.isValidChar]
  simp only [Bool.or_eq_true, Bool.and_eq_true, decide_eq_true_eq]
  omega

/-- A number in hexadecimal digits, as many as wanted. -/
def hexDigits : Nat → Nat → List Char
  | 0, _ => []
  | width + 1, n => hexDigits width (n / 16) ++ [hexDigit (n % 16)]

theorem length_hexDigits (width n : Nat) : (hexDigits width n).length = width := by
  induction width generalizing n with
  | zero => rfl
  | succ width ih => rw [hexDigits, List.length_append, ih, List.length_singleton]

theorem digitValue_of_mem_hexDigits {width n : Nat} {d : Char} (h : d ∈ hexDigits width n) :
    (digitValue d).isSome = true := by
  induction width generalizing n with
  | zero => exact absurd h List.not_mem_nil
  | succ width ih =>
    rcases List.mem_append.mp h with h | h
    · exact ih h
    · rw [List.mem_singleton.mp h, digitValue_hexDigit _ (Nat.mod_lt _ (by omega))]
      rfl

theorem valueIn_hexDigits {width n : Nat} (h : n < 16 ^ width) :
    valueIn 16 (hexDigits width n) = n := by
  induction width generalizing n with
  | zero =>
    have hzero : n = 0 := by simpa using h
    rw [hzero]
    rfl
  | succ width ih =>
    have hfront : n / 16 < 16 ^ width := Nat.div_lt_of_lt_mul (by rwa [Nat.pow_succ'] at h)
    rw [hexDigits, valueIn_concat, ih hfront,
      digitValue_hexDigit _ (Nat.mod_lt _ (by omega)), Option.getD_some, Nat.div_add_mod]

end Numerals

theorem ofNat?_eq_some_iff (n : Nat) (count : Count) :
    Count.ofNat? n = some count ↔ n = count.toNat := by
  unfold Count.ofNat?
  split
  · rename_i hn
    rw [Option.some.injEq, ← UInt64.toNat_inj, UInt64.toNat_ofNat_of_lt' hn]
  · rename_i hn
    have hlt := count.toNat_lt
    constructor
    · intro h
      cases h
    · intro h
      omega

theorem count?_eq_some_iff (cs : List Char) (count : Count) :
    count? cs = some count ↔ (∀ c ∈ cs, isAsciiDigit c = true) ∧
      Nat.ofDigits 10 (cs.reverse.map fun c => c.toNat - 48) = count.toNat := by
  rw [count?]
  split
  · rename_i hall
    have hdigits := List.all_eq_true.mp hall
    rw [ofNat?_eq_some_iff, valueIn_eq_ofDigits hdigits, and_iff_right hdigits]
  · rename_i hall
    rw [List.all_eq_true] at hall
    simp [hall]

theorem isAsciiDigit_of_mem_toDigits {n : Nat} {c : Char} (h : c ∈ Nat.toDigits 10 n) :
    isAsciiDigit c = true := by
  have hdigit := Nat.isDigit_of_mem_toDigits (by omega) (by omega) h
  exact isAsciiDigit_iff.mpr (Char.isDigit_iff_toNat.mp hdigit)

theorem count?_toDigits (count : Count) : count? (Nat.toDigits 10 count.toNat) = some count := by
  have hdigits : (Nat.toDigits 10 count.toNat).all isAsciiDigit = true :=
    List.all_eq_true.mpr fun c hc => isAsciiDigit_of_mem_toDigits hc
  rw [count?, if_pos hdigits, valueIn_toDigits (by omega) (by omega), ofNat?_eq_some_iff]

section Lines

def dropReturn (part : List Char) : List Char :=
  if part.getLast? = some '\r' then part.dropLast else part

/-- The lines of a text that was split at its line feeds. The part after the last line feed is a
line only if it is not empty, and it keeps its carriage return. -/
def rows : List (List Char) → List (List Char)
  | [] => []
  | [last] => if last = [] then [] else [last]
  | part :: next :: rest => dropReturn part :: rows (next :: rest)

theorem endedLine_eq_dropReturn (cur : List Char) : endedLine cur = dropReturn cur.reverse := by
  cases cur with
  | nil => rfl
  | cons c rest =>
    simp only [endedLine, dropReturn, List.reverse_cons, List.getLast?_concat, Option.some.injEq,
      List.dropLast_concat]

theorem rows_cons (part : List Char) {rest : List (List Char)} (h : rest ≠ []) :
    rows (part :: rest) = dropReturn part :: rows rest := by
  cases rest with
  | nil => exact absurd rfl h
  | cons next rest => rfl

/-- The start of a line that was read so far belongs to the first part of what is left. -/
theorem linesFrom_eq_rows (cur text : List Char) :
    linesFrom cur text = rows ((text.splitOn '\n').modifyHead (cur.reverse ++ ·)) := by
  induction text generalizing cur with
  | nil => cases cur <;> simp [linesFrom, rows]
  | cons c rest ih =>
    obtain ⟨part, parts, hparts⟩ :=
      List.exists_cons_of_ne_nil (List.splitOnP_ne_nil (· == '\n') rest)
    rw [List.splitOn] at ih ⊢
    rw [linesFrom, List.splitOnP_cons_eq_if_modifyHead]
    by_cases hc : c = '\n'
    · simp only [hc, if_true, beq_self_eq_true, ih, hparts, List.modifyHead_cons,
        List.reverse_nil, List.nil_append, List.append_nil, endedLine_eq_dropReturn,
        rows_cons _ (List.cons_ne_nil part parts)]
    · simp only [hc, if_false, beq_iff_eq, ih, hparts, List.modifyHead_cons, List.reverse_cons,
        List.append_assoc, List.singleton_append]

theorem lines_eq_rows (text : List Char) : lines text = rows (text.splitOn '\n') := by
  rw [lines, linesFrom_eq_rows]
  cases text.splitOn '\n' <;> simp

/-- The start of a line stays at its front, if it holds no carriage return. -/
theorem prefix_head_linesFrom {cur : List Char} (h : '\r' ∉ cur) (more text : List Char) :
    cur.reverse <+: (linesFrom (more ++ cur) text).head?.getD [] := by
  induction text generalizing more with
  | nil =>
    rw [linesFrom]
    split
    · next hempty => simp_all
    · simp
  | cons c rest ih =>
    rw [linesFrom]
    split
    · rw [List.head?_cons, Option.getD_some]
      cases more with
      | nil =>
        cases cur with
        | nil => exact List.nil_prefix
        | cons d cur =>
          have hd : d ≠ '\r' := fun e => h (e ▸ List.mem_cons_self)
          have hended : endedLine (d :: cur) = (d :: cur).reverse := by rw [endedLine, if_neg hd]
          exact ⟨[], (List.append_nil _).trans hended.symm⟩
      | cons d more =>
        rw [List.cons_append, endedLine]
        split <;> simp
    · exact ih (c :: more)

theorem linesFrom_append {front : List Char} (h : '\n' ∉ front) (cur rest : List Char) :
    linesFrom cur (front ++ rest) = linesFrom (front.reverse ++ cur) rest := by
  induction front generalizing cur with
  | nil => rfl
  | cons c front ih =>
    rw [List.mem_cons, not_or] at h
    rw [List.cons_append, linesFrom, if_neg (Ne.symm h.1), ih h.2, List.reverse_cons,
      List.append_assoc]
    rfl

theorem prefix_firstLine {start : List Char} {text : String} (h : start <+: text.toList)
    (hnewline : '\n' ∉ start) (hreturn : '\r' ∉ start) : start <+: (firstLine text).toList := by
  obtain ⟨rest, hrest⟩ := h
  have hcur : '\r' ∉ start.reverse := by simpa using hreturn
  have hhead := prefix_head_linesFrom hcur [] rest
  rw [firstLine, String.toList_ofList, lines, ← hrest, linesFrom_append hnewline]
  simpa using hhead

end Lines

end StyleAudit.Text
