import Mathlib.Data.List.Find
import Mathlib.Tactic.FinCases
import StyleAudit.Machine.Shell.State
import StyleAudit.Proofs.Readers
import StyleAudit.Proofs.Text

/-!
# Arithmetic expressions

Written expressions, their values, and the reading of them. An operand stands in parentheses, so the
text of an expression does not depend on precedence. The right side of a logical operator and the
branches of a choice are read even when they do not count, and then no division by zero is a fault.
-/

namespace StyleAudit.Machine.Shell
set_option autoImplicit false

section Numerals

/-- What may follow an expression in parentheses or in a choice. -/
def Closes (rest : Octets) : Prop := ∀ c ∈ rest.head?, c = ')' ∨ c = ':'

theorem numeralIn_digits {base : Nat} {ds rest : Octets}
    (hds : ∀ d ∈ ds, ∃ v, digitValue d = some v ∧ v < base)
    (hrest : ∀ c ∈ rest.head?, digitValue c = none) (n : Nat) :
    numeralIn base n (ds ++ rest) =
      (ds.foldl (fun n d => base * n + (digitValue d).getD 0) n, rest) := by
  induction ds generalizing n with
  | nil =>
    cases rest with
    | nil => rfl
    | cons c more =>
      rw [List.nil_append, numeralIn, hrest c rfl]
      rfl
  | cons d more ih =>
    obtain ⟨v, hv, hlt⟩ := hds d List.mem_cons_self
    rw [List.cons_append, numeralIn, hv]
    simp only [hlt, if_true]
    rw [ih fun d hd => hds d (List.mem_cons_of_mem _ hd), List.foldl_cons, hv]
    rfl

def decimals : List Char := ['0', '1', '2', '3', '4', '5', '6', '7', '8', '9']

theorem exists_toDigits (n : Nat) : ∃ c more, Nat.toDigits 10 n = c :: more ∧
    c ∈ decimals ∧ (c = '0' → n = 0 ∧ more = []) := by
  induction n using Nat.strongRecOn with
  | ind n ih =>
    by_cases hn : n < 10
    · have hall : ∀ n < 10, Nat.digitChar n ∈ decimals ∧
          (Nat.digitChar n = '0' → n = 0) := by decide
      obtain ⟨hdigit, hzero⟩ := hall n hn
      exact ⟨n.digitChar, [], Nat.toDigits_of_lt_base hn, hdigit, fun h => ⟨hzero h, rfl⟩⟩
    · obtain ⟨c, more, hfront, hdigit, hzero⟩ := ih (n / 10) (by omega)
      refine ⟨c, more ++ [(n % 10).digitChar], ?_, hdigit, fun h => ?_⟩
      · rw [Nat.toDigits_of_base_le (by omega) (by omega), hfront, List.cons_append]
      · have hsmall := (hzero h).1
        omega

theorem numeral_toDigits (n : Nat) {rest : Octets} (hrest : Closes rest) :
    numeral (Nat.toDigits 10 n ++ rest) = (n, rest) := by
  have hstop : ∀ c ∈ rest.head?, digitValue c = none := by
    intro c hc
    rcases hrest c hc with rfl | rfl <;> rfl
  obtain ⟨c, more, hdigits, -, hzero⟩ := exists_toDigits n
  by_cases hc : c = '0'
  · obtain ⟨rfl, rfl⟩ := hzero hc
    cases rest with
    | nil => rfl
    | cons d more =>
      rcases hrest d rfl with rfl | rfl <;> cases more <;> rfl
  · have hds : ∀ d ∈ Nat.toDigits 10 n, ∃ v, digitValue d = some v ∧ v < 10 := by
      intro d hd
      have hascii := Text.isAsciiDigit_of_mem_toDigits hd
      obtain ⟨hlow, hhigh⟩ := Text.isAsciiDigit_iff.mp hascii
      exact ⟨d.toNat - 48, Text.digitValue_of_isAsciiDigit hascii, by omega⟩
    have hread := numeralIn_digits hds hstop 0
    have hvalue : Text.valueIn 10 (Nat.toDigits 10 n) = n :=
      Text.valueIn_toDigits (by omega) (by omega) n
    rw [Text.valueIn] at hvalue
    rw [hvalue] at hread
    rw [hdigits] at hread ⊢
    rw [← hread, numeral.eq_def]
    simp [hc]

end Numerals

section Expressions

/-- Expressions whose operands stand in parentheses. -/
inductive Expression where
  | number (n : Nat)
  | negate (e : Expression)
  | complement (e : Expression)
  | isZero (e : Expression)
  | binary (op : Octets × Nat) (known : op ∈ binaryOperators) (left right : Expression)
  | choice (condition onTrue onFalse : Expression)

def grouped (cs : Octets) : Octets := '(' :: (cs ++ [')'])

@[simp]
theorem length_grouped (cs : Octets) : (grouped cs).length = cs.length + 2 := by
  rw [grouped, List.length_cons, List.length_append]
  rfl

/-- The right side of a logical operator counts only if the left side leaves the result open. -/
def counts (op : Octets) (left : Int) : Bool :=
  match String.ofList op with
  | "&&" => left != 0
  | "||" => left == 0
  | _ => true

namespace Expression

def chars : Expression → Octets
  | .number n => Nat.toDigits 10 n
  | .negate e => '-' :: grouped e.chars
  | .complement e => '~' :: grouped e.chars
  | .isZero e => '!' :: grouped e.chars
  | .binary op _ left right => grouped left.chars ++ (op.1 ++ grouped right.chars)
  | .choice condition onTrue onFalse =>
    grouped condition.chars ++ '?' :: (grouped onTrue.chars ++ ':' :: grouped onFalse.chars)

/-- The value of an expression, unless something in it that counts is divided by zero. -/
def value : Expression → Option Int
  | .number n => some (min n 9223372036854775807)
  | .negate e => e.value.map fun n => wrapWord (-n)
  | .complement e => e.value.map fun n => -n - 1
  | .isZero e => e.value.map fun n => truth (n == 0)
  | .binary op _ left right => left.value.bind fun x =>
    if counts op.1 x then right.value.bind (applyBinary op.1 x) else some (truth (x != 0))
  | .choice condition onTrue onFalse => condition.value.bind fun x =>
    if x != 0 then onTrue.value else onFalse.value

end Expression

/-- Only a division by zero has no value. -/
def divided : Option Int → Except ArithFault Int
  | some n => .ok n
  | none => .error (.expression "division by zero")

/-- Two values joined. What is not live cannot fail. -/
def joined (live : Bool) (op : Octets) (a b : Int) : Except ArithFault Int :=
  if live then divided (applyBinary op a b) else .ok ((applyBinary op a b).getD 0)

/-- What the reading of an expression leaves. Parts that are not live are read as well. -/
def Expression.outcome (live : Bool) : Expression → Except ArithFault Int
  | .number n => .ok (min n 9223372036854775807)
  | .negate e => (e.outcome live).map fun n => wrapWord (-n)
  | .complement e => (e.outcome live).map fun n => -n - 1
  | .isZero e => (e.outcome live).map fun n => truth (n == 0)
  | .binary op _ left right => do
    let x ← left.outcome live
    let y ← right.outcome (live && counts op.1 x)
    joined live op.1 x y
  | .choice condition onTrue onFalse => do
    let x ← condition.outcome live
    let y ← onTrue.outcome (live && x != 0)
    let z ← onFalse.outcome (live && x == 0)
    return if x != 0 then y else z

/-- What is not live is read without a fault. -/
theorem exists_outcome_false (e : Expression) : ∃ n, e.outcome false = .ok n := by
  induction e with
  | number n => exact ⟨_, rfl⟩
  | negate e ih | complement e ih | isZero e ih =>
    obtain ⟨n, hn⟩ := ih
    rw [Expression.outcome, hn]
    exact ⟨_, rfl⟩
  | binary op known left right ihl ihr =>
    obtain ⟨x, hx⟩ := ihl
    obtain ⟨y, hy⟩ := ihr
    rw [Expression.outcome, hx]
    change ∃ n, (right.outcome (false && counts op.1 x) >>= joined false op.1 x) = .ok n
    rw [Bool.false_and, hy]
    exact ⟨_, rfl⟩
  | choice condition onTrue onFalse ihc iht ihf =>
    obtain ⟨x, hx⟩ := ihc
    obtain ⟨y, hy⟩ := iht
    obtain ⟨z, hz⟩ := ihf
    rw [Expression.outcome, hx]
    change ∃ n, (onTrue.outcome (false && x != 0) >>= fun y =>
      onFalse.outcome (false && x == 0) >>= fun z => pure (if x != 0 then y else z)) = .ok n
    rw [Bool.false_and, Bool.false_and, hy, hz]
    exact ⟨_, rfl⟩

/-- A right side that does not count has no influence. -/
theorem applyBinary_skipped {op : Octets} {x : Int} (h : counts op x = false) (y : Int) :
    applyBinary op x y = some (truth (x != 0)) := by
  rw [counts] at h
  split at h
  · next hop =>
    rw [applyBinary, hop]
    simp only [h, Bool.false_and]
  · next hop =>
    have hne : (x != 0) = true := by rw [bne, h, Bool.not_false]
    rw [applyBinary, hop]
    simp only [hne, Bool.true_or]
  · cases h

/-- The outcome of an expression is its value. -/
theorem outcome_true (e : Expression) : e.outcome true = divided e.value := by
  induction e with
  | number n => rfl
  | negate e ih | complement e ih | isZero e ih =>
    rw [Expression.outcome, Expression.value, ih]
    cases e.value <;> rfl
  | binary op known left right ihl ihr =>
    rw [Expression.outcome, Expression.value, ihl]
    cases left.value with
    | none => rfl
    | some x =>
      change (right.outcome (true && counts op.1 x) >>= joined true op.1 x) = _
      rw [Bool.true_and, Option.bind_some]
      cases hcounts : counts op.1 x with
      | true =>
        rw [ihr, if_pos rfl]
        cases right.value with
        | none => rfl
        | some y => rfl
      | false =>
        obtain ⟨y, hy⟩ := exists_outcome_false right
        rw [hy, if_neg Bool.false_ne_true]
        change divided (applyBinary op.1 x y) = _
        rw [applyBinary_skipped hcounts]
  | choice condition onTrue onFalse ihc iht ihf =>
    rw [Expression.outcome, Expression.value, ihc]
    cases condition.value with
    | none => rfl
    | some x =>
      change (onTrue.outcome (true && x != 0) >>= fun y =>
        onFalse.outcome (true && x == 0) >>= fun z => pure (if x != 0 then y else z)) = _
      rw [Option.bind_some, Bool.true_and, Bool.true_and, bne]
      cases x == 0 with
      | true =>
        obtain ⟨y, hy⟩ := exists_outcome_false onTrue
        rw [Bool.not_true, hy, ihf]
        cases onFalse.value <;> rfl
      | false =>
        obtain ⟨z, hz⟩ := exists_outcome_false onFalse
        rw [Bool.not_false, hz, iht]
        cases onTrue.value <;> rfl

end Expressions

section Reading
variable (value : Octets → Octets) {assigned : List (Octets × Int)} {rest : Octets}

/-- The characters that operators start with. -/
def operatorStarts : Octets := "|&=!<>^+-*/%".toList

theorem binaryAt_other {c : Char} (h : c ∉ operatorStarts) (more : Octets) :
    binaryAt (c :: more) = none := by
  have hall : binaryOperators.all (fun o =>
      (o.1.head?.map operatorStarts.contains).getD false) = true := rfl
  rw [binaryAt, List.find?_eq_none]
  intro o ho hstart
  have hone := List.all_eq_true.mp hall o ho
  cases hop : o.1 with
  | nil =>
    rw [hop] at hone
    cases hone
  | cons d ds =>
    rw [hop, List.isPrefixOf_cons_cons, Bool.and_eq_true, beq_iff_eq] at hstart
    rw [hop, hstart.1] at hone
    exact h (List.contains_iff_mem.mp hone)

theorem isPrefixOf_append_paren {p : Octets} (h : '(' ∉ p) (cs more : Octets) :
    p.isPrefixOf (cs ++ '(' :: more) = p.isPrefixOf cs := by
  induction p generalizing cs with
  | nil => rfl
  | cons c ps ih =>
    rw [List.mem_cons, not_or] at h
    cases cs with
    | nil =>
      have hne : (c == '(') = false := beq_eq_false_iff_ne.mpr (Ne.symm h.1)
      rw [List.nil_append, List.isPrefixOf_cons_cons, hne]
      rfl
    | cons d ds =>
      rw [List.cons_append, List.isPrefixOf_cons_cons, List.isPrefixOf_cons_cons, ih h.2]

/-- An operator before a parenthesis is found. -/
theorem binaryAt_operator {op : Octets × Nat} (h : op ∈ binaryOperators) (more : Octets) :
    binaryAt (op.1 ++ '(' :: more) = some op := by
  have hparen : binaryOperators.all (fun o => !o.1.contains '(') = true := rfl
  have hfind : binaryOperators.all (fun o =>
      binaryOperators.find? (fun e => e.1.isPrefixOf o.1) == some o) = true := rfl
  have hsame : ∀ e ∈ binaryOperators,
      e.1.isPrefixOf (op.1 ++ '(' :: more) = e.1.isPrefixOf op.1 := by
    intro e he
    have hnot := List.all_eq_true.mp hparen e he
    rw [Bool.not_eq_true', ← Bool.not_eq_true, List.contains_iff_mem] at hnot
    exact isPrefixOf_append_paren hnot op.1 more
  rw [binaryAt, List.find?_congr hsame]
  exact beq_iff_eq.mp (List.all_eq_true.mp hfind op h)

theorem upcoming_eq (s : ArithState) : upcoming s = .ok (skipBlanks s.rest, s) := rfl

theorem goOn_bind {β : Type} (k : Unit → Arith β) (cs : Octets) (s : ArithState) :
    (goOn cs >>= k) s = k () { s with rest := cs } := rfl

theorem skipBlanks_cons {c : Char} (h : c ≠ ' ' ∧ c ≠ '\t' ∧ c ≠ '\n') (more : Octets) :
    skipBlanks (c :: more) = c :: more := by
  rw [skipBlanks, List.dropWhile_cons_of_neg]
  simp [h]

theorem skipBlanks_closes (h : Closes rest) : skipBlanks rest = rest := by
  cases rest with
  | nil => rfl
  | cons c more =>
    rcases h c rfl with rfl | rfl <;> rfl

theorem binaryAt_closes (h : Closes rest) : binaryAt (skipBlanks rest) = none := by
  rw [skipBlanks_closes h]
  cases rest with
  | nil => rfl
  | cons c more =>
    rcases h c rfl with rfl | rfl <;> exact binaryAt_other (by decide) more

/-- The reading of an expression that stands before something. -/
def Expression.IsRead (e : Expression) : Prop :=
  ∀ {live : Bool} {fuel : Nat} {rest : Octets} {assigned : List (Octets × Int)},
    Closes rest → 4 * e.chars.length ≤ fuel →
      assignment value fuel live ⟨e.chars ++ rest, assigned⟩ =
        (e.outcome live).map fun n => (n, ⟨rest, assigned⟩)

theorem primary_grouped {e : Expression} (h : e.IsRead value) {live : Bool} {fuel : Nat}
    (hfuel : 4 * e.chars.length ≤ fuel) :
    primary value (fuel + 1) live ⟨grouped e.chars ++ rest, assigned⟩ =
      (e.outcome live).map fun n => (n, ⟨rest, assigned⟩) := by
  have hinner : e.chars ++ [')'] ++ rest = e.chars ++ ')' :: rest := by
    rw [List.append_assoc]
    rfl
  have hread : assignment value fuel live ⟨e.chars ++ [')'] ++ rest, assigned⟩ =
      (e.outcome live).map fun n => (n, ⟨')' :: rest, assigned⟩) := by
    rw [hinner]
    refine h ?_ hfuel
    rintro _ ⟨⟩
    exact .inl rfl
  rw [primary]
  refine (bind_ok (upcoming_eq _)).trans ?_
  refine (goOn_bind _ _ _).trans ?_
  refine (bind_of_map hread _).trans ?_
  cases e.outcome live with
  | error fault => rfl
  | ok n => rfl

theorem operands_end (h : binaryAt (skipBlanks rest) = none) (live : Bool) (fuel least : Nat)
    (left : Int) : operands value (fuel + 1) live least left ⟨rest, assigned⟩ =
      .ok (left, ⟨rest, assigned⟩) := by
  rw [operands]
  refine (bind_ok (upcoming_eq _)).trans ?_
  rw [h]
  rfl

theorem assignment_unnamed {c : Char} {more : Octets}
    (hblank : c ≠ ' ' ∧ c ≠ '\t' ∧ c ≠ '\n') (hname : isNameStart c = false) (live : Bool)
    (fuel : Nat) : assignment value (fuel + 1) live ⟨c :: more, assigned⟩ =
      choice value fuel live ⟨c :: more, assigned⟩ := by
  have hstart : (((c :: more).head?.map isNameStart).getD false) = false := hname
  rw [assignment]
  refine (bind_ok (upcoming_eq _)).trans ?_
  simp only [skipBlanks_cons hblank, hstart, Bool.false_eq_true, if_false]
  cases assignmentAt (skipBlanks ((c :: more).drop ([] : Octets).length)) <;> rfl

/-- A primary that no operator follows is an expression. -/
theorem expression_of_primary {cs : Octets} {x : Except ArithFault Int} {fuel : Nat} {live : Bool}
    (hrest : binaryAt (skipBlanks rest) = none)
    (h : primary value (fuel + 1) live ⟨cs, assigned⟩ = x.map fun n => (n, ⟨rest, assigned⟩))
    (least : Nat) : expression value (fuel + 2) live least ⟨cs, assigned⟩ =
      x.map fun n => (n, ⟨rest, assigned⟩) := by
  rw [expression]
  refine (bind_of_map h _).trans ?_
  cases x with
  | error fault => rfl
  | ok n => exact operands_end value hrest live fuel least n

theorem choice_closes {cs : Octets} {x : Except ArithFault Int} {fuel : Nat} {live : Bool}
    (hrest : Closes rest)
    (h : expression value fuel live 1 ⟨cs, assigned⟩ = x.map fun n => (n, ⟨rest, assigned⟩)) :
    choice value (fuel + 1) live ⟨cs, assigned⟩ = x.map fun n => (n, ⟨rest, assigned⟩) := by
  rw [choice]
  refine (bind_of_map h _).trans ?_
  cases x with
  | error fault => rfl
  | ok n =>
    refine (bind_ok (upcoming_eq _)).trans ?_
    rw [skipBlanks_closes hrest]
    cases rest with
    | nil => rfl
    | cons c more =>
      rcases hrest c rfl with rfl | rfl <;> rfl

theorem joinValues_eq (live : Bool) (op : Octets) (a b : Int) (s : ArithState) :
    joinValues live op a b s = (joined live op a b).map fun n => (n, s) := by
  rw [joinValues, joined]
  cases applyBinary op a b <;> cases live <;> rfl

/-- A primary at the end is a choice without branches. -/
theorem choice_of_primary {cs : Octets} {x : Except ArithFault Int} {fuel : Nat} {live : Bool}
    (hrest : Closes rest)
    (h : primary value (fuel + 1) live ⟨cs, assigned⟩ = x.map fun n => (n, ⟨rest, assigned⟩)) :
    choice value (fuel + 3) live ⟨cs, assigned⟩ = x.map fun n => (n, ⟨rest, assigned⟩) :=
  choice_closes value hrest (expression_of_primary value (binaryAt_closes hrest) h 1)

/-- A primary at the end is all of an expression. -/
theorem assignment_of_primary {c : Char} {more : Octets}
    (hblank : c ≠ ' ' ∧ c ≠ '\t' ∧ c ≠ '\n') (hname : isNameStart c = false)
    {x : Except ArithFault Int} {fuel : Nat} {live : Bool} (hrest : Closes rest)
    (h : primary value (fuel + 1) live ⟨c :: more, assigned⟩ =
      x.map fun n => (n, ⟨rest, assigned⟩)) :
    assignment value (fuel + 4) live ⟨c :: more, assigned⟩ =
      x.map fun n => (n, ⟨rest, assigned⟩) :=
  (assignment_unnamed value hblank hname live (fuel + 3)).trans (choice_of_primary value hrest h)

theorem grouped_append (cs more : Octets) : grouped cs ++ more = '(' :: (cs ++ ')' :: more) := by
  rw [grouped, List.cons_append, List.append_assoc]
  rfl

theorem skipBlanks_operator {op : Octets × Nat} (h : op ∈ binaryOperators) (more : Octets) :
    skipBlanks (op.1 ++ more) = op.1 ++ more := by
  have hall : binaryOperators.all (fun o => o.1.head?.any fun c =>
      !(c == ' ' || c == '\t' || c == '\n')) = true := rfl
  have hone := List.all_eq_true.mp hall op h
  cases hop : op.1 with
  | nil =>
    rw [hop] at hone
    cases hone
  | cons c cs =>
    rw [hop, List.head?_cons, Option.any_some, Bool.not_eq_true'] at hone
    rw [List.cons_append, skipBlanks, List.dropWhile_cons, hone]
    rfl

/-- An operator is followed by its right side and by more operators. -/
theorem operands_operator {op : Octets × Nat} (h : op ∈ binaryOperators) (live : Bool)
    (fuel : Nat) (left : Int) (more : Octets) :
    operands value (fuel + 1) live 1 left ⟨op.1 ++ '(' :: more, assigned⟩ =
      (expression value fuel (live && counts op.1 left) (op.2 + 1) >>= fun right =>
        joinValues live op.1 left right >>= operands value fuel live 1)
        ⟨'(' :: more, assigned⟩ := by
  have hall : binaryOperators.all (fun o => decide (1 ≤ o.2)) = true := rfl
  have hprecedence : 1 ≤ op.2 := of_decide_eq_true (List.all_eq_true.mp hall op h)
  rw [operands]
  refine (bind_ok (upcoming_eq _)).trans ?_
  rw [skipBlanks_operator h, binaryAt_operator h]
  simp only [Nat.not_lt.mpr hprecedence, if_false, List.drop_left]
  rfl

/-- The reading of an expression with an operator. -/
theorem expression_binary {op : Octets × Nat} (h : op ∈ binaryOperators) {left right : Expression}
    (hleft : left.IsRead value) (hright : right.IsRead value) (hrest : Closes rest) {live : Bool}
    {fuel : Nat} (hl : 4 * left.chars.length ≤ fuel + 2) (hr : 4 * right.chars.length ≤ fuel) :
    expression value (fuel + 4) live 1
        ⟨grouped left.chars ++ (op.1 ++ (grouped right.chars ++ rest)), assigned⟩ =
      ((Expression.binary op h left right).outcome live).map fun n => (n, ⟨rest, assigned⟩) := by
  have hend := binaryAt_closes hrest
  rw [expression, Expression.outcome]
  refine (bind_of_map (primary_grouped value hleft hl) _).trans ?_
  cases left.outcome live with
  | error fault => rfl
  | ok x =>
    have hside : expression value (fuel + 2) (live && counts op.1 x) (op.2 + 1)
          ⟨grouped right.chars ++ rest, assigned⟩ =
        (right.outcome (live && counts op.1 x)).map fun n => (n, ⟨rest, assigned⟩) :=
      expression_of_primary value hend (primary_grouped value hright hr) _
    rw [grouped_append] at hside ⊢
    refine (operands_operator value h live _ x _).trans ?_
    refine (bind_of_map hside _).trans ?_
    change _ = Except.map _ (right.outcome (live && counts op.1 x) >>= joined live op.1 x)
    cases right.outcome (live && counts op.1 x) with
    | error fault => rfl
    | ok y =>
      refine (bind_of_map (joinValues_eq live op.1 x y _) _).trans ?_
      change _ = (joined live op.1 x y).map _
      cases joined live op.1 x y with
      | error fault => rfl
      | ok n => exact operands_end value hend live _ 1 n

theorem assignment_of_grouped {e : Expression} (h : e.IsRead value) (hrest : Closes rest)
    {live : Bool} {fuel : Nat} (hfuel : 4 * e.chars.length ≤ fuel) :
    assignment value (fuel + 4) live ⟨grouped e.chars ++ rest, assigned⟩ =
      (e.outcome live).map fun n => (n, ⟨rest, assigned⟩) :=
  assignment_of_primary value (by decide) rfl hrest (primary_grouped value h hfuel)

/-- The reading of an expression with two branches. -/
theorem choice_branches {condition onTrue onFalse : Expression} (hc : condition.IsRead value)
    (ht : onTrue.IsRead value) (hf : onFalse.IsRead value) (hrest : Closes rest) {live : Bool}
    {fuel : Nat} (hcfuel : 4 * condition.chars.length ≤ fuel + 2)
    (htfuel : 4 * onTrue.chars.length ≤ fuel) (hffuel : 4 * onFalse.chars.length ≤ fuel + 1) :
    choice value (fuel + 5) live ⟨grouped condition.chars ++
        '?' :: (grouped onTrue.chars ++ ':' :: (grouped onFalse.chars ++ rest)), assigned⟩ =
      ((Expression.choice condition onTrue onFalse).outcome live).map
        fun n => (n, ⟨rest, assigned⟩) := by
  have hmark (more : Octets) : binaryAt (skipBlanks ('?' :: more)) = none :=
    binaryAt_other (by decide) more
  have hcolon (more : Octets) : Closes (':' :: more) := by
    rintro _ ⟨⟩
    exact .inr rfl
  rw [choice, Expression.outcome]
  refine (bind_of_map (expression_of_primary value (hmark _)
    (primary_grouped value hc hcfuel) 1) _).trans ?_
  cases condition.outcome live with
  | error fault => rfl
  | ok x =>
    refine (bind_ok (upcoming_eq _)).trans ?_
    refine (goOn_bind _ _ _).trans ?_
    refine (bind_of_map (assignment_of_grouped value ht (hcolon _) htfuel) _).trans ?_
    change _ = Except.map _ (onTrue.outcome (live && x != 0) >>= _)
    cases onTrue.outcome (live && x != 0) with
    | error fault => rfl
    | ok y =>
      refine (bind_ok (upcoming_eq _)).trans ?_
      refine (goOn_bind _ _ _).trans ?_
      refine (bind_of_map (choice_of_primary value hrest
        (primary_grouped value hf hffuel)) _).trans ?_
      change _ = Except.map _ (onFalse.outcome (live && x == 0) >>= _)
      cases onFalse.outcome (live && x == 0) with
      | error fault => rfl
      | ok z => rfl

theorem digit_opens {c : Char} (h : c ∈ decimals) :
    (c ≠ ' ' ∧ c ≠ '\t' ∧ c ≠ '\n') ∧ isNameStart c = false := by
  rw [decimals] at h
  fin_cases h <;> exact ⟨by decide, rfl⟩

theorem primary_digit {c : Char} (h : c ∈ decimals) (fuel : Nat) (live : Bool)
    (more : Octets) : primary value (fuel + 1) live ⟨c :: more, assigned⟩ =
      .ok (min ((numeral (c :: more)).1 : Int) 9223372036854775807,
        ⟨(numeral (c :: more)).2, assigned⟩) := by
  rw [decimals] at h
  rw [primary]
  fin_cases h <;> rfl

/-- Every expression is read as what it stands for. -/
theorem Expression.isRead (e : Expression) : e.IsRead value := by
  -- From an assignment down to a primary are four steps; each pair of parentheses pays for eight.
  induction e with
  | number n =>
    intro live fuel rest assigned hrest hfuel
    obtain ⟨c, more, hdigits, hc, -⟩ := exists_toDigits n
    rw [Expression.chars, hdigits, List.length_cons] at hfuel
    obtain ⟨k, rfl⟩ : ∃ k, fuel = k + 4 := ⟨fuel - 4, by omega⟩
    have hnumeral : numeral (c :: (more ++ rest)) = (n, rest) := by
      rw [← List.cons_append, ← hdigits]
      exact numeral_toDigits n hrest
    obtain ⟨hblank, hname⟩ := digit_opens hc
    rw [Expression.chars, hdigits]
    refine assignment_of_primary value hblank hname hrest ?_
    refine (primary_digit value hc k live (more ++ rest)).trans ?_
    rw [hnumeral]
    rfl
  | negate e ih | complement e ih | isZero e ih =>
    intro live fuel rest assigned hrest hfuel
    simp only [Expression.chars, List.length_cons, length_grouped] at hfuel
    obtain ⟨k, rfl⟩ : ∃ k, fuel = k + 5 := ⟨fuel - 5, by omega⟩
    refine assignment_of_primary value (by decide) rfl hrest ?_
    rw [primary]
    refine (bind_ok (upcoming_eq _)).trans ?_
    refine (goOn_bind _ _ _).trans ?_
    refine (bind_of_map (primary_grouped value ih (by omega)) _).trans ?_
    rw [Expression.outcome]
    cases e.outcome live <;> rfl
  | binary op known left right ihl ihr =>
    intro live fuel rest assigned hrest hfuel
    simp only [Expression.chars, List.length_append, length_grouped] at hfuel
    obtain ⟨k, rfl⟩ : ∃ k, fuel = k + 6 := ⟨fuel - 6, by omega⟩
    have hchars : (Expression.binary op known left right).chars ++ rest =
        grouped left.chars ++ (op.1 ++ (grouped right.chars ++ rest)) := by
      rw [Expression.chars, List.append_assoc, List.append_assoc]
    rw [hchars]
    refine (assignment_unnamed value (by decide) rfl live (k + 5)).trans ?_
    exact choice_closes value hrest
      (expression_binary value known ihl ihr hrest (by omega) (by omega))
  | choice condition onTrue onFalse ihc iht ihf =>
    intro live fuel rest assigned hrest hfuel
    simp only [Expression.chars, List.length_append, List.length_cons, length_grouped] at hfuel
    obtain ⟨k, rfl⟩ : ∃ k, fuel = k + 6 := ⟨fuel - 6, by omega⟩
    have hchars : (Expression.choice condition onTrue onFalse).chars ++ rest =
        grouped condition.chars ++
          '?' :: (grouped onTrue.chars ++ ':' :: (grouped onFalse.chars ++ rest)) := by
      rw [Expression.chars, List.append_assoc, List.cons_append, List.append_assoc,
        List.cons_append]
    rw [hchars]
    refine (assignment_unnamed value (by decide) rfl live (k + 5)).trans ?_
    exact choice_branches value ihc iht ihf hrest (by omega) (by omega) (by omega)

theorem exists_chars (e : Expression) : ∃ c more, e.chars = c :: more ∧
    c ≠ ' ' ∧ c ≠ '\t' ∧ c ≠ '\n' := by
  cases e with
  | number n =>
    obtain ⟨c, more, hdigits, hc, -⟩ := exists_toDigits n
    exact ⟨c, more, hdigits, (digit_opens hc).1⟩
  | negate _ | complement _ | isZero _ | binary _ _ _ _ | choice _ _ _ =>
    exact ⟨_, _, rfl, by decide⟩

/-- An expression is evaluated to its value. A division by zero in a part that counts is the only
fault. -/
theorem evaluate_chars (e : Expression) :
    evaluate value e.chars = (divided e.value).map fun n => (n, []) := by
  obtain ⟨c, more, hchars, hblank⟩ := exists_chars e
  have hread : assignment value (4 * e.chars.length + 8) true ⟨e.chars ++ [], []⟩ =
      (e.outcome true).map fun n => (n, ⟨[], []⟩) := e.isRead value nofun (by omega)
  rw [List.append_nil] at hread
  have hempty : (skipBlanks e.chars).isEmpty = false := by
    rw [hchars, skipBlanks_cons hblank]
    rfl
  rw [evaluate, hempty, if_neg Bool.false_ne_true]
  change (assignment value (4 * e.chars.length + 8) true ⟨e.chars, []⟩ >>= _) = _
  rw [hread, outcome_true]
  cases e.value <;> rfl

end Reading

end StyleAudit.Machine.Shell
