import StyleAudit.Machine.Shell.Token

/-! # Arithmetic of the shell

Integer expressions with the usual precedence. A name stands for the number that its variable holds,
and for zero when it holds none. -/

namespace StyleAudit.Machine.Shell
set_option autoImplicit false

/-- Binary operators with their precedence, longer ones first. -/
def binaryOperators : List (Octets × Nat) :=
  [("||", 1), ("&&", 2), ("==", 6), ("!=", 6), ("<<", 8), (">>", 8), ("<=", 7), (">=", 7), ("|", 3),
    ("^", 4), ("&", 5), ("<", 7), (">", 7), ("+", 9), ("-", 9), ("*", 10), ("/", 10),
    ("%", 10)].map fun e => (e.1.toList, e.2)

def binaryAt (cs : Octets) : Option (Octets × Nat) :=
  binaryOperators.find? fun e => e.1.isPrefixOf cs

def truth (b : Bool) : Int := if b then 1 else 0

/-- A value brought into the range of 64-bit words. -/
def wrapWord (n : Int) : Int := Int.bmod n 18446744073709551616

/-- The bits of a value as a natural number. -/
def bits (n : Int) : Nat := (n % 18446744073709551616).toNat

/-- The value of an operator, or `none` for a division by zero. -/
def applyBinary (op : Octets) (a b : Int) : Option Int :=
  match String.ofList op with
  | "||" => some (truth (a != 0 || b != 0))
  | "&&" => some (truth (a != 0 && b != 0))
  | "==" => some (truth (a == b))
  | "!=" => some (truth (a != b))
  | "<=" => some (truth (a ≤ b))
  | ">=" => some (truth (b ≤ a))
  | "<" => some (truth (a < b))
  | ">" => some (truth (b < a))
  | "<<" => some (wrapWord (a <<< (b.toNat % 64)))
  | ">>" => some (a >>> (b.toNat % 64))
  | "+" => some (wrapWord (a + b))
  | "-" => some (wrapWord (a - b))
  | "*" => some (wrapWord (a * b))
  | "/" => if b = 0 then none else some (a.tdiv b)
  | "%" => if b = 0 then none else some (a.tmod b)
  | "&" => some (wrapWord (bits a &&& bits b : Nat))
  | "|" => some (wrapWord (bits a ||| bits b : Nat))
  | "^" => some (wrapWord (bits a ^^^ bits b : Nat))
  | _ => none

export Text (digitValue)

/-- The longest numeral in a base at the start of a text. -/
def numeralIn (base : Nat) : Nat → Octets → Nat × Octets
  | n, [] => (n, [])
  | n, c :: cs =>
    match digitValue c with
    | some d => if d < base then numeralIn base (base * n + d) cs else (n, c :: cs)
    | none => (n, c :: cs)

/-- A numeral with the usual marks of base eight and sixteen. -/
def numeral (cs : Octets) : Nat × Octets :=
  match cs with
  | '0' :: x :: d :: rest =>
    if (x == 'x' || x == 'X') && (digitValue d).isSome then numeralIn 16 0 (d :: rest)
    else numeralIn 8 0 (x :: d :: rest)
  | '0' :: rest => numeralIn 8 0 rest
  | _ => numeralIn 10 0 cs

def skipBlanks (cs : Octets) : Octets := cs.dropWhile fun c => c == ' ' || c == '\t' || c == '\n'

/-- A signed numeral and what follows it; no digits give zero and the whole text. -/
def signedNumeral (cs : Octets) : Int × Octets :=
  match skipBlanks cs with
  | '-' :: c :: rest =>
    if c.isDigit then
      let (n, rest) := numeral (c :: rest)
      (-(n : Int), rest)
    else (0, cs)
  | '+' :: c :: rest =>
    if c.isDigit then
      let (n, rest) := numeral (c :: rest)
      ((n : Int), rest)
    else (0, cs)
  | c :: rest =>
    if c.isDigit then
      let (n, rest) := numeral (c :: rest)
      ((n : Int), rest)
    else (0, cs)
  | [] => (0, cs)

/-- What is wrong with an expression. -/
inductive ArithFault where
  | expression (what : String)
  /-- A variable does not hold a number. -/
  | number (text : Octets)

/-- An expression that is being read, and the variables it has assigned. -/
structure ArithState where
  rest : Octets
  assigned : List (Octets × Int) := []

abbrev Arith := StateT ArithState (Except ArithFault)

/-- What follows the blanks. -/
def upcoming : Arith Octets := do return skipBlanks (← get).rest

def goOn (rest : Octets) : Arith Unit := modify fun s => { s with rest }

/-- The value of a text that should be a number; no text counts as zero. -/
def numberOf (text : Octets) : Except ArithFault Int :=
  let (n, rest) := signedNumeral text
  if (skipBlanks rest).isEmpty then .ok n else .error (.number text)

/-- The operator of an assignment: nothing for a plain one, or a binary operator. -/
def assignmentAt (cs : Octets) : Option (Octets × Octets) :=
  match cs with
  | '=' :: '=' :: _ => none
  | '=' :: rest => some ([], rest)
  | _ =>
    match binaryAt cs with
    | some (op, _) =>
      match cs.drop op.length with
      | '=' :: rest =>
        if ["*", "/", "%", "+", "-", "<<", ">>", "&", "^", "|"].contains (String.ofList op) then
          some (op, rest)
        else none
      | _ => none
    | none => none

/-- Join two values. What is not evaluated cannot fail. -/
def joinValues (live : Bool) (op : Octets) (a b : Int) : Arith Int :=
  match applyBinary op a b with
  | some n => pure n
  | none => if live then throw (.expression "division by zero") else pure 0

section

variable (value : Octets → Octets)

/-- The number that a variable holds. -/
def numberIn (name : Octets) : Arith Int := do
  match (← get).assigned.find? fun a => a.1 == name with
  | some (_, n) => return n
  | none => numberOf (value name)

mutual

/-- An assignment, or an expression of operators. A part that is not `live` is only read. -/
def assignment : Nat → Bool → Arith Int
  | 0, _ => throw (.expression "expecting primary")
  | fuel + 1, live => do
    let source ← upcoming
    let named := (source.head?.map isNameStart).getD false
    let name := if named then source.takeWhile isNameChar else []
    match assignmentAt (skipBlanks (source.drop name.length)) with
    | none => choice fuel live
    | some (op, rest) =>
      if name.isEmpty then choice fuel live
      else
        goOn rest
        let right ← assignment fuel live
        if !live then return right
        let result ← if op.isEmpty then pure right
          else joinValues live op (← numberIn value name) right
        modify fun s => { s with assigned := (name, result) :: s.assigned }
        return result

def choice : Nat → Bool → Arith Int
  | 0, _ => throw (.expression "expecting primary")
  | fuel + 1, live => do
    let condition ← expression fuel live 1
    match ← upcoming with
    | '?' :: rest =>
      goOn rest
      let onTrue ← assignment fuel (live && condition != 0)
      match ← upcoming with
      | ':' :: rest =>
        goOn rest
        let onFalse ← choice fuel (live && condition == 0)
        return if condition != 0 then onTrue else onFalse
      | _ => throw (.expression "expecting ':'")
    | _ => return condition

/-- A value without binary operators. -/
def primary : Nat → Bool → Arith Int
  | 0, _ => throw (.expression "expecting primary")
  | fuel + 1, live => do
    match ← upcoming with
    | '(' :: rest =>
      goOn rest
      let n ← assignment fuel live
      match ← upcoming with
      | ')' :: rest =>
        goOn rest
        return n
      | _ => throw (.expression "expecting ')'")
    | '-' :: rest =>
      goOn rest
      return wrapWord (-(← primary fuel live))
    | '+' :: rest =>
      goOn rest
      primary fuel live
    | '!' :: rest =>
      goOn rest
      return truth ((← primary fuel live) == 0)
    | '~' :: rest =>
      goOn rest
      return -(← primary fuel live) - 1
    | c :: rest =>
      if c.isDigit then
        let (n, rest) := numeral (c :: rest)
        goOn rest
        return min n 9223372036854775807
      else if isNameStart c then
        let name := (c :: rest).takeWhile isNameChar
        goOn ((c :: rest).dropWhile isNameChar)
        if live then numberIn value name else return 0
      else throw (.expression "expecting primary")
    | [] => throw (.expression "expecting primary")

/-- An expression of operators of at least a given precedence. -/
def expression : Nat → Bool → Nat → Arith Int
  | 0, _, _ => throw (.expression "expecting primary")
  | fuel + 1, live, least => do
    let n ← primary fuel live
    operands fuel live least n

/-- The operators that follow a left operand. The right side of a logical operator is live only if
it decides. -/
def operands : Nat → Bool → Nat → Int → Arith Int
  | 0, _, _, _ => throw (.expression "expecting primary")
  | fuel + 1, live, least, left => do
    let source ← upcoming
    match binaryAt source with
    | none => return left
    | some (op, precedence) =>
      if precedence < least then return left
      else
        goOn (source.drop op.length)
        let decides := match String.ofList op with
          | "&&" => left != 0
          | "||" => left == 0
          | _ => true
        let right ← expression fuel (live && decides) (precedence + 1)
        operands fuel live least (← joinValues live op left right)

end

/-- The value of an expression and the variables it assigns, last assignment first. -/
def evaluate (source : Octets) : Except ArithFault (Int × List (Octets × Int)) :=
  if (skipBlanks source).isEmpty then .ok (0, [])
  else do
    let (n, s) ← (assignment value (4 * source.length + 8) true).run { rest := source }
    if (skipBlanks s.rest).isEmpty then return (n, s.assigned)
    else throw (.expression "expecting EOF")

end

/-- The message about an expression. -/
def ArithFault.message (source : Octets) : ArithFault → String
  | .expression what => "arithmetic expression: " ++ what ++ ": \"" ++ Octets.toText source ++ "\""
  | .number text => "Illegal number: " ++ Octets.toText text

end StyleAudit.Machine.Shell
