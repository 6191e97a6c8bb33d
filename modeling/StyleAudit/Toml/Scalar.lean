import StyleAudit.Text.Digits
import StyleAudit.Toml.Value

/-! # Unquoted TOML values

Booleans, numbers and dates. Only the form of a number is kept, but an integer must fit in 128 bits,
and a float must not exceed the largest one with 53 bits of precision and exponents up to 1023. -/

namespace StyleAudit.Toml
set_option autoImplicit false

open Text

def isHex (c : Char) : Bool := (digitValue c).isSome

/-- Digits with single underscores between them. `afterDigit` says that the character before was a
digit. -/
def digitRun (isDigit : Char → Bool) : Bool → List Char → Bool
  | afterDigit, [] => afterDigit
  | afterDigit, c :: cs =>
    if c == '_' then afterDigit && digitRun isDigit false cs
    else isDigit c && digitRun isDigit true cs

def dropSign : List Char → List Char
  | '+' :: cs => cs
  | '-' :: cs => cs
  | cs => cs

/-- A decimal integer without sign: no zero in front of other digits. -/
def isPlainDecimal (cs : List Char) : Bool :=
  digitRun Char.isDigit false cs && (cs.head? != some '0' || cs == ['0'])

def isInteger (cs : List Char) : Bool :=
  match cs with
  | '0' :: 'x' :: ds => digitRun isHex false ds
  | '0' :: 'o' :: ds => digitRun (fun c => '0' ≤ c && c ≤ '7') false ds
  | '0' :: 'b' :: ds => digitRun (fun c => c == '0' || c == '1') false ds
  | _ => isPlainDecimal (dropSign cs)

def isExponentMark (c : Char) : Bool := c == 'e' || c == 'E'

/-- A fraction, an exponent or both after the integer part. -/
def isFloat (cs : List Char) : Bool :=
  let body := dropSign cs
  if body == "inf".toList || body == "nan".toList then true
  else
    let whole := body.takeWhile fun c => c != '.' && !isExponentMark c
    let rest := body.dropWhile fun c => c != '.' && !isExponentMark c
    let exponent := fun (es : List Char) =>
      match es with
      | _ :: ds => digitRun Char.isDigit false (dropSign ds)
      | [] => true
    isPlainDecimal whole &&
      match rest with
      | '.' :: more =>
        digitRun Char.isDigit false (more.takeWhile fun c => !isExponentMark c) &&
          exponent (more.dropWhile fun c => !isExponentMark c)
      | [] => false
      | es => exponent es

/-- The number that digits with underscores between them stand for. -/
def digitsValue (base : Nat) (ds : List Char) : Nat := valueIn base (ds.filter (· != '_'))

/-- An integer lies in the range of signed or of unsigned numbers of 128 bits. -/
def integerFits (cs : List Char) : Bool :=
  match cs with
  | '0' :: 'x' :: ds => digitsValue 16 ds < Nat.pow 2 128
  | '0' :: 'o' :: ds => digitsValue 8 ds < Nat.pow 2 128
  | '0' :: 'b' :: ds => digitsValue 2 ds < Nat.pow 2 128
  | '-' :: ds => digitsValue 10 ds ≤ Nat.pow 2 127
  | _ => digitsValue 10 (dropSign cs) < Nat.pow 2 128

/-- `digits * 10 ^ exponent` does not round up beyond the largest float. Numbers of more than 400
places or of less than 300 are decided by their size alone. -/
def decimalFits (digits : Nat) (exponent : Int) : Bool :=
  let places := exponent + (Nat.toDigits 10 digits).length
  if digits == 0 || places < 300 then true
  else if 400 < places then false
  else digits * Nat.pow 10 exponent.toNat <
    (Nat.pow 2 1024 - Nat.pow 2 970) * Nat.pow 10 (-exponent).toNat

/-- A float stays below the point from which numbers round to infinity. -/
def floatFits (cs : List Char) : Bool :=
  let body := dropSign cs
  let number := body.takeWhile fun c => !isExponentMark c
  let exponent := (body.dropWhile fun c => !isExponentMark c).tail
  let places := ((number.dropWhile (· != '.')).tail.filter (· != '_')).length
  let shift : Int := digitsValue 10 (dropSign exponent)
  let shift := if exponent.head? == some '-' then -shift else shift
  body == "inf".toList || body == "nan".toList ||
    decimalFits (digitsValue 10 (number.filter (· != '.'))) (shift - places)

/-- The value of exactly `n` digits at the start of a text, and the rest. -/
def fixedDigits (n : Nat) (cs : List Char) : Option (Nat × List Char) :=
  let ds := cs.take n
  if ds.length == n && ds.all Char.isDigit then
    some (valueIn 10 ds, cs.drop n)
  else none

def daysIn (year month : Nat) : Nat :=
  if month == 2 then
    if year % 4 == 0 && (year % 100 != 0 || year % 400 == 0) then 29 else 28
  else if [4, 6, 9, 11].contains month then 30
  else 31

/-- Drop a date in front. -/
def dropDate (cs : List Char) : Option (List Char) := do
  let (year, cs) ← fixedDigits 4 cs
  let ('-' :: cs) := cs | none
  let (month, cs) ← fixedDigits 2 cs
  let ('-' :: cs) := cs | none
  let (day, cs) ← fixedDigits 2 cs
  if 1 ≤ month && month ≤ 12 && 1 ≤ day && day ≤ daysIn year month then some cs else none

/-- Drop a time of day in front. Seconds may be missing. -/
def dropTime (cs : List Char) : Option (List Char) := do
  let (hour, cs) ← fixedDigits 2 cs
  let (':' :: cs) := cs | none
  let (minute, cs) ← fixedDigits 2 cs
  if 23 < hour || 59 < minute then none
  else match cs with
    | ':' :: more => do
      let (second, cs) ← fixedDigits 2 more
      if 60 < second then none
      else match cs with
        | '.' :: fraction =>
          if (fraction.head?.map Char.isDigit).getD false then
            some (fraction.dropWhile Char.isDigit)
          else none
        | _ => some cs
    | _ => some cs

/-- What may follow a date and a time: nothing, or an offset. -/
def isOffset (cs : List Char) : Bool :=
  match cs with
  | [] => true
  | ['Z'] => true
  | ['z'] => true
  | sign :: more =>
    if sign == '+' || sign == '-' then
      match fixedDigits 2 more with
      | some (hour, ':' :: more) =>
        match fixedDigits 2 more with
        | some (minute, []) => hour ≤ 24 && minute < 60
        | _ => false
      | _ => false
    else false

def isDatetime (cs : List Char) : Bool :=
  match dropDate cs with
  | some [] => true
  | some (c :: more) =>
    (c == 'T' || c == 't' || c == ' ') &&
      match dropTime more with
      | some rest => isOffset rest
      | none => false
  | none => dropTime cs == some []

/-- The value of an unquoted text. -/
def scalar? (cs : List Char) : Option Value :=
  if cs == "true".toList || cs == "false".toList then some .boolean
  else if isInteger cs then if integerFits cs then some .integer else none
  else if isFloat cs then if floatFits cs then some .float else none
  else if isDatetime cs then some .datetime
  else none

end StyleAudit.Toml
