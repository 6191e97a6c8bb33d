import StyleAudit.Text.Digits

/-! # Compact JSON text

The values a report is made of, and their text on one line without spaces. Object members keep
their order, and a key may occur more than once. -/

namespace StyleAudit.Text
set_option autoImplicit false

inductive Json where
  | null
  | bool (b : Bool)
  | number (n : Nat)
  | string (s : String)
  | object (members : List (String × Json))

namespace Json

/-- A character inside a string. Quotes, backslashes and control characters are escaped. -/
def escapeChar (c : Char) : List Char :=
  if c = '"' then ['\\', '"']
  else if c = '\\' then ['\\', '\\']
  else if c = '\x08' then ['\\', 'b']
  else if c = '\t' then ['\\', 't']
  else if c = '\n' then ['\\', 'n']
  else if c = '\x0c' then ['\\', 'f']
  else if c = '\r' then ['\\', 'r']
  else if c.toNat < 0x20 then
    ['\\', 'u', '0', '0', hexDigit (c.toNat / 16), hexDigit (c.toNat % 16)]
  else [c]

def stringChars (s : String) : List Char := '"' :: (s.toList.flatMap escapeChar ++ ['"'])

mutual

def chars : Json → List Char
  | .null => "null".toList
  | .bool true => "true".toList
  | .bool false => "false".toList
  | .number n => Nat.toDigits 10 n
  | .string s => stringChars s
  | .object members => '\x7b' :: (memberChars members ++ ['\x7d'])

/-- The members of an object with commas between them. -/
def memberChars : List (String × Json) → List Char
  | [] => []
  | [(key, value)] => stringChars key ++ ':' :: chars value
  | (key, value) :: m :: ms =>
    stringChars key ++ ':' :: (chars value ++ ',' :: memberChars (m :: ms))

end

def render (j : Json) : String := String.ofList j.chars

mutual

/-- Every number in a value is a word of 64 bits. -/
def fits : Json → Bool
  | .number n => n < 18446744073709551616
  | .object members => membersFit members
  | _ => true

def membersFit : List (String × Json) → Bool
  | [] => true
  | (_, value) :: rest => fits value && membersFit rest

end

/-- Write a value. Numbers of more than 64 bits cannot be written. -/
def write (j : Json) : Except String String :=
  if j.fits then .ok j.render else .error "number out of range"

end Json
end StyleAudit.Text
