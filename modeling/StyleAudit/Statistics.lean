import StyleAudit.Diagnostics
import StyleAudit.Text.Blank
import StyleAudit.Text.Decimal
import StyleAudit.Text.Lines

/-! # Statistics of a checker

A checker prints one line per code: blanks, a count, blanks, the code, and a message, such as
`3       E501 line too long (88 > 79 characters)`. Lines of any other form are no statistics and
are passed over. -/

namespace StyleAudit.Statistics
set_option autoImplicit false

open Text

/-- What one statistics line says. -/
structure Record where
  code : String
  count : Count
  message : String
  deriving Repr, DecidableEq

/-- Read a statistics line. The code is capital letters and then digits, as many as there are; the
message is the rest without its outer blanks. A count that is too large makes the line no
statistics. -/
def Record.read? (line : List Char) : Option Record :=
  let body := line.dropWhile isBlank
  let digits := body.takeWhile isDecimal
  let gap := (body.dropWhile isDecimal).takeWhile isBlank
  let entry := (body.dropWhile isDecimal).dropWhile isBlank
  let letters := entry.takeWhile isAsciiUpper
  let number := (entry.dropWhile isAsciiUpper).takeWhile isAsciiDigit
  let rest := (entry.dropWhile isAsciiUpper).dropWhile isAsciiDigit
  if digits.isEmpty || gap.isEmpty || letters.isEmpty || number.isEmpty then none
  else (count? digits).map fun count =>
    { code := String.ofList (letters ++ number), count, message := String.ofList (trim rest) }

/-- The statistics lines of a text, in order. -/
def records (text : String) : List Record := (lines text.toList).filterMap Record.read?

def recordAll (d : Diagnostics) (rs : List Record) : Diagnostics :=
  rs.foldl (fun d r => d.record r.code r.count r.message) d

/-- The diagnostics that a checker's output states. -/
def parse (text : String) : Diagnostics := recordAll .empty (records text)

end StyleAudit.Statistics
