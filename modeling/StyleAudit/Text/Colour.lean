/-! # Terminal colours

Text between the escape sequences that switch an effect on and off. Each helper takes a flag and
leaves the text as it is when the flag is off. -/

namespace StyleAudit.Text
set_option autoImplicit false

/-- The sequence ESC `[` code `m`. -/
def escapeSequence (code : String) : String := "\x1b[" ++ code ++ "m"

/-- Put a text between two sequences. -/
def between (on off : String) (coloured : Bool) (text : String) : String :=
  if coloured then escapeSequence on ++ text ++ escapeSequence off else text

def bold : Bool → String → String := between "1" "0"

def red : Bool → String → String := between "31" "39"

def cyan : Bool → String → String := between "36" "39"

/-- Mark before an error notice. -/
def errorMark (coloured : Bool) : String := bold coloured (red coloured "error:")

/-- Mark before a note. -/
def noteMark (coloured : Bool) : String := bold coloured (cyan coloured "note:")

end StyleAudit.Text
