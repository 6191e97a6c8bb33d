/-! # Lines

A line ends at a line feed, and one carriage return before the line feed belongs to the ending. A
last line without an ending counts unless it is empty; its carriage returns are kept. -/

namespace StyleAudit.Text
set_option autoImplicit false

/-- The line read so far, last character first, at its line feed. -/
def endedLine : List Char → List Char
  | [] => []
  | c :: cs => if c = '\r' then cs.reverse else (c :: cs).reverse

/-- The lines of a text, after the reversed start `cur` of its first line. -/
def linesFrom (cur : List Char) : List Char → List (List Char)
  | [] => if cur.isEmpty then [] else [cur.reverse]
  | c :: rest => if c = '\n' then endedLine cur :: linesFrom [] rest else linesFrom (c :: cur) rest

def lines (text : List Char) : List (List Char) := linesFrom [] text

/-- The first line of a text. -/
def firstLine (text : String) : String :=
  String.ofList ((lines text.toList).head?.getD [])

end StyleAudit.Text
