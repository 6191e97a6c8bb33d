/-! # Categories of style rules

A report has seven categories in a fixed order. Five of them are judged by a fixed set of
diagnostic codes; naming has a checker of its own, and file encoding is not checked at all. -/

namespace StyleAudit
set_option autoImplicit false

/-- Report categories, in report order. -/
inductive Category where
  | naming
  | indentation
  | tabsVsSpaces
  | lineLength
  | blankLines
  | imports
  | fileEncoding
  deriving Repr, DecidableEq

namespace Category

def all : List Category :=
  [.naming, .indentation, .tabsVsSpaces, .lineLength, .blankLines, .imports, .fileEncoding]

/-- Short name, used for report keys. -/
def name : Category → String
  | .naming => "naming"
  | .indentation => "indentation"
  | .tabsVsSpaces => "tabs_vs_spaces"
  | .lineLength => "line_length"
  | .blankLines => "blank_lines"
  | .imports => "import"
  | .fileEncoding => "file_encoding"

end Category

/-- A category judged by a fixed list of codes; breakdowns list them in this order. -/
structure CodeSet where
  category : Category
  codes : List String
  /-- Head of the category's section in the summary. -/
  header : String
  /-- Subject of the sentence that says that nothing was found. -/
  clean : String

namespace CodeSet

def indentation : CodeSet where
  category := .indentation
  codes := ["E111", "E112", "E113", "E121", "E122", "E123", "E124", "E125", "E126", "E127", "E128",
    "E129", "E131", "E133"]
  header := "Indentation"
  clean := "Indentations of"

def tabsVsSpaces : CodeSet where
  category := .tabsVsSpaces
  codes := ["E101", "E223", "E224", "E242", "E273", "E274", "W191"]
  header := "Tabs vs. Spaces"
  clean := "Space-indented"

def lineLength : CodeSet where
  category := .lineLength
  codes := ["E501"]
  header := "Line Length"
  clean := "Line length of"

def blankLines : CodeSet where
  category := .blankLines
  codes := ["E301", "E302", "E303", "E304", "E305", "E306"]
  header := "Blank Line"
  clean := "Blank line"

def imports : CodeSet where
  category := .imports
  codes := ["E401", "E402"]
  header := "Import Statement"
  clean := "Import"

/-- The code sets, in report order. -/
def all : List CodeSet := [indentation, tabsVsSpaces, lineLength, blankLines, imports]

/-- The codes of the naming category. -/
def namingCodes : List String :=
  ["N801", "N802", "N803", "N804", "N805", "N806", "N807", "N811", "N812", "N813", "N814", "N815",
    "N816", "N817", "N818"]

/-- Codes that say that a file could not be checked at all. -/
def fatalCodes : List String := ["E901", "E902"]

end CodeSet
end StyleAudit
