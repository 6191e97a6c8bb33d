import StyleAudit.Machine.Octets
import StyleAudit.Text.Digits

/-! # Tokens of a shell script

Words with their quoting, and operators. A script is cut into tokens as far as it can be; what is
wrong after that is a last token of its own, since the lines before it still run. -/

namespace StyleAudit.Machine.Shell
set_option autoImplicit false

/-- A part of a word. The flag says that it stands in quotes. Parts with an inner script or word
keep its source. -/
inductive Piece where
  | text (quoted : Bool) (chars : Octets)
  /-- A parameter, an operator such as `#` and the source of its operand. -/
  | param (quoted : Bool) (name op operand : Octets)
  | length (quoted : Bool) (name : Octets)
  | command (quoted : Bool) (source : Octets)
  | arith (quoted : Bool) (source : Octets)
  deriving Repr, BEq

abbrev Word := List Piece

inductive Token where
  | word (line : Nat) (pieces : Word)
  /-- The number of a file descriptor in front of a redirection. -/
  | descriptor (n : Nat)
  /-- A document that stands in the script after the line of its redirection. The flag says that
  expansions in it are made. -/
  | document (number : Nat) (expands : Bool) (body : Octets)
  | op (line : Nat) (symbol : Octets)
  | newline (line : Nat)
  | bad (line : Nat) (message : String)
  deriving Repr, BEq

def isNameStart (c : Char) : Bool := c.isAlpha || c == '_'

def isNameChar (c : Char) : Bool := c.isAlphanum || c == '_'

def isSpecialParam (c : Char) : Bool := "@*#?$!-0123456789".toList.contains c

/-- Characters that end a word. -/
def isMeta (c : Char) : Bool := " \t\n;&|<>()".toList.contains c

/-- Characters that a backslash protects inside double quotes. -/
def isProtected (c : Char) : Bool := c == '$' || c == '\x60' || c == '"' || c == '\\'

/-- The text up to the bracket that closes one already open, and what follows it. Quotes hide
brackets, and so does a backslash outside single quotes. -/
def takeClosed (opening closing : Char) :
    Nat → Option Char → Octets → Octets → Option (Octets × Octets)
  | _, _, _, [] => none
  | _, _, _, ['\\'] => none
  | depth, quote, done, '\\' :: d :: rest =>
    if quote == some '\x27' then
      let quote := if d == '\x27' then none else quote
      takeClosed opening closing depth quote (d :: '\\' :: done) rest
    else takeClosed opening closing depth quote (d :: '\\' :: done) rest
  | depth, some q, done, c :: rest =>
    takeClosed opening closing depth (if c == q then none else some q) (c :: done) rest
  | depth, none, done, c :: rest =>
    if c == '\x27' || c == '"' then takeClosed opening closing depth (some c) (c :: done) rest
    else if c == closing then
      match depth with
      | 0 => some (done.reverse, rest)
      | depth + 1 => takeClosed opening closing depth none (c :: done) rest
    else if c == opening then takeClosed opening closing (depth + 1) none (c :: done) rest
    else takeClosed opening closing depth none (c :: done) rest

/-- The source of a backquoted command, up to the closing backquote. Inside double quotes a
backslash protects a double quote too. -/
def takeBackquoted (inQuotes : Bool) : Octets → Octets → Option (Octets × Octets)
  | _, [] => none
  | done, '\\' :: c :: rest =>
    if c == '$' || c == '\x60' || c == '\\' || (inQuotes && c == '"') then
      takeBackquoted inQuotes (c :: done) rest
    else takeBackquoted inQuotes (c :: '\\' :: done) rest
  | done, c :: rest =>
    if c == '\x60' then some (done.reverse, rest) else takeBackquoted inQuotes (c :: done) rest

/-- The name at the start of a braced parameter. -/
def paramName (source : Octets) : Octets × Octets :=
  match source with
  | [] => ([], [])
  | c :: rest =>
    if isNameStart c then (source.takeWhile isNameChar, source.dropWhile isNameChar)
    else if c.isDigit then (source.takeWhile Char.isDigit, source.dropWhile Char.isDigit)
    else if isSpecialParam c then ([c], rest)
    else ([], source)

/-- A braced parameter from the source between its braces. -/
def bracedParam (quoted : Bool) (source : Octets) : Option Piece :=
  match source with
  | '#' :: c :: rest =>
    let (name, after) := paramName (c :: rest)
    if name.isEmpty || !after.isEmpty then none else some (.length quoted name)
  | _ =>
    match paramName source with
    | ([], _) => none
    | (name, []) => some (.param quoted name [] [])
    | (name, '#' :: '#' :: rest) => some (.param quoted name ['#', '#'] rest)
    | (name, '%' :: '%' :: rest) => some (.param quoted name ['%', '%'] rest)
    | (name, ':' :: c :: rest) =>
      if "-=+?".toList.contains c then some (.param quoted name [':', c] rest) else none
    | (name, c :: rest) =>
      if "#%-=+?".toList.contains c then some (.param quoted name [c] rest) else none

def badSubstitution : String := "Bad substitution"

/-- The piece after a dollar sign, and the rest. -/
def dollarPiece (quoted : Bool) (source : Octets) : Except String (Piece × Octets) :=
  match source with
  | '(' :: '(' :: rest =>
    match takeClosed '(' ')' 0 none [] rest with
    | some (inner, ')' :: rest) => .ok (.arith quoted inner, rest)
    | _ => .error "Syntax error: Missing '))'"
  | '(' :: rest =>
    match takeClosed '(' ')' 0 none [] rest with
    | some (inner, rest) => .ok (.command quoted inner, rest)
    | none => .error "Syntax error: end of file unexpected (expecting \")\")"
  | '\x7b' :: rest =>
    match takeClosed '\x7b' '\x7d' 0 none [] rest with
    | some (inner, rest) =>
      match bracedParam quoted inner with
      | some piece => .ok (piece, rest)
      | none => .error badSubstitution
    | none => .error "Syntax error: Missing '\x7d'"
  | c :: rest =>
    if isNameStart c then
      .ok (.param quoted (source.takeWhile isNameChar) [] [], source.dropWhile isNameChar)
    else if isSpecialParam c then .ok (.param quoted [c] [] [], rest)
    else .ok (.text quoted ['$'], source)
  | [] => .ok (.text quoted ['$'], [])

def unterminated : String := "Syntax error: Unterminated quoted string"

/-- The pieces of a word. `stops` says that the word ends at an operator or a blank, `inQuotes` that
a double quote is open; `plain` is the text read since the last piece, in reverse. Each call uses up
at least one character. -/
def wordPieces :
    Nat → Bool → Bool → Octets → List Piece → Octets → Except String (List Piece × Octets)
  | 0, _, _, _, _, _ => .error unterminated
  | fuel + 1, stops, inQuotes, plain, done, source =>
    let flushed := if plain.isEmpty then done else .text inQuotes plain.reverse :: done
    match source with
    | [] => if inQuotes then .error unterminated else .ok (flushed.reverse, [])
    | c :: rest =>
      if c == '"' then
        if inQuotes then wordPieces fuel stops false [] flushed rest
        else match rest with
          | '"' :: rest => wordPieces fuel stops false [] (.text true [] :: flushed) rest
          | _ => wordPieces fuel stops true [] flushed rest
      else if c == '$' then
        match dollarPiece inQuotes rest with
        | .ok (piece, rest) => wordPieces fuel stops inQuotes [] (piece :: flushed) rest
        | .error e => .error e
      else if c == '\x60' then
        match takeBackquoted inQuotes [] rest with
        | some (inner, rest) =>
          wordPieces fuel stops inQuotes [] (.command inQuotes inner :: flushed) rest
        | none => .error "Syntax error: EOF in backquote substitution"
      else if c == '\\' then
        match rest with
        | '\n' :: rest => wordPieces fuel stops inQuotes plain done rest
        | d :: rest =>
          if inQuotes then
            if isProtected d then wordPieces fuel stops true (d :: plain) done rest
            else wordPieces fuel stops true (d :: c :: plain) done rest
          else wordPieces fuel stops false [] (.text true [d] :: flushed) rest
        | [] => wordPieces fuel stops inQuotes (c :: plain) done []
      else if inQuotes then wordPieces fuel stops true (c :: plain) done rest
      else if c == '\x27' then
        let inner := rest.takeWhile (· != '\x27')
        match rest.dropWhile (· != '\x27') with
        | _ :: rest => wordPieces fuel stops false [] (.text true inner :: flushed) rest
        | [] => .error unterminated
      else if stops && isMeta c then .ok (flushed.reverse, source)
      else wordPieces fuel stops false (c :: plain) done rest

/-- The word at the start of a source, and the rest. -/
def wordOf (source : Octets) : Except String (Word × Octets) :=
  wordPieces (source.length + 1) true false [] [] source

/-- The operand of a parameter operator: a word that may hold blanks. -/
def operandWord (source : Octets) : Except String Word :=
  (wordPieces (source.length + 1) false false [] [] source).map Prod.fst

/-- The pieces of a text that stands in double quotes as a whole. -/
def quotedWord (source : Octets) : Except String Word :=
  (wordPieces (source.length + 2) false true [] [] (source ++ ['"'])).map Prod.fst

/-- The pieces of a document in a script. Double quotes mean nothing in it. Each call uses up at
least one character. -/
def documentPieces : Nat → Octets → List Piece → Octets → Except String Word
  | 0, _, _, _ => .error unterminated
  | fuel + 1, plain, done, source =>
    let flushed := if plain.isEmpty then done else .text true plain.reverse :: done
    match source with
    | [] => .ok flushed.reverse
    | '$' :: rest =>
      match dollarPiece true rest with
      | .ok (piece, rest) => documentPieces fuel [] (piece :: flushed) rest
      | .error e => .error e
    | '\\' :: '\n' :: rest => documentPieces fuel plain done rest
    | '\\' :: c :: rest =>
      if c == '$' || c == '\x60' || c == '\\' then documentPieces fuel (c :: plain) done rest
      else documentPieces fuel (c :: '\\' :: plain) done rest
    | c :: rest =>
      if c == '\x60' then
        match takeBackquoted false [] rest with
        | some (inner, rest) => documentPieces fuel [] (.command true inner :: flushed) rest
        | none => .error "Syntax error: EOF in backquote substitution"
      else documentPieces fuel (c :: plain) done rest

/-- The word that a document stands for. -/
def documentWord (expands : Bool) (body : Octets) : Except String Word :=
  if expands then documentPieces (body.length + 1) [] [] body else .ok [.text true body]

/-- A document that is announced but not yet read. -/
structure Announced where
  number : Nat
  /-- Leading tabs of its lines are dropped. -/
  indented : Bool
  delimiter : Octets

/-- The lines of a document up to its delimiter or the end, and the rest. Each call uses up a
line. -/
def documentBody (a : Announced) : Nat → Octets → Octets × Octets
  | 0, source => ([], source)
  | fuel + 1, source =>
    if source.isEmpty then ([], [])
    else
      let whole := source.takeWhile (· != '\n')
      let after := source.drop whole.length
      let line := if a.indented then whole.dropWhile (· == '\t') else whole
      if line == a.delimiter then ([], after.drop 1)
      else
        let (body, rest) := documentBody a fuel (after.drop 1)
        (line ++ after.take 1 ++ body, rest)

/-- Put the bodies of announced documents in their tokens; the rest of the source follows them. -/
def fillDocuments (announced : List Announced) (done : List Token) (source : Octets) :
    List Token × Octets :=
  announced.foldl (fun (done, source) a =>
    let (body, rest) := documentBody a (source.length + 1) source
    (done.map fun t => match t with
      | .document number expands _ =>
        if number == a.number then .document number expands body else t
      | t => t, rest)) (done, source)

/-- The text of a delimiter, and whether a part of it is quoted. -/
def delimiterOf (word : Word) : Octets × Bool :=
  (word.flatMap fun
    | .text _ cs => cs
    | .param _ name _ _ => '$' :: name
    | _ => [],
   word.any fun
    | .text quoted _ => quoted
    | _ => false)

/-- Operators, longer ones first. -/
def operators : List Octets :=
  ["<<-", "&&", "||", ";;", "<<", ">>", ">&", "<&", ">|", "<>", ";", "&", "|", "<", ">", "(",
    ")"].map String.toList

def operatorAt (source : Octets) : Option Octets := operators.find? fun o => o.isPrefixOf source

def newlinesIn (cs : Octets) : Nat := cs.count '\n'

/-- Cut a script into tokens. Documents that were announced follow the next newline. Each call uses
up at least one character. -/
def tokensFrom : Nat → Nat → List Announced → List Token → Octets → List Token
  | 0, _, _, done, _ => done.reverse
  | fuel + 1, line, announced, done, source =>
    match source with
    | [] => done.reverse
    | '\n' :: rest =>
      let (done, after) := fillDocuments announced done rest
      let used := newlinesIn (rest.take (rest.length - after.length))
      tokensFrom fuel (line + 1 + used) [] (.newline line :: done) after
    | '\\' :: '\n' :: rest => tokensFrom fuel (line + 1) announced done rest
    | c :: rest =>
      if c == ' ' || c == '\t' then tokensFrom fuel line announced done rest
      else if c == '#' then tokensFrom fuel line announced done (rest.dropWhile (· != '\n'))
      else
        let digits := source.takeWhile Char.isDigit
        let after := source.dropWhile Char.isDigit
        if !digits.isEmpty && (after.head? == some '<' || after.head? == some '>') then
          let n := Text.valueIn 10 digits
          tokensFrom fuel line announced (.descriptor n :: done) after
        else
          let fail := fun (message : String) =>
            let last := if message == badSubstitution then line else line + newlinesIn source
            (.bad last message :: done).reverse
          match operatorAt source with
          | some o =>
            let after := source.drop o.length
            let opened := .op line o :: done
            let start := after.dropWhile fun c => c == ' ' || c == '\t'
            if "<<".toList.isPrefixOf o && !(start.head?.map isMeta).getD true then
              match wordOf start with
              | .ok (word, rest) =>
                let (delimiter, quoted) := delimiterOf word
                let a := { number := done.length, indented := o.length == 3, delimiter }
                tokensFrom fuel line (announced ++ [a])
                  (.document a.number (!quoted) [] :: opened) rest
              | .error message => fail message
            else tokensFrom fuel line announced opened after
          | none =>
            match wordOf source with
            | .ok (pieces, rest) =>
              let used := newlinesIn (source.take (source.length - rest.length))
              tokensFrom fuel (line + used) announced (.word line pieces :: done) rest
            | .error message => fail message

def tokens (source : Octets) : List Token := tokensFrom (source.length + 1) 1 [] [] source

end StyleAudit.Machine.Shell
