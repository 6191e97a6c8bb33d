import StyleAudit.Machine.Shell.Token

/-! # Shell scripts

The commands of a script and their grammar. A script is read one complete command at a time, because
the shell runs each before it looks at the next. -/

namespace StyleAudit.Machine.Shell
set_option autoImplicit false

/-- Where a file descriptor is sent to or taken from. -/
inductive Target where
  | input (path : Word)
  | write (path : Word)
  | append (path : Word)
  /-- The target of another descriptor. -/
  | copy (source : Word)
  /-- A text in the script itself. -/
  | document (text : Word)

structure Redirection where
  descriptor : Nat
  target : Target

inductive Command where
  | simple (line : Nat) (assignments : List (Octets × Word)) (words : List Word)
      (redirections : List Redirection)
  | pipeline (negated : Bool) (stages : List Command)
  /-- The second runs if the first ended with the given success. -/
  | chain (onSuccess : Bool) (first second : Command)
  | sequence (commands : List Command)
  | branch (condition onTrue onFalse : Command)
  /-- Repeat the body while the condition ends with the given success. -/
  | loop (onSuccess : Bool) (condition body : Command)
  | each (name : Octets) (words : Option (List Word)) (body : Command)
  | select (word : Word) (arms : List (List Word × Command))
  | group (body : Command) (redirections : List Redirection)
  | subshell (body : Command) (redirections : List Redirection)
  /-- Give a name to a command. -/
  | define (name : Octets) (body : Command)

/-- A message about a script that is no script, with its line. -/
structure BadScript where
  line : Nat
  message : String

/-- How a token is named in a message. -/
def Token.shown : Token → String
  | .word _ pieces =>
    match pieces with
    | [.text false cs] =>
      if ["then", "do", "done", "fi", "else", "elif", "esac", "\x7d"].contains (String.ofList cs)
      then "\"" ++ String.ofList cs ++ "\"" else "word"
    | _ => "word"
  | .descriptor _ => "redirection"
  | .document _ _ _ => "word"
  | .op _ s =>
    if s.contains '<' || s.contains '>' then "redirection" else "\"" ++ String.ofList s ++ "\""
  | .newline _ => "newline"
  | .bad _ message => message

def Token.line : Token → Nat
  | .word l _ => l
  | .descriptor _ => 1
  | .document _ _ _ => 1
  | .op l _ => l
  | .newline l => l
  | .bad l _ => l

/-- What is wrong where the grammar meets these tokens; `wanted` is the word it waits for. -/
def unexpected (line : Nat) (tokens : List Token) (wanted : Option String) : BadScript :=
  let expecting := match wanted with
    | some w => " (expecting \"" ++ w ++ "\")"
    | none => ""
  match tokens with
  | [] => ⟨line, "Syntax error: end of file unexpected" ++ expecting⟩
  | .bad l message :: _ => ⟨l, message⟩
  | t :: _ => ⟨t.line, "Syntax error: " ++ t.shown ++ " unexpected" ++ expecting⟩

/-- The text of a word without quotes or expansions. -/
def Token.plain? : Token → Option String
  | .word _ [.text false cs] => some (String.ofList cs)
  | _ => none

/-- Words that end a list of commands. -/
def closers : List String := ["then", "do", "done", "fi", "else", "elif", "esac", "\x7d"]

def isOp (symbol : String) : Token → Bool
  | .op _ s => String.ofList s == symbol
  | _ => false

def isNewline : Token → Bool
  | .newline _ => true
  | _ => false

def skipNewlines (tokens : List Token) : List Token := tokens.dropWhile isNewline

/-- Nothing more belongs to the list of commands that is being read. -/
def atListEnd : List Token → Bool
  | [] => true
  | .bad _ _ :: _ => true
  | t :: _ => isOp ")" t || isOp ";;" t || (t.plain?.map closers.contains).getD false

/-- Read a given reserved word. -/
def reserved (line : Nat) (word : String) (tokens : List Token) : Except BadScript (List Token) :=
  match tokens with
  | t :: rest =>
    if t.plain? == some word then .ok rest else .error (unexpected line tokens (some word))
  | [] => .error (unexpected line [] (some word))

/-- An assignment at the start of a simple command. -/
def assignment? (pieces : Word) : Option (Octets × Word) :=
  match pieces with
  | .text false cs :: more =>
    let name := cs.takeWhile isNameChar
    match name.head?, cs.dropWhile isNameChar with
    | some c, '=' :: value =>
      if isNameStart c then
        some (name, if value.isEmpty then more else .text false value :: more)
      else none
    | _, _ => none
  | _ => none

/-- The redirection that starts with an operator, if it is one. -/
def redirection? (descriptor : Option Nat) (symbol : Octets) (word : Word) : Option Redirection :=
  match String.ofList symbol with
  | "<" => some ⟨descriptor.getD 0, .input word⟩
  | ">" | ">|" => some ⟨descriptor.getD 1, .write word⟩
  | ">>" => some ⟨descriptor.getD 1, .append word⟩
  | ">&" => some ⟨descriptor.getD 1, .copy word⟩
  | "<&" => some ⟨descriptor.getD 0, .copy word⟩
  | _ => none

/-- The redirection to a document in the script. -/
def documentRedirection (line : Nat) (descriptor : Option Nat) (expands : Bool) (body : Octets) :
    Except BadScript Redirection :=
  match documentWord expands body with
  | .ok text => .ok ⟨descriptor.getD 0, .document text⟩
  | .error message => .error ⟨line, message⟩

/-- The redirections at the start of the tokens. -/
def redirections (line : Nat) : List Token → Except BadScript (List Redirection × List Token)
  | .descriptor n :: .op _ _ :: .document _ expands body :: rest => do
    let r ← documentRedirection line (some n) expands body
    let (rs, rest) ← redirections line rest
    return (r :: rs, rest)
  | .op _ _ :: .document _ expands body :: rest => do
    let r ← documentRedirection line none expands body
    let (rs, rest) ← redirections line rest
    return (r :: rs, rest)
  | .descriptor n :: .op _ s :: .word _ w :: rest =>
    match redirection? (some n) s w with
    | some r => (redirections line rest).map fun (rs, rest) => (r :: rs, rest)
    | none => .error (unexpected line (.op line s :: rest) none)
  | .op l s :: .word l' w :: rest =>
    match redirection? none s w with
    | some r => (redirections line rest).map fun (rs, rest) => (r :: rs, rest)
    | none => .ok ([], .op l s :: .word l' w :: rest)
  | tokens => .ok ([], tokens)

/-- What a simple command is made of, read so far. -/
structure Parts where
  assignments : List (Octets × Word) := []
  words : List Word := []
  redirections : List Redirection := []

/-- The rest of a simple command. -/
def simpleFrom (line : Nat) (p : Parts) : List Token → Except BadScript (Command × List Token)
  | .descriptor n :: .op _ _ :: .document _ expands body :: rest => do
    let r ← documentRedirection line (some n) expands body
    simpleFrom line { p with redirections := p.redirections ++ [r] } rest
  | .op _ _ :: .document _ expands body :: rest => do
    let r ← documentRedirection line none expands body
    simpleFrom line { p with redirections := p.redirections ++ [r] } rest
  | .descriptor n :: .op l s :: .word _ w :: rest =>
    match redirection? (some n) s w with
    | some r => simpleFrom line { p with redirections := p.redirections ++ [r] } rest
    | none => .error (unexpected line (.op l s :: rest) none)
  | .word _ pieces :: rest =>
    match p.words, assignment? pieces with
    | [], some a => simpleFrom line { p with assignments := p.assignments ++ [a] } rest
    | _, _ => simpleFrom line { p with words := p.words ++ [pieces] } rest
  | .op l s :: .word l' w :: rest =>
    match redirection? none s w with
    | some r => simpleFrom line { p with redirections := p.redirections ++ [r] } rest
    | none => .ok (.simple line p.assignments p.words p.redirections, .op l s :: .word l' w :: rest)
  | tokens =>
    match tokens with
    | .op l s :: rest =>
      if s.contains '<' || s.contains '>' then .error (unexpected l rest none)
      else .ok (.simple line p.assignments p.words p.redirections, tokens)
    | _ => .ok (.simple line p.assignments p.words p.redirections, tokens)

/-- The words of a list up to its end. -/
def listWords : List Token → List Word × List Token
  | .word _ w :: rest =>
    let (ws, rest) := listWords rest
    (w :: ws, rest)
  | tokens => ([], tokens)

/-- The patterns of an arm of a selection. -/
def armPatterns (line : Nat) : List Token → Except BadScript (List Word × List Token)
  | .word _ w :: rest =>
    match rest with
    | t :: rest' =>
      if isOp "|" t then (armPatterns line rest').map fun (ws, rest) => (w :: ws, rest)
      else if isOp ")" t then .ok ([w], rest')
      else .error (unexpected line rest (some ")"))
    | [] => .error (unexpected line [] (some ")"))
  | tokens => .error (unexpected line tokens (some ")"))

mutual

/-- Commands up to a word or operator that closes the list. -/
def compound : Nat → Nat → List Token → Except BadScript (Command × List Token)
  | 0, line, tokens => .error (unexpected line tokens none)
  | fuel + 1, line, tokens =>
    let tokens := skipNewlines tokens
    if atListEnd tokens then .ok (.sequence [], tokens)
    else do
      let (first, rest) ← andOr fuel line tokens
      match rest with
      | t :: more =>
        if isOp ";" t || isOp "&" t || isNewline t then
          let (others, rest) ← compound fuel line more
          return (.sequence [first, others], rest)
        else return (first, rest)
      | [] => return (first, [])

/-- Pipelines joined by `&&` and `||`, which bind alike and to the left. -/
def andOr : Nat → Nat → List Token → Except BadScript (Command × List Token)
  | 0, line, tokens => .error (unexpected line tokens none)
  | fuel + 1, line, tokens => do
    let (first, rest) ← pipe fuel line tokens
    andOrFrom fuel line first rest

def andOrFrom : Nat → Nat → Command → List Token → Except BadScript (Command × List Token)
  | 0, line, _, tokens => .error (unexpected line tokens none)
  | fuel + 1, line, first, tokens =>
    match tokens with
    | t :: rest =>
      if isOp "&&" t || isOp "||" t then do
        let (second, rest) ← pipe fuel line (skipNewlines rest)
        andOrFrom fuel line (.chain (isOp "&&" t) first second) rest
      else .ok (first, tokens)
    | [] => .ok (first, [])

def pipe : Nat → Nat → List Token → Except BadScript (Command × List Token)
  | 0, line, tokens => .error (unexpected line tokens none)
  | fuel + 1, line, tokens => do
    let negated := (tokens.head?.bind Token.plain?) == some "!"
    let (first, rest) ← command fuel line (if negated then tokens.tail else tokens)
    let (others, rest) ← pipeFrom fuel line rest
    if others.isEmpty && !negated then return (first, rest)
    else return (.pipeline negated (first :: others), rest)

def pipeFrom : Nat → Nat → List Token → Except BadScript (List Command × List Token)
  | 0, line, tokens => .error (unexpected line tokens none)
  | fuel + 1, line, tokens =>
    match tokens with
    | t :: rest =>
      if isOp "|" t then do
        let (next, rest) ← command fuel line (skipNewlines rest)
        let (others, rest) ← pipeFrom fuel line rest
        return (next :: others, rest)
      else .ok ([], tokens)
    | [] => .ok ([], [])

/-- The rest of a conditional after its first word. -/
def conditional : Nat → Nat → List Token → Except BadScript (Command × List Token)
  | 0, line, tokens => .error (unexpected line tokens none)
  | fuel + 1, line, tokens => do
    let (condition, rest) ← compound fuel line tokens
    let rest ← reserved line "then" rest
    let (onTrue, rest) ← compound fuel line rest
    match rest.head?.bind Token.plain? with
    | some "elif" =>
      let (onFalse, rest) ← conditional fuel line rest.tail
      return (.branch condition onTrue onFalse, rest)
    | some "else" =>
      let (onFalse, rest) ← compound fuel line rest.tail
      return (.branch condition onTrue onFalse, ← reserved line "fi" rest)
    | _ => return (.branch condition onTrue (.sequence []), ← reserved line "fi" rest)

/-- The arms of a selection up to its closing word. -/
def arms : Nat → Nat → List Token → Except BadScript (List (List Word × Command) × List Token)
  | 0, line, tokens => .error (unexpected line tokens none)
  | fuel + 1, line, tokens => do
    let tokens := skipNewlines tokens
    if (tokens.head?.bind Token.plain?) == some "esac" then return ([], tokens.tail)
    let (patterns, rest) ← armPatterns line
      (if (tokens.head?.map (isOp "(")).getD false then tokens.tail else tokens)
    let (body, rest) ← compound fuel line rest
    match rest with
    | t :: more =>
      if isOp ";;" t then
        let (others, rest) ← arms fuel line more
        return ((patterns, body) :: others, rest)
      else return ([(patterns, body)], ← reserved line "esac" rest)
    | [] => throw (unexpected line [] (some ";;"))

/-- One command with its redirections. -/
def command : Nat → Nat → List Token → Except BadScript (Command × List Token)
  | 0, line, tokens => .error (unexpected line tokens none)
  | fuel + 1, line, tokens =>
    match tokens with
    | [] => .error (unexpected line [] none)
    | t :: rest =>
      let line := max line t.line
      match t.plain? with
      | some "if" => do
        let (c, rest) ← conditional fuel line rest
        let (rs, rest) ← redirections line rest
        return (if rs.isEmpty then c else .group c rs, rest)
      | some "while" => repetition fuel line true rest
      | some "until" => repetition fuel line false rest
      | some "for" =>
        match rest with
        | .word _ [.text false name] :: rest => do
          let rest := skipNewlines rest
          let (words, rest) :=
            if (rest.head?.bind Token.plain?) == some "in" then
              let (ws, rest) := listWords rest.tail
              (some ws, rest)
            else (none, rest)
          let ends := (rest.head?.map fun t => isOp ";" t || isNewline t).getD false
          if words.isSome && !ends then throw (unexpected line rest none)
          let rest := match rest with
            | t :: more => if isOp ";" t then more else rest
            | [] => rest
          let rest ← reserved line "do" (skipNewlines rest)
          let (body, rest) ← compound fuel line rest
          let rest ← reserved line "done" rest
          let (rs, rest) ← redirections line rest
          return (.group (.each name words body) rs, rest)
        | _ => .error ⟨line, "Syntax error: Bad for loop variable"⟩
      | some "case" =>
        match rest with
        | .word _ w :: rest => do
          let rest ← reserved line "in" (skipNewlines rest)
          let (as, rest) ← arms fuel line rest
          let (rs, rest) ← redirections line rest
          return (.group (.select w as) rs, rest)
        | _ => .error (unexpected line rest none)
      | some "\x7b" => do
        let (body, rest) ← compound fuel line rest
        let rest ← reserved line "\x7d" rest
        let (rs, rest) ← redirections line rest
        return (.group body rs, rest)
      | some word =>
        if closers.contains word then .error (unexpected line tokens none)
        else if (rest.head?.map (isOp "(")).getD false then definition fuel line word rest.tail
        else simpleFrom line {} tokens
      | none =>
        if isOp "(" t then do
          let (body, rest) ← compound fuel line rest
          match rest with
          | t :: more =>
            if isOp ")" t then
              let (rs, rest) ← redirections line more
              return (.subshell body rs, rest)
            else throw (unexpected line rest (some ")"))
          | [] => throw (unexpected line [] (some ")"))
        else match t with
          | .op _ s =>
            if s.contains '<' || s.contains '>' then simpleFrom line {} tokens
            else .error (unexpected line tokens none)
          | .newline _ => .error (unexpected line tokens none)
          | .bad _ _ => .error (unexpected line tokens none)
          | _ => simpleFrom line {} tokens

/-- The rest of the definition of a function after its first bracket. -/
def definition : Nat → Nat → String → List Token → Except BadScript (Command × List Token)
  | 0, line, _, tokens => .error (unexpected line tokens none)
  | fuel + 1, line, name, tokens =>
    match tokens with
    | t :: rest =>
      if !isOp ")" t then .error (unexpected line tokens (some ")"))
      else if !name.toList.all isNameChar || (name.toList.head?.map Char.isDigit).getD true then
        .error ⟨line, "Syntax error: Bad function name"⟩
      else do
        let (body, rest) ← command fuel line (skipNewlines rest)
        return (.define name.toList body, rest)
    | [] => .error (unexpected line [] (some ")"))

/-- The rest of a loop after its first word. -/
def repetition : Nat → Nat → Bool → List Token → Except BadScript (Command × List Token)
  | 0, line, _, tokens => .error (unexpected line tokens none)
  | fuel + 1, line, onSuccess, tokens => do
    let (condition, rest) ← compound fuel line tokens
    let rest ← reserved line "do" rest
    let (body, rest) ← compound fuel line rest
    let rest ← reserved line "done" rest
    let (rs, rest) ← redirections line rest
    return (.group (.loop onSuccess condition body) rs, rest)

end

/-- The commands up to the end of a line. -/
def lineFrom (fuel line : Nat) (done : List Command) (tokens : List Token) :
    Except BadScript (Command × List Token) :=
  match fuel with
  | 0 => .error (unexpected line tokens none)
  | fuel + 1 => do
    let (c, rest) ← andOr (4 * tokens.length + 8) line tokens
    let all := done ++ [c]
    match rest with
    | [] => return (.sequence all, [])
    | t :: more =>
      if isNewline t then return (.sequence all, more)
      else if isOp ";" t || isOp "&" t then
        match more with
        | [] => return (.sequence all, [])
        | u :: later =>
          if isNewline u then return (.sequence all, later) else lineFrom fuel line all more
      else throw (unexpected line rest none)

/-- The next complete command of a script, or `none` at its end. -/
def nextCommand (line : Nat) (tokens : List Token) :
    Except BadScript (Option (Command × List Token)) :=
  match skipNewlines tokens with
  | [] => .ok none
  | t :: rest => (lineFrom (rest.length + 2) (max line t.line) [] (t :: rest)).map some

end StyleAudit.Machine.Shell
