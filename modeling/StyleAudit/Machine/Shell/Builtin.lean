import StyleAudit.Machine.Shell.Format
import StyleAudit.Machine.Shell.State
import StyleAudit.Machine.Tool

/-! # Commands of the shell itself -/

namespace StyleAudit.Machine.Shell
set_option autoImplicit false

/-- Names and numbers of signals. -/
def signalNumbers : List (String × Nat) :=
  [("HUP", 1), ("INT", 2), ("QUIT", 3), ("ILL", 4), ("TRAP", 5), ("ABRT", 6), ("BUS", 7),
    ("FPE", 8), ("KILL", 9), ("USR1", 10), ("SEGV", 11), ("USR2", 12), ("PIPE", 13), ("ALRM", 14),
    ("TERM", 15)]

def signalOf? (cs : Octets) : Option Nat :=
  if !cs.isEmpty && cs.all Char.isDigit then some (numeralIn 10 0 cs).1
  else (signalNumbers.find? fun e => e.1.toList == cs).map Prod.snd

/-- A signal comes to the shell. It ends the shell unless a script is set for it. -/
def receive (signal : Nat) : Run Unit := do
  if signal == 0 then return
  match (← get).traps.find? fun t => t.1 == signal && signal != 9 with
  | some (_, source) => modify fun s => { s with due := s.due ++ [source] }
  | none => throw (.signal signal)

/-- Send a signal to processes. Only the shell itself is there to get one. -/
def killProcesses (signal : Nat) (targets : List Octets) : Run Unit :=
  targets.forM fun t =>
    if t == processNumber then receive signal
    else do
      complain "kill: No such process\n"
      setStatus 1

def killUsage : Run Unit := do
  complain ("kill: Usage: kill [-s sigspec | -signum | -sigspec] [pid | job]... or\n" ++
    "kill -l [exitstatus]")
  setStatus 2

def kill (args : List Octets) : Run Unit :=
  match args with
  | [['-', 's'], _] => killUsage
  | ['-', 's'] :: name :: targets =>
    match signalOf? name with
    | some n => killProcesses n targets
    | none => do
      complain ("kill: invalid signal number or name: " ++ Octets.toText name)
      setStatus 2
  | ('-' :: name) :: targets =>
    match signalOf? name with
    | some n => if targets.isEmpty then killUsage else killProcesses n targets
    | none => do
      complain ("kill: Illegal option -" ++ Octets.toText (name.take 1))
      setStatus 2
  | [] => killUsage
  | targets => killProcesses 15 targets

/-- The number that an argument of a test stands for. Zeros in front mean nothing. -/
def testNumber (cs : Octets) : Except String Int :=
  let body := skipBlanks cs
  let digits := match body with
    | '-' :: rest => rest
    | '+' :: rest => rest
    | _ => body
  let (n, rest) := numeralIn 10 0 digits
  if rest.length == digits.length || !(skipBlanks rest).isEmpty ||
      9223372036854775808 ≤ n then
    .error ("Illegal number: " ++ Octets.toText cs)
  else .ok (if body.head? == some '-' then -(n : Int) else n)

/-- Tests of one argument. -/
def unaryTests : List String :=
  ["-n", "-z", "-e", "-r", "-w", "-f", "-d", "-s", "-x", "-L", "-h", "-t"]

/-- The file that takes everything and holds nothing. -/
def nowhere : Octets := "/dev/null".toList

def testUnary (s : State) (op : String) (arg : Octets) : Bool :=
  let found := match s.files.resolve s.cwd arg with
    | .ok loc => s.files.node? loc
    | .error _ => none
  let isTool := (toolAt? arg).isSome
  match op, found with
  | "-n", _ => !arg.isEmpty
  | "-z", _ => arg.isEmpty
  | "-e", f | "-r", f | "-w", f => f.isSome || isTool || arg == nowhere
  | "-f", some (.file _ _) => true
  | "-f", none => isTool
  | "-d", some .dir => true
  | "-s", some (.file data _) => data.size != 0
  | "-s", some .dir => true
  | "-s", none => isTool
  | "-x", some (.file _ executable) => executable
  | "-x", some .dir => true
  | "-x", none => isTool
  | _, _ => false

/-- Tests of two arguments. -/
def binaryTests : List String :=
  ["=", "==", "!=", "-eq", "-ne", "-lt", "-le", "-gt", "-ge", "<", ">", "-nt", "-ot"]

/-- Files have no times, so none is newer than another. -/
def testBinary (a : Octets) (op : String) (b : Octets) : Except String Bool :=
  let compare := fun (f : Int → Int → Bool) => do return f (← testNumber a) (← testNumber b)
  match op with
  | "!=" => .ok (a != b)
  | "<" => .ok (String.ofList a < String.ofList b)
  | ">" => .ok (String.ofList b < String.ofList a)
  | "-eq" => compare fun x y => x == y
  | "-ne" => compare fun x y => x != y
  | "-lt" => compare fun x y => x < y
  | "-le" => compare fun x y => x ≤ y
  | "-gt" => compare fun x y => y < x
  | "-ge" => compare fun x y => y ≤ x
  | "-nt" | "-ot" => .ok false
  | _ => .ok (a == b)

def isBinaryTest (arg : Octets) : Bool := binaryTests.contains (String.ofList arg)

/-- The value of a test without `-a` and `-o`, and the arguments after it. -/
def testPrimary (s : State) (inner : List Octets → Except String (Bool × List Octets)) :
    List Octets → Except String (Bool × List Octets)
  | [] => .ok (false, [])
  | [a] => .ok (!a.isEmpty, [])
  | [a, b] =>
    if unaryTests.contains (String.ofList a) then .ok (testUnary s (String.ofList a) b, [])
    else if isBinaryTest b then .error (Octets.toText b ++ ": argument expected")
    else .ok (!a.isEmpty, [b])
  | a :: op :: b :: more =>
    if isBinaryTest op then (testBinary a (String.ofList op) b).map fun v => (v, more)
    else if a == ['('] then do
      match ← inner (op :: b :: more) with
      | (v, [')'] :: rest) => return (v, rest)
      | _ => .error "closing paren expected"
    else if unaryTests.contains (String.ofList a) then
      .ok (testUnary s (String.ofList a) op, b :: more)
    else .ok (!a.isEmpty, op :: b :: more)

/-- A level of a test expression: alternatives of conjunctions of tests that may be negated. -/
inductive TestLevel where
  | either
  | both
  | single

/-- The value of a test expression and the arguments after it. Each call uses up an argument or goes
to a lower level. -/
def testExpression (s : State) : Nat → TestLevel → List Octets → Except String (Bool × List Octets)
  | 0, _, _ => .error "unexpected operator"
  | fuel + 1, .single, args =>
    match args with
    | ['!'] :: a :: rest => do
      let (v, rest) ← testExpression s fuel .single (a :: rest)
      return (!v, rest)
    | _ => testPrimary s (testExpression s fuel .either) args
  | fuel + 1, .both, args => do
    let (v, rest) ← testExpression s fuel .single args
    match rest with
    | ['-', 'a'] :: rest =>
      let (w, rest) ← testExpression s fuel .both rest
      return (v && w, rest)
    | _ => return (v, rest)
  | fuel + 1, .either, args => do
    let (v, rest) ← testExpression s fuel .both args
    match rest with
    | ['-', 'o'] :: rest =>
      let (w, rest) ← testExpression s fuel .either rest
      return (v || w, rest)
    | _ => return (v, rest)

/-- The value of a test expression that uses up all arguments. A message names the last one used. -/
def testWhole (s : State) (args : List Octets) : Except String Bool := do
  match ← testExpression s (4 * args.length + 4) .either args with
  | (v, []) => return v
  | (_, rest) =>
    let last := (args.take (args.length - rest.length)).getLast?.getD []
    .error ((if last.isEmpty then "" else Octets.toText last ++ ": ") ++ "unexpected operator")

/-- The value of a test. -/
def testValue (s : State) (args : List Octets) : Except String Bool := do
  match args with
  | [] => return false
  | ['!'] :: op :: [b] =>
    if isBinaryTest op then testBinary ['!'] (String.ofList op) b else testWhole s args
  | _ => testWhole s args

def test (name : String) (args : List Octets) : Run Unit := do
  match testValue (← get) args with
  | .ok b => setStatus (if b then 0 else 1)
  | .error message =>
    complain (name ++ ": " ++ message)
    setStatus 2

/-- A status or repeat count given as an argument. -/
def countArg (name : String) (arg : Octets) : Run Nat := do
  if !arg.isEmpty && arg.all Char.isDigit then return (numeralIn 10 0 arg).1
  else
    complain (name ++ ": Illegal number: " ++ Octets.toText arg)
    leaveWith 2

/-- The items of a line of input and the rest of the input, or `none` in its place if no newline
ends the line. A backslash protects the next character unless the input is taken as it is. -/
def inputLine (raw : Bool) : Octets → List Item × Option Octets
  | [] => ([], none)
  | '\n' :: rest => ([], some rest)
  | '\\' :: c :: rest =>
    if raw then
      let (line, after) := inputLine raw (c :: rest)
      (.char '\\' false true :: line, after)
    else
      let (line, after) := inputLine raw rest
      (if c == '\n' then line else .char c true false :: line, after)
  | c :: rest =>
    let (line, after) := inputLine raw rest
    (.char c false true :: line, after)

/-- Whether an item is one of some dividers. -/
def Item.isDivider (dividers : Octets) (blank : Bool) : Item → Bool
  | .char c _ true => dividers.contains c && (isSpace c == blank)
  | _ => false

/-- The first field of a line, and the rest after its divider. -/
def firstField (dividers : Octets) (line : List Item) : Octets × List Item :=
  let isBlank := Item.isDivider dividers true
  let isOther := Item.isDivider dividers false
  let field := line.takeWhile fun i => !isBlank i && !isOther i
  let rest := (line.drop field.length).dropWhile isBlank
  match rest with
  | i :: after => (itemText field, if isOther i then after.dropWhile isBlank else rest)
  | [] => (itemText field, [])

/-- Give the fields of a line to variables; the last one takes all that is left. -/
def assignFields (dividers : Octets) : List Octets → List Item → Run Unit
  | [], _ => pure ()
  | [n], line =>
    assign n (itemText (line.reverse.dropWhile (Item.isDivider dividers true)).reverse)
  | n :: ns, line => do
    let (field, rest) := firstField dividers line
    assign n field
    assignFields dividers ns rest

/-- Take a line of standard input into variables. -/
def readLine (raw : Bool) (names : List Octets) : Run Unit := do
  let s ← get
  let (line, rest) := inputLine raw s.input
  set { s with input := rest.getD [], status := if rest.isSome then 0 else 1 }
  assignFields s.dividers names (line.dropWhile (Item.isDivider s.dividers true))

def changeDir (target : Octets) : Run Unit := do
  let s ← get
  match s.files.resolve s.cwd target with
  | .ok loc =>
    if s.files.isDir loc then set { s with cwd := loc, status := 0 }
    else
      complain ("cd: can't cd to " ++ Octets.toText target)
      setStatus 2
  | .error _ =>
    complain ("cd: can't cd to " ++ Octets.toText target)
    setStatus 2

/-- Commands of the shell whose failures end it. -/
def specialBuiltins : List String :=
  [":", ".", "break", "continue", "eval", "exec", "exit", "export", "readonly", "return", "set",
    "shift", "trap", "unset"]

/-- Switch the ways of working that letters name. -/
def switchLetters (on : Bool) (letters : Octets) : Run Unit :=
  letters.forM fun c => modify fun s =>
    { s with switches := match c with
        | 'e' => { s.switches with leaveOnFailure := on }
        | 'u' => { s.switches with refuseUnset := on }
        | 'x' => { s.switches with trace := on }
        | _ => s.switches }

/-- Set switches and positional parameters. -/
def setShell : List Octets → Run Unit
  | [] => setStatus 0
  | ['-', '-'] :: rest => modify fun s => { s with params := rest, status := 0 }
  | ('-' :: letters) :: rest => do
    switchLetters true letters
    setShell rest
  | ('+' :: letters) :: rest => do
    switchLetters false letters
    setShell rest
  | params => modify fun s => { s with params, status := 0 }

/-- The signal that a trap is for; zero is the end of the shell. -/
def trapNumber? (cs : Octets) : Option Nat :=
  if cs == "EXIT".toList then some 0 else signalOf? cs

/-- Set or forget scripts for signals. -/
def setTraps (action : Octets) (signals : List Octets) : Run Unit := do
  setStatus 0
  signals.forM fun name =>
    match trapNumber? name with
    | some n => modify fun s =>
      let others := s.traps.filter fun t => t.1 != n
      { s with traps := if action == ['-'] then others else (n, action) :: others }
    | none => do
      complain ("trap: " ++ Octets.toText name ++ ": bad trap")
      setStatus 1

/-- Give a variable to the current function alone. -/
def makeLocal (arg : Octets) : Run Unit := do
  let name := arg.takeWhile (· != '=')
  modify fun s =>
    match s.saved with
    | frame :: frames => { s with saved := ((name, lookup s.vars name) :: frame) :: frames }
    | [] => s
  match arg.dropWhile (· != '=') with
  | _ :: value => assign name value
  | [] => pure ()

/-- Leave loops, if there are any. -/
def leaveLoops (name : String) (leave : Nat → Leave) (args : List Octets) : Run Unit := do
  let n ← match args with
    | [] => pure 1
    | a :: _ => countArg name a
  let around := (← get).loops
  setStatus 0
  if around == 0 then return
  throw (leave (min n around))

/-- Print arguments by a format. -/
def printByFormat : List Octets → Run Unit
  | [] => do
    complain "printf: usage: printf format [arg ...]"
    setStatus 2
  | format :: args => do
    let (printed, bad) := printfText format args
    printed.complaints.forM fun c => complain ("printf: " ++ c)
    say printed.out
    match bad with
    | some [] =>
      complain "printf: missing format character"
      setStatus 2
    | some cs =>
      complain ("printf: " ++ Octets.toText cs ++ ": invalid directive")
      setStatus 2
    | none => setStatus (if printed.complaints.isEmpty then 0 else 1)

/-- The same after a look for options, of which there are none. -/
def printArgs : List Octets → Run Unit
  | ['-', '-'] :: args => printByFormat args
  | ('-' :: c :: _) :: _ => do
    complain ("printf: Illegal option -" ++ String.singleton c)
    setStatus 2
  | args => printByFormat args

/-- Run a command of the shell itself; `false` says that there is none of this name. -/
def builtin (name : String) (args : List Octets) : Run Bool :=
  match name with
  | ":" | "true" => do
    setStatus 0
    return true
  | "false" => do
    setStatus 1
    return true
  | "echo" => do
    say (echoText args)
    setStatus 0
    return true
  | "printf" => do
    printArgs args
    return true
  | "exit" => do
    match args with
    | [] => throw .exit
    | a :: _ => leaveWith ((← countArg "exit" a) % 256)
  | "kill" => do
    setStatus 0
    kill args
    return true
  | "test" => do
    test "test" args
    return true
  | "[" => do
    if args.getLast? == some [']'] then test "[" args.dropLast
    else
      complain "[: missing ]"
      setStatus 2
    return true
  | "shift" => do
    let n ← match args with
      | [] => pure 1
      | a :: _ => countArg "shift" a
    if (← get).params.length < n then
      complain "shift: can't shift that many"
      leaveWith 2
    else
      modify fun s => { s with params := s.params.drop n, status := 0 }
      return true
  | "set" => do
    setShell args
    return true
  | "break" => do
    leaveLoops "break" .endLoops args
    return true
  | "continue" => do
    leaveLoops "continue" .nextRound args
    return true
  | "return" => do
    match args with
    | [] => throw .function
    | a :: _ =>
      setStatus (← countArg "return" a)
      throw .function
  | "local" => do
    args.forM makeLocal
    setStatus 0
    return true
  | "trap" => do
    match args with
    | action :: signals => setTraps action signals
    | [] => setStatus 0
    return true
  | "wait" => do
    setStatus 0
    return true
  | "cd" => do
    changeDir (args.head?.getD ['/'])
    return true
  | "pwd" => do
    say (locationPath (← get).cwd ++ ['\n'])
    setStatus 0
    return true
  | "read" => do
    readLine (args.contains ['-', 'r']) (args.filter (· != ['-', 'r']))
    return true
  | "readonly" => do
    args.forM fun a =>
      match a.dropWhile (· != '=') with
      | _ :: value => assign (a.takeWhile (· != '=')) value
      | [] => pure ()
    setStatus 0
    return true
  | "export" => do
    args.forM fun a => do
      let name := a.takeWhile (· != '=')
      match a.dropWhile (· != '=') with
      | _ :: value => assign name value
      | [] => pure ()
      modify fun s => { s with exported := name :: s.exported }
    setStatus 0
    return true
  | "unset" => do
    modify fun s => { s with status := 0,
                             vars := s.vars.filter fun v => !args.contains v.1,
                             functions := s.functions.filter fun f =>
                               !(args.contains ['-', 'f'] && args.contains f.1) }
    return true
  | _ => return false

end StyleAudit.Machine.Shell
