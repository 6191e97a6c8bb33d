import StyleAudit.Machine.Shell.Builtin
import StyleAudit.Machine.Shell.Program
import StyleAudit.Machine.Shell.Script

/-! # Running shell scripts

Everything that a shell starts runs to its end before the next command, so a pipeline hands over
whole texts. Work is bounded by a fuel argument; a script that uses it up counts as killed. -/

namespace StyleAudit.Machine.Shell
set_option autoImplicit false

/-- The variables that a started program sees. -/
def State.environment (s : State) : List (Octets × Octets) :=
  s.vars.filter fun v => s.exported.contains v.1

def killedText : Nat → String
  | 9 => "Killed"
  | 15 => "Terminated"
  | 6 => "Aborted"
  | 11 => "Segmentation fault"
  | 1 => "Hangup"
  | n => "Signal " ++ toString n

/-- Run something with its own variables, parameters and streams; files and buffers are shared. -/
def apart (setup : State → State) (body : Run Unit) : Run (Except Leave Nat) := fun s =>
  let (result, t) := body (setup { s with loops := 0, traps := [] })
  let after := { s with files := t.files, buffers := t.buffers }
  match result with
  | .error (.signal n) => (.ok (.error (.signal n)), after)
  | _ => (.ok (.ok t.status), after)

/-- Run a part of a script in a shell of its own. A signal reaches the whole shell. -/
def inSubshell (setup : State → State) (body : Run Unit) : Run Unit := do
  match ← apart setup body with
  | .ok n => setStatus n
  | .error (.signal n) => throw (.signal n)
  | .error _ => pure ()

/-- The text of the buffer made last, which is taken away. -/
def takeBuffer : Run Octets := fun s =>
  match s.buffers.back? with
  | some b => (.ok (Octets.ofBytes b), { s with buffers := s.buffers.pop })
  | none => (.ok [], s)

/-- Send the output of a body to a new buffer and give the text. -/
def captured (body : Run Unit) : Run Octets := do
  let n := (← get).buffers.size
  modify fun s => { s with buffers := s.buffers.push .empty }
  let status := (← get).status
  inSubshell (fun s => { s with out := .buffer n }) body
  modify fun s => { s with inner := s.status, status }
  takeBuffer

def intOctets (n : Int) : Octets :=
  if n < 0 then '-' :: natOctets n.natAbs else natOctets n.natAbs

def dropNewlines (cs : Octets) : Octets := (cs.reverse.dropWhile (· == '\n')).reverse

/-- The message for a file that cannot be opened. -/
def openText (creating : Bool) (cause : Cause) : String :=
  if cause = .noEntry || cause = .notDirectory then
    if creating then "Directory nonexistent" else "No such file"
  else causeText cause

/-- Open the target of a redirection; `false` says that it cannot be opened. -/
def redirect (descriptor : Nat) (target : Target) (word : Octets) : Run Bool := do
  let s ← get
  let fail := fun (action : String) (creating : Bool) (cause : Cause) => do
    complain (action ++ " " ++ Octets.toText word ++ ": " ++ openText creating cause)
    return false
  let openFile := fun (keep : Bool) => do
    match s.files.openWrite s.cwd word keep with
    | .error cause => fail "cannot create" true cause
    | .ok (loc, files) =>
      let sink := if word == nowhere then .closed else Sink.file loc
      if descriptor == 2 then set { s with files, err := sink }
      else if descriptor == 1 then set { s with files, out := sink }
      return true
  match target with
  | .input _ =>
    match s.files.read s.cwd word with
    | .ok data =>
      set { s with input := Octets.ofBytes data }
      return true
    | .error cause =>
      if word == nowhere then
        set { s with input := [] }
        return true
      else fail "cannot open" false cause
  | .write _ =>
    if word == nowhere then
      set (if descriptor == 2 then { s with err := .closed } else { s with out := .closed })
      return true
    else openFile false
  | .append _ =>
    if word == nowhere then
      set (if descriptor == 2 then { s with err := .closed } else { s with out := .closed })
      return true
    else openFile true
  | .document _ =>
    set { s with input := word }
    return true
  | .copy _ =>
    let source := match word with
      | ['1'] => s.out
      | ['2'] => s.err
      | _ => .closed
    if descriptor == 2 then set { s with err := source }
    else if descriptor == 1 then set { s with out := source }
    return true

def targetWord : Target → Word
  | .input w => w
  | .write w => w
  | .append w => w
  | .copy w => w
  | .document w => w

/-- The command line of a shell: an inline script, a script file, or standard input. -/
inductive ShellJob where
  | inline (source name : Octets) (params : List Octets)
  | file (path : Octets) (params : List Octets)
  | input (params : List Octets)
  | refused (message : String)

/-- What follows the options of a shell that was started as `program`. -/
def shellOperands (program : Octets) (isInline : Bool) : List Octets → ShellJob
  | [] => if isInline then .refused "-c requires an argument" else .input []
  | a :: rest =>
    if isInline then
      match rest with
      | [] => .inline a program []
      | name :: params => .inline a name params
    else .file a rest

/-- Read the arguments of a shell. -/
def shellJob (program : Octets) (isInline : Bool) : List Octets → ShellJob
  | ['-', '-'] :: rest => shellOperands program isInline rest
  | ['-'] :: rest => shellOperands program isInline rest
  | ('-' :: letters) :: rest =>
    match letters.find? fun c => !"aCcefnuvxIimqVEbs".toList.contains c with
    | some c => .refused ("Illegal option -" ++ String.singleton c)
    | none => shellJob program (isInline || letters.contains 'c') rest
  | args => shellOperands program isInline args

/-- The switches that the options of a shell turn on. -/
def shellSwitches : List Octets → Switches
  | ('-' :: letters) :: rest =>
    let others := shellSwitches rest
    { leaveOnFailure := others.leaveOnFailure || letters.contains 'e'
      refuseUnset := others.refuseUnset || letters.contains 'u'
      trace := others.trace || letters.contains 'x' }
  | _ => {}

/-- Run the body of a loop once; `false` says that the loop is to end. -/
def roundOf (body : Run Unit) : Run Bool := fun s =>
  let (result, t) := body { s with loops := s.loops + 1 }
  let t := { t with loops := s.loops }
  match result with
  | .ok () => (.ok true, t)
  | .error (.nextRound n) => if n ≤ 1 then (.ok true, t) else (.error (.nextRound (n - 1)), t)
  | .error (.endLoops n) => if n ≤ 1 then (.ok false, t) else (.error (.endLoops (n - 1)), t)
  | .error leave => (.error leave, t)

/-- Run the body of a function with its parameters; what it made local is put back. -/
def callOf (params : List Octets) (body : Run Unit) : Run Unit := fun s =>
  let (result, t) := body { s with params, loops := 0, saved := [] :: s.saved }
  let vars := (t.saved.head?.getD []).foldl putBack t.vars
  let t := { t with params := s.params, loops := s.loops, saved := s.saved, vars }
  match result with
  | .error .function => (.ok (), t)
  | result => (result, t)

/-- Run a body that may be left like a function. -/
def untilReturn (body : Run Unit) : Run Unit := fun s =>
  match body s with
  | (.error .function, t) => (.ok (), t)
  | result => result

/-- Run a body whose status is looked at. -/
def whileTested (body : Run Unit) : Run Unit := fun s =>
  let (result, t) := body { s with tested := true }
  (result, { t with tested := s.tested })

/-- Leave after a failure if the script asks for it and nobody looks at the status. -/
def leaveIfFailed : Run Unit := do
  let s ← get
  if s.switches.leaveOnFailure && !s.tested && s.status != 0 then throw .exit

/-- Show a command before it runs. -/
def showCommand (sink : Sink) (assigned : List (Octets × Octets)) (args : List Octets) :
    Run Unit := do
  if (← get).switches.trace then
    let shown := assigned.map (fun a => a.1 ++ '=' :: a.2) ++ args
    write sink ("+ ".toList ++ [' '].intercalate shown ++ ['\n'])

/-- A file without an interpreter of its own is a script for the shell. -/
def asScript : Executable → Executable
  | .script path data =>
    if (interpreter? data).isNone then .script path ("#!/bin/sh\n".toUTF8 ++ data)
    else .script path data
  | .tool name => .tool name

/-- The commands of the shell that run scripts or programs. -/
def runners : List String := ["eval", ".", "exec", "command"]

/-- How a name would be run, as `command -v` tells it. -/
def State.describe (s : State) (name : Octets) : Option Octets :=
  let known := specialBuiltins ++ runners ++
    ["true", "false", "echo", "printf", "kill", "test", "[", "cd", "pwd", "read", "local", "wait"]
  if known.contains (String.ofList name) || (s.functions.lookup name).isSome then some name
  else match findProgram s name with
    | .ok (.tool t) => some ("/usr/bin/" ++ t).toList
    | .ok (.script path _) => some path
    | .error _ => none

mutual

/-- Expand a word to items. -/
def expand : Nat → Word → Run (List Item)
  | 0, _ => throw (.signal 9)
  | _, [] => pure []
  | fuel + 1, piece :: rest => do
    let first ← expandPiece fuel piece
    let others ← expand fuel rest
    return first ++ others

def expandPiece : Nat → Piece → Run (List Item)
  | 0, _ => throw (.signal 9)
  | fuel + 1, piece =>
    match piece with
    | .text quoted cs => pure (if quoted && cs.isEmpty then [.anchor] else items quoted false cs)
    | .param quoted ['@'] [] _ => do return paramItems quoted (← get).params
    | .param false ['*'] [] _ => do return paramItems false (← get).params
    | .param quoted name op operand => do
      let result ← expandParam fuel quoted name op operand
      return if quoted then .anchor :: result else result
    | .length quoted name => do
      let value := itemText (← expandParam fuel true name [] [])
      return items quoted (!quoted) (natOctets value.length)
    | .command quoted source => do
      let text ← captured (runSource fuel source)
      let result := items quoted (!quoted) ((dropNewlines text).filter (· != '\x00'))
      return if quoted then .anchor :: result else result
    | .arith quoted source => do
      match quotedWord source with
      | .error message =>
        complain message
        leaveWith 2
      | .ok word =>
        let text := itemText (← expand fuel word)
        let s ← get
        match evaluate (fun name => (s.param name).getD []) text with
        | .ok (n, assigned) =>
          assigned.reverse.forM fun a => assign a.1 (intOctets a.2)
          return items quoted (!quoted) (intOctets n)
        | .error fault =>
          complain (fault.message text)
          leaveWith 2

/-- The items of an operand, which may stand in quotes as a whole. -/
def expandOperand : Nat → Bool → Octets → Run (List Item)
  | 0, _, _ => throw (.signal 9)
  | fuel + 1, quoted, source =>
    match if quoted then quotedWord source else operandWord source with
    | .ok word => expand fuel word
    | .error message => do
      complain message
      leaveWith 2

/-- The items of a parameter with an operator. -/
def expandParam : Nat → Bool → Octets → Octets → Octets → Run (List Item)
  | 0, _, _, _, _ => throw (.signal 9)
  | fuel + 1, quoted, name, op, operand => do
    let value := (← get).param name
    let present := match op with
      | ':' :: _ => match value with
        | some (_ :: _) => true
        | _ => false
      | _ => value.isSome
    let own := items quoted (!quoted) (value.getD [])
    let requote := fun (is : List Item) => if quoted then items true false (itemText is) else is
    let handlesUnset := "-+=?".toList.contains (op.getLast?.getD '#')
    if !present && (← get).switches.refuseUnset && !handlesUnset then
      complain (Octets.toText name ++ ": parameter not set")
      leaveWith 2
    match op.getLast? with
    | none => return own
    | some '-' =>
      if present then return own else return requote (← expandOperand fuel quoted operand)
    | some '+' =>
      if present then return requote (← expandOperand fuel quoted operand) else return []
    | some '=' =>
      if present then return own
      else
        let text := itemText (← expandOperand fuel quoted operand)
        assign name text
        return items quoted (!quoted) text
    | some '?' =>
      if present then return own
      else
        let text := itemText (← expandOperand fuel quoted operand)
        complain (Octets.toText name ++ ": " ++
          if !text.isEmpty then Octets.toText text
          else if op.head? == some ':' then "parameter not set or null" else "parameter not set")
        leaveWith 2
    | some c =>
      let pattern := itemPattern (← expandOperand fuel false operand)
      let longest := op.length == 2
      let cs := value.getD []
      return items quoted (!quoted)
        (if c == '#' then dropStart longest pattern cs else dropEnd longest pattern cs)

/-- The fields of a list of words. -/
def expandWords : Nat → List Word → Run (List Octets)
  | 0, _ => throw (.signal 9)
  | _, [] => pure []
  | fuel + 1, w :: ws => do
    let is ← expand fuel w
    let s ← get
    let first := (fields s.dividers is).flatMap (fieldPaths s.files s.cwd)
    let others ← expandWords fuel ws
    return first ++ others

/-- Run a script from its source. -/
def runSource : Nat → Octets → Run Unit
  | 0, _ => throw (.signal 9)
  | fuel + 1, source => runTokens fuel (tokens source)

/-- Run complete commands one after the other. -/
def runTokens : Nat → List Token → Run Unit
  | 0, _ => throw (.signal 9)
  | fuel + 1, ts => do
    match nextCommand 1 ts with
    | .ok none => pure ()
    | .ok (some (c, rest)) =>
      runCommand fuel c
      runTokens fuel rest
    | .error bad =>
      modify fun s => { s with line := bad.line }
      complain bad.message
      leaveWith 2

/-- Apply redirections; `false` says that one failed. -/
def applyRedirections : Nat → List Redirection → Run Bool
  | 0, _ => throw (.signal 9)
  | _, [] => pure true
  | fuel + 1, r :: rs => do
    let word := itemText (← expand fuel (targetWord r.target))
    if ← redirect r.descriptor r.target word then applyRedirections fuel rs else return false

/-- Run a command with redirections, which end with it. -/
def redirected : Nat → List Redirection → Command → Run Unit
  | 0, _, _ => throw (.signal 9)
  | fuel + 1, rs, body => do
    let before ← get
    if ← applyRedirections fuel rs then runCommand fuel body else setStatus 2
    modify fun s => { s with out := before.out, err := before.err,
                             input := if rs.isEmpty then s.input else before.input }

def runCommand : Nat → Command → Run Unit
  | 0, _ => throw (.signal 9)
  | fuel + 1, c =>
    match c with
    | .simple line assignments words rs => do
      modify fun s => { s with line }
      runSimple fuel assignments words rs
      leaveIfFailed
    | .pipeline true stages => do
      whileTested (runStages fuel stages)
      modify fun s => { s with status := if s.status == 0 then 1 else 0 }
    | .pipeline false stages => do
      runStages fuel stages
      leaveIfFailed
    | .chain onSuccess first second => do
      whileTested (runCommand fuel first)
      if ((← get).status == 0) == onSuccess then runCommand fuel second
    | .sequence cs => runAll fuel cs
    | .branch condition onTrue onFalse => do
      whileTested (runCommand fuel condition)
      if (← get).status == 0 then runCommand fuel onTrue
      else
        setStatus 0
        runCommand fuel onFalse
    | .define name body => do
      modify fun s =>
        let others := s.functions.filter fun f => f.1 != name
        { s with status := 0, functions := (name, body) :: others }
    | .loop onSuccess condition body => runLoop fuel onSuccess 0 condition body
    | .each name words body => do
      let values ← match words with
        | some ws => expandWords fuel ws
        | none => do pure (← get).params
      setStatus 0
      runEach fuel name values body
    | .select word arms => do
      let text := itemText (← expand fuel word)
      setStatus 0
      runArms fuel text arms
    | .group body rs => if rs.isEmpty then runCommand fuel body else redirected fuel rs body
    | .subshell body rs => do
      inSubshell id (redirected fuel rs body)
      leaveIfFailed

def runAll : Nat → List Command → Run Unit
  | 0, _ => throw (.signal 9)
  | _, [] => pure ()
  | fuel + 1, c :: cs => do
    runCommand fuel c
    runAll fuel cs

/-- Run the stages of a pipeline, each on the output of the one before. -/
def runStages : Nat → List Command → Run Unit
  | 0, _ => throw (.signal 9)
  | _, [] => pure ()
  | fuel + 1, [c] =>  runCommand fuel c
  | fuel + 1, c :: d :: cs => do
    let text ← captured (runCommand fuel c)
    let before := (← get).input
    modify fun s => { s with input := text }
    inSubshell id (runStages fuel (d :: cs))
    modify fun s => { s with input := before }

/-- Repeat a body; the status is that of its last round. -/
def runLoop : Nat → Bool → Nat → Command → Command → Run Unit
  | 0, _, _, _, _ => throw (.signal 9)
  | fuel + 1, onSuccess, last, condition, body => do
    whileTested (runCommand fuel condition)
    if ((← get).status == 0) == onSuccess then
      match ← roundOf (runCommand fuel body) with
      | true => runLoop fuel onSuccess (← get).status condition body
      | false => pure ()
    else setStatus last

/-- Run a body for each value of a variable. -/
def runEach : Nat → Octets → List Octets → Command → Run Unit
  | 0, _, _, _ => throw (.signal 9)
  | _, _, [], _ => pure ()
  | fuel + 1, name, v :: vs, body => do
    assign name v
    match ← roundOf (runCommand fuel body) with
    | true => runEach fuel name vs body
    | false => pure ()

/-- Run the first arm with a pattern that fits. -/
def runArms : Nat → Octets → List (List Word × Command) → Run Unit
  | 0, _, _ => throw (.signal 9)
  | _, _, [] => pure ()
  | fuel + 1, text, (patterns, body) :: arms => do
    if ← anyFits fuel text patterns then runCommand fuel body else runArms fuel text arms

def anyFits : Nat → Octets → List Word → Run Bool
  | 0, _, _ => throw (.signal 9)
  | _, _, [] => pure false
  | fuel + 1, text, w :: ws => do
    if fits (itemPattern (← expand fuel w)) text then return true else anyFits fuel text ws

/-- The values of assignments, each of which is made before the next is read. -/
def assignAll : Nat → List (Octets × Word) → Run (List (Octets × Octets))
  | 0, _ => throw (.signal 9)
  | _, [] => pure []
  | fuel + 1, (name, word) :: rest => do
    let value := itemText (← expand fuel word)
    assign name value
    let others ← assignAll fuel rest
    return (name, value) :: others

/-- Run a simple command: a function, a command of the shell, or a program. -/
def runSimple : Nat → List (Octets × Word) → List Word → List Redirection → Run Unit
  | 0, _, _, _ => throw (.signal 9)
  | fuel + 1, assignments, words, rs => do
    modify fun s => { s with inner := 0 }
    let args ← expandWords fuel words
    let before ← get
    let restore := modify fun s => { s with
      out := before.out, err := before.err, input := if rs.isEmpty then s.input else before.input }
    match args with
    | [] =>
      if !(← applyRedirections fuel rs) then
        restore
        setStatus 2
      else
        restore
        let assigned ← assignAll fuel assignments
        if !assigned.isEmpty then showCommand before.err assigned []
        setStatus (← get).inner
    | name :: rest =>
      let special := specialBuiltins.contains (String.ofList name)
      if !(← applyRedirections fuel rs) then
        restore
        if special then leaveWith 2 else setStatus 2
      else
        let assigned ← assignAll fuel assignments
        showCommand before.err assigned args
        runNamed fuel (assigned.map Prod.fst) name rest
        if !(name == "exec".toList && rest.isEmpty) then restore
        if !special && !assignments.isEmpty then
          let old := assigned.reverse.map fun a => (a.1, lookup before.vars a.1)
          modify fun s => { s with vars := old.foldl putBack s.vars, exported := before.exported }
        runDue fuel

/-- Run the scripts of signals that have come. -/
def runDue : Nat → Run Unit
  | 0 => throw (.signal 9)
  | fuel + 1 => do
    match (← get).due with
    | [] => pure ()
    | source :: rest =>
      let status := (← get).status
      modify fun s => { s with due := rest }
      runSource fuel source
      setStatus status
      runDue fuel

/-- Run what a name stands for. Programs see the variables that were assigned for them. -/
def runNamed : Nat → List Octets → Octets → List Octets → Run Unit
  | 0, _, _, _ => throw (.signal 9)
  | fuel + 1, assigned, name, args => do
    let functions := (← get).functions
    let special := specialBuiltins.contains (String.ofList name)
    match if special then none else functions.lookup name with
    | some body => callOf args (runCommand fuel body)
    | none => runUnnamed fuel assigned name args

/-- The same without functions. -/
def runUnnamed : Nat → List Octets → Octets → List Octets → Run Unit
  | 0, _, _, _ => throw (.signal 9)
  | fuel + 1, assigned, name, args => do
    if runners.contains (String.ofList name) then runRunner fuel (String.ofList name) args
    else if !(← builtin (String.ofList name) args) then
      modify fun s => { s with exported := assigned ++ s.exported }
      runProgram fuel name args

/-- Commands of the shell that run scripts or programs. -/
def runRunner : Nat → String → List Octets → Run Unit
  | 0, _, _ => throw (.signal 9)
  | fuel + 1, name, args => do
    match name, args with
    | "eval", _ =>
      setStatus 0
      runSource fuel ([' '].intercalate args)
    | ".", path :: _ =>
      let s ← get
      match if path.contains '/' then s.files.read s.cwd path else .error .noEntry with
      | .ok data =>
        setStatus 0
        untilReturn (runSource fuel (Octets.ofBytes data))
      | .error cause =>
        if path.contains '/' then
          complain (".: cannot open " ++ Octets.toText path ++ ": " ++ openText false cause)
          leaveWith 2
        else
          complain (".: " ++ Octets.toText path ++ ": not found")
          leaveWith 2
    | "exec", program :: args =>
      match findProgram (← get) program with
      | .error cause =>
        let missing := cause = .noEntry || cause = .notDirectory
        complain ("exec: " ++ Octets.toText program ++ ": " ++
          if missing then "not found" else causeText cause)
        leaveWith (if missing then 127 else 126)
      | .ok found =>
        modify fun s => { s with traps := [] }
        execute fuel program (asScript found) args
        throw .exit
    | "command", ['-', 'v'] :: operand :: _ =>
      match (← get).describe operand with
      | some text =>
        say (text ++ ['\n'])
        setStatus 0
      | none => setStatus 127
    | "command", ['-', '-'] :: operand :: args => runUnnamed fuel [] operand args
    | "command", operand :: args => runUnnamed fuel [] operand args
    | _, _ => setStatus 0

/-- Run a program by name from inside the shell. -/
def runProgram : Nat → Octets → List Octets → Run Unit
  | 0, _, _ => throw (.signal 9)
  | fuel + 1, name, args => do
    match findProgram (← get) name with
    | .error cause =>
      let missing := cause = .noEntry || cause = .notDirectory
      complain (Octets.toText name ++ ": " ++ if missing then "not found" else causeText cause)
      setStatus (if missing || !name.contains '/' then 127 else 126)
    | .ok found =>
      match ← apart id (execute fuel name (asScript found) args) with
      | .ok n => setStatus n
      | .error (.signal n) =>
        write (← get).err (Octets.ofText (killedText n ++ "\n"))
        setStatus (128 + n)
      | .error _ => pure ()

/-- Be a program: a tool, or a script under its interpreter. -/
def execute : Nat → Octets → Executable → List Octets → Run Unit
  | 0, _, _, _ => throw (.signal 9)
  | fuel + 1, name, found, args => do
    match found with
    | .tool "sh" => runShell fuel name args
    | .tool tool =>
      let s ← get
      let o := runTool tool { files := s.files, cwd := s.cwd, input := s.input, args }
      set { s with files := o.files }
      say o.out
      write s.err (Octets.ofText o.err)
      setStatus o.status
    | .script path data =>
      match interpreter? data with
      | none => leaveWith 126
      | some (program, arg) =>
        match programAt (← get) program with
        | .ok inner => execute fuel program inner (arg.toList ++ path :: args)
        | .error _ => leaveWith 127

/-- Run the script of a shell, and at its end what is set for the end. -/
def runToEnd : Nat → Octets → Run Unit
  | 0, _ => throw (.signal 9)
  | fuel + 1, source => fun s =>
    let (result, t) := runSource fuel source s
    match result, t.traps.lookup 0 with
    | .error (.signal n), _ => (.error (.signal n), t)
    | _, none => (.error .exit, t)
    | _, some action =>
      match runSource fuel action { t with traps := [], tested := false } with
      | (.ok (), u) => (.error .exit, { u with status := t.status })
      | (result, u) => (result, u)

/-- Be a shell that was started as `program`. -/
def runShell : Nat → Octets → List Octets → Run Unit
  | 0, _, _ => throw (.signal 9)
  | fuel + 1, program, args => do
    modify fun s => { s with
      name := program, line := 0, status := 0, vars := s.environment, params := [],
      switches := shellSwitches args, tested := false, functions := [], saved := [], loops := 0,
      traps := [], due := [] }
    match shellJob program false args with
    | .refused message =>
      complain message
      leaveWith 2
    | .inline source name params =>
      modify fun s => { s with name, params, line := 1 }
      runToEnd fuel source
    | .input params =>
      let source := (← get).input
      modify fun s => { s with params, input := [], line := 1 }
      runToEnd fuel source
    | .file path params =>
      let s ← get
      match s.files.read s.cwd path with
      | .ok data =>
        modify fun s => { s with name := path, params, line := 1 }
        runToEnd fuel (Octets.ofBytes data)
      | .error cause =>
        if cause = .isDirectory then pure ()
        else
          complain ("cannot open " ++ Octets.toText path ++ ": " ++ openText false cause)
          leaveWith 2

end

end StyleAudit.Machine.Shell
