import StyleAudit.Machine.FileTree

/-! # System tools

The few programs that every machine has besides its shell. -/

namespace StyleAudit.Machine
set_option autoImplicit false

/-- What a tool works on. -/
structure ToolInput where
  files : FileTree
  cwd : Location
  input : Octets
  args : List Octets

/-- What a tool leaves. -/
structure ToolOutput where
  files : FileTree
  out : Octets := []
  err : String := ""
  status : Nat := 0
  /-- Standard input was read to its end. -/
  inputRead : Bool := false

def errnoOf : Cause → Nat
  | .os n => n
  | _ => 5

def causeText (c : Cause) : String := Cause.errnoText (errnoOf c)

namespace ToolOutput

def complain (o : ToolOutput) (message : String) : ToolOutput :=
  { o with err := o.err ++ message ++ "\n", status := 1 }

end ToolOutput

/-- Options and operands of a command line; `--` ends the options. -/
def splitOptions : List Octets → List Octets × List Octets
  | [] => ([], [])
  | ['-', '-'] :: rest => ([], rest)
  | arg :: rest =>
    let (options, operands) := splitOptions rest
    if arg.head? == some '-' && 1 < arg.length then (arg :: options, operands)
    else (options, arg :: operands)

/-- The complaint about the first option that a tool does not know. -/
def badOption? (tool : String) (letters : List Char) (long : List String) (options : List Octets) :
    Option String :=
  let hint := "\nTry '" ++ tool ++ " --help' for more information."
  options.findSome? fun o =>
    match o with
    | '-' :: '-' :: name =>
      if long.contains (Octets.toText name) then none
      else some (tool ++ ": unrecognized option '" ++ Octets.toText o ++ "'" ++ hint)
    | _ =>
      (o.drop 1).findSome? fun c =>
        if letters.contains c then none
        else some (tool ++ ": invalid option -- '" ++ String.singleton c ++ "'" ++ hint)

def hasOption (letters : List Char) (long : String) (options : List Octets) : Bool :=
  options.any fun o =>
    match o with
    | '-' :: '-' :: name => name == long.toList
    | _ => (o.drop 1).any letters.contains

def bannerText (tool : String) : Octets := (tool ++ " (GNU coreutils) 9.1\n").toList

def catOne (i : ToolInput) (o : ToolOutput) (path : Octets) : ToolOutput :=
  if path == ['-'] then
    { o with out := o.out ++ (if o.inputRead then [] else i.input), inputRead := true }
  else match i.files.read i.cwd path with
    | .ok data => { o with out := o.out ++ Octets.ofBytes data }
    | .error cause => o.complain ("cat: " ++ Octets.toText path ++ ": " ++ causeText cause)

/-- Print files, or standard input. -/
def cat (i : ToolInput) (options operands : List Octets) : ToolOutput :=
  match badOption? "cat" "AbeEnstTuv".toList [] options with
  | some message => ToolOutput.complain { files := i.files } message
  | none =>
    (if operands.isEmpty then [['-']] else operands).foldl (catOne i) { files := i.files }

def rmOne (i : ToolInput) (recursive force : Bool) (o : ToolOutput) (path : Octets) : ToolOutput :=
  let shown := Octets.toText path
  let refuse := fun text => o.complain ("rm: cannot remove '" ++ shown ++ "': " ++ text)
  let last := (FileTree.segmentsBack path).head?
  match o.files.resolve i.cwd path with
  | .error cause =>
    if force && (cause = .noEntry || cause = .notDirectory) then o else refuse (causeText cause)
  | .ok loc =>
    if o.files.isDir loc then
      if !recursive then refuse "Is a directory"
      else if last == some ['.'] || last == some ['.', '.'] then
        o.complain ("rm: refusing to remove '.' or '..' directory: skipping '" ++ shown ++ "'")
      else { o with files := o.files.remove loc }
    else { o with files := o.files.remove loc }

/-- Remove files, and directories if asked to. -/
def rm (i : ToolInput) (options operands : List Octets) : ToolOutput :=
  match badOption? "rm" "dfiIrRv".toList ["recursive", "force", "verbose", "dir"] options with
  | some message => ToolOutput.complain { files := i.files } message
  | none =>
    let force := hasOption ['f'] "force" options
    if operands.isEmpty && !force then
      ToolOutput.complain { files := i.files }
        "rm: missing operand\nTry 'rm --help' for more information."
    else
      let recursive := hasOption ['r', 'R'] "recursive" options
      operands.foldl (rmOne i recursive force) { files := i.files }

def mkdirOne (i : ToolInput) (parents : Bool) (o : ToolOutput) (path : Octets) : ToolOutput :=
  let refuse := fun text =>
    o.complain ("mkdir: cannot create directory '" ++ Octets.toText path ++ "': " ++ text)
  if parents then
    let target := (Path.split path).foldl (fun (loc : Location) s =>
      if s.isEmpty || s == ['.'] then loc else if s == ['.', '.'] then loc.tail else s :: loc)
      (FileTree.origin i.cwd path)
    let made := o.files.makeDirs target
    if path.isEmpty then refuse "No such file or directory"
    else if made.isDir target then { o with files := made }
    else refuse "File exists"
  else match o.files.resolveNew i.cwd path with
    | .error cause => refuse (causeText cause)
    | .ok loc =>
      if (o.files.node? loc).isSome then refuse "File exists"
      else { o with files := o.files.put loc .dir }

/-- Make directories. -/
def mkdir (i : ToolInput) (options operands : List Octets) : ToolOutput :=
  match badOption? "mkdir" "pv".toList ["parents", "verbose"] options with
  | some message => ToolOutput.complain { files := i.files } message
  | none =>
    if operands.isEmpty then
      ToolOutput.complain { files := i.files }
        "mkdir: missing operand\nTry 'mkdir --help' for more information."
    else operands.foldl (mkdirOne i (hasOption ['p'] "parents" options)) { files := i.files }

/-- The part of a path before its last name. -/
def dirnameOf (path : Octets) : Octets :=
  let dropSlashes := fun cs : Octets => cs.dropWhile (· == '/')
  let back := dropSlashes path.reverse
  let above := dropSlashes (back.dropWhile (· != '/'))
  if above.isEmpty then (if path.head? == some '/' then ['/'] else ['.']) else above.reverse

def dirname (i : ToolInput) (options operands : List Octets) : ToolOutput :=
  match badOption? "dirname" ['z'] ["zero"] options with
  | some message => ToolOutput.complain { files := i.files } message
  | none =>
    if operands.isEmpty then
      ToolOutput.complain { files := i.files }
        "dirname: missing operand\nTry 'dirname --help' for more information."
    else { files := i.files, out := operands.flatMap fun p => dirnameOf p ++ ['\n'] }

/-- The tools by name. -/
def tools : List String := ["sh", "cat", "true", "false", "rm", "mkdir", "dirname", "echo"]

/-- Directories that hold the tools. -/
def toolDirs : List Octets := ["/usr/bin", "/bin"].map String.toList

/-- The tool that an absolute path names. -/
def toolAt? (path : Octets) : Option String :=
  tools.find? fun t => toolDirs.any fun d => path == d ++ '/' :: t.toList

/-- Run a tool other than the shell. -/
def runTool (tool : String) (i : ToolInput) : ToolOutput :=
  let (options, operands) := splitOptions i.args
  if i.args == ["--version".toList] && tool != "echo" then
    { files := i.files, out := bannerText tool, status := if tool == "false" then 1 else 0 }
  else match tool with
    | "cat" => cat i options operands
    | "rm" => rm i options operands
    | "mkdir" => mkdir i options operands
    | "dirname" => dirname i options operands
    | "echo" => { files := i.files, out := [' '].intercalate i.args ++ ['\n'] }
    | "false" => { files := i.files, status := 1 }
    | _ => { files := i.files }

end StyleAudit.Machine
