import StyleAudit.Text.Lines

/-! # The command line

One file, two options with a value, two flags, and the usual requests for help and the version. A
value belongs to the option before it only once the next argument has been looked at, so a fault of
that argument is reported before a repetition of the option. -/

namespace StyleAudit
set_option autoImplicit false

/-- Options that take a value. -/
inductive ValueOption where
  | output
  | root
  deriving Repr, DecidableEq

def ValueOption.shown : ValueOption → String
  | .output => "--output <OUTPUT>"
  | .root => "--root <ROOT>"

inductive Flag where
  | verbose
  | debug
  deriving Repr, DecidableEq

def Flag.shown : Flag → String
  | .verbose => "--verbose"
  | .debug => "--debug"

/-- What a command line asks for. -/
structure Options where
  file : String
  output : Option String
  root : Option String
  verbose : Bool
  debug : Bool
  deriving Repr, DecidableEq

/-- Why a command line asks for no audit. -/
inductive Refusal where
  | missingFile
  | unknown (arg : String)
  | missingValue (option : ValueOption)
  | repeated (option : String)
  | needlessValue (value option : String)
  | help (full : Bool)
  | version
  deriving Repr, DecidableEq

namespace Refusal

def usage : String := "Usage: stylereport [OPTIONS] <FILE>\n"

def examples : String :=
  "Examples:\n  stylereport src/app.py\n  stylereport src/app.py --output human\n" ++
  "  RUST_LOG=debug stylereport src/app.py\n"

def shortHelp : String :=
  "PEP 8 / Google style compliance report for a Python file\n\n" ++ usage ++
  "\nArguments:\n  <FILE>  Python file to analyze\n\nOptions:\n" ++
  "      --output <OUTPUT>  Output mode: json|human (default: json)\n" ++
  "      --root <ROOT>      Directory to start config discovery from (default: current dir)\n" ++
  "  -v, --verbose          Enable info-level logging to stderr\n" ++
  "      --debug            Enable debug-level logging to stderr\n" ++
  "  -h, --help             Print help (see more with '--help')\n" ++
  "  -V, --version          Print version\n\n" ++ examples

def fullHelp : String :=
  "Stylereport runs a style checker over one file and groups its diagnostics into naming, " ++
  "indentation, tabs vs. spaces, line length, blank line, and import categories.\n\n" ++
  "Configuration precedence: CLI > stylereport.toml > defaults.\n\n" ++ usage ++
  "\nArguments:\n  <FILE>\n          Python file to analyze\n\nOptions:\n" ++
  "      --output <OUTPUT>\n          Output mode: json|human (default: json)\n\n" ++
  "      --root <ROOT>\n" ++
  "          Directory to start config discovery from (default: current dir)\n\n" ++
  "  -v, --verbose\n          Enable info-level logging to stderr\n\n" ++
  "      --debug\n          Enable debug-level logging to stderr\n\n" ++
  "  -h, --help\n          Print help (see a summary with '-h')\n\n" ++
  "  -V, --version\n          Print version\n\n" ++ examples

/-- The sentence about a fault, or the text that was asked for. -/
def headline : Refusal → String
  | .missingFile => "error: the following required arguments were not provided:\n  <FILE>\n"
  | .unknown arg => "error: unexpected argument '" ++ arg ++ "' found\n"
  | .missingValue option =>
    "error: a value is required for '" ++ option.shown ++ "' but none was supplied\n"
  | .repeated option => "error: the argument '" ++ option ++ "' cannot be used multiple times\n"
  | .needlessValue value option =>
    "error: unexpected value '" ++ value ++ "' for '" ++ option ++
      "' found; no more were expected\n"
  | .help true => fullHelp
  | .help false => shortHelp
  | .version => "stylereport 0.1.0\n"

/-- Asked for, and so no fault. -/
def isInformation : Refusal → Bool
  | .help _ => true
  | .version => true
  | _ => false

/-- All that is printed. -/
def text (r : Refusal) : String :=
  if r.isInformation then r.headline
  else r.headline ++ "\n" ++ usage ++ "\nFor more information, try '--help'.\n"

end Refusal

/-- The arguments read so far. -/
structure Reading where
  file : Option String := none
  output : Option String := none
  root : Option String := none
  verbose : Bool := false
  debug : Bool := false
  /-- An option that was named last, and its value once that is known. -/
  pending : Option (ValueOption × Option String) := none
  /-- Only files follow. -/
  filesOnly : Bool := false

namespace Reading

/-- Give an option its value; a second one is a fault. -/
def store (r : Reading) (option : ValueOption) (value : String) : Except Refusal Reading :=
  match option with
  | .output =>
    if r.output.isSome then .error (.repeated option.shown) else .ok { r with output := some value }
  | .root =>
    if r.root.isSome then .error (.repeated option.shown) else .ok { r with root := some value }

/-- Finish the option that was named last. -/
def settle (r : Reading) : Except Refusal Reading :=
  match r.pending with
  | none => .ok r
  | some (option, none) => .error (.missingValue option)
  | some (option, some value) => { r with pending := none }.store option value

def raise (r : Reading) (flag : Flag) : Except Refusal Reading := do
  let r ← r.settle
  match flag with
  | .verbose =>
    if r.verbose then .error (.repeated flag.shown) else .ok { r with verbose := true }
  | .debug => if r.debug then .error (.repeated flag.shown) else .ok { r with debug := true }

/-- Finish what is pending and then stop with a text. -/
def ask (r : Reading) (request : Refusal) : Except Refusal Reading := do
  let _ ← r.settle
  .error request

/-- An argument that starts with two hyphens: a name, and a value after an equals sign. -/
def long (r : Reading) (name : String) (value : Option String) : Except Refusal Reading :=
  let takes := fun (option : ValueOption) => do
    let r ← r.settle
    match value with
    | some v => r.store option v
    | none => .ok { r with pending := some (option, none) }
  let plain := fun (shown : String) (act : Except Refusal Reading) =>
    match value with
    | some v => .error (.needlessValue v shown)
    | none => act
  match name with
  | "output" => takes .output
  | "root" => takes .root
  | "verbose" => plain "--verbose" (r.raise .verbose)
  | "debug" => plain "--debug" (r.raise .debug)
  | "help" => plain "--help" (r.ask (.help true))
  | "version" => plain "--version" (r.ask .version)
  | _ => .error (.unknown ("--" ++ name))

/-- The letters after one hyphen. -/
def short (r : Reading) : List Char → Except Refusal Reading
  | [] => .ok r
  | c :: rest => do
    match c with
    | 'v' => (← r.raise .verbose).short rest
    | 'h' => r.ask (.help false)
    | 'V' => r.ask .version
    | _ => .error (.unknown ("-" ++ String.singleton c))

/-- An argument that is no option. -/
def operand (r : Reading) (arg : String) : Except Refusal Reading :=
  match r.file with
  | some _ => .error (.unknown arg)
  | none => do
    let r ← r.settle
    return { r with file := some arg }

/-- Read the next argument. -/
def next (r : Reading) (arg : String) : Except Refusal Reading :=
  if r.filesOnly then r.operand arg
  else match arg.toList with
    | ['-', '-'] => .ok { r with filesOnly := true }
    | '-' :: '-' :: rest =>
      let name := String.ofList (rest.takeWhile (· != '='))
      match rest.dropWhile (· != '=') with
      | _ :: value => r.long name (some (String.ofList value))
      | [] => r.long name none
    | '-' :: c :: rest => r.short (c :: rest)
    | _ =>
      match r.pending with
      | some (option, none) => .ok { r with pending := some (option, some arg) }
      | _ => r.operand arg

end Reading

/-- Read a command line. -/
def Options.parse (args : List String) : Except Refusal Options := do
  let r ← args.foldlM Reading.next ({} : Reading)
  let r ← r.settle
  match r.file with
  | none => .error .missingFile
  | some file =>
    return { file, output := r.output, root := r.root, verbose := r.verbose, debug := r.debug }

end StyleAudit
