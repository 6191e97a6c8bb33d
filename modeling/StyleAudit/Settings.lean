import StyleAudit.Checker
import StyleAudit.Path

/-! # Settings

Settings come from a configuration file in the start directory or the closest directory above it
that has one. What is given on the command line wins over the file, and the file over the
defaults. -/

namespace StyleAudit
set_option autoImplicit false

/-- What a configuration file says about a checker. -/
structure CheckerSettings where
  program : Option String := none
  args : Option (List String) := none
  requires : Option String := none
  deriving Repr, DecidableEq

/-- What a configuration file says. -/
structure Settings where
  output : Option String := none
  engine : Option CheckerSettings := none
  naming : Option CheckerSettings := none
  deriving Repr, DecidableEq

/-- The settings an audit runs with. -/
structure Effective where
  output : String
  engine : Checker
  naming : Checker
  deriving Repr, DecidableEq

/-- Readers of the two configuration formats. -/
structure Decoders where
  toml : String → Except String Settings
  yaml : String → Except String Settings

namespace CheckerSettings

/-- A checker with the settings of a file in place of its own. An empty requirement is none. -/
def apply (s : CheckerSettings) (base : Checker) : Checker where
  program := s.program.getD base.program
  args := s.args.getD base.args
  requires := match s.requires with
    | some r => if r.isEmpty then none else some r
    | none => base.requires

end CheckerSettings

namespace Settings

/-- The configuration file in TOML. -/
def tomlName : String := "stylereport.toml"

/-- The configuration files in YAML, in order of preference. -/
def yamlNames : List String := ["stylereport.yaml", "stylereport.yml"]

/-- Entries that make a directory the root of a project. -/
def markers : List String := tomlName :: yamlNames ++ [".git"]

variable {σ : Type}

/-- Whether a directory holds a configuration file or a repository. -/
def isRoot (host : Host σ) (s : σ) (dir : String) : Bool :=
  markers.any fun name => host.isEntry s (Path.join dir name)

/-- The closest root at or above a directory, or the directory itself if there is none. -/
def detectRoot (host : Host σ) (s : σ) (start : String) : String :=
  ((Path.ancestors start).find? (isRoot host s)).getD start

/-- Read and decode one configuration file. -/
def loadFile (host : Host σ) (s : σ) (decode : String → Except String Settings) (path : String) :
    Except Failure Settings :=
  match host.readText s path with
  | .error cause => .error (.inputOutput cause path)
  | .ok text =>
    match decode text with
    | .error message => .error (.badSettings path message)
    | .ok settings => .ok settings

/-- The configuration file of a directory, if it has one. -/
def load (decoders : Decoders) (host : Host σ) (s : σ) (root : String) :
    Except Failure (Option Settings) :=
  let files := (tomlName, decoders.toml) :: yamlNames.map fun name => (name, decoders.yaml)
  match files.find? fun f => host.isEntry s (Path.join root f.1) with
  | some (name, decode) => (loadFile host s decode (Path.join root name)).map some
  | none => .ok none

/-- The settings that result from a file's and the output mode of the command line. -/
def effective (settings : Settings) (output : Option String) : Effective where
  output := (output.orElse fun _ => settings.output).getD "json"
  engine := (settings.engine.getD {}).apply .style
  naming := (settings.naming.getD {}).apply .naming

/-- The directory where discovery starts. Idle components would make it skip a directory. -/
def startDir (base : String) (root : Option String) : String :=
  Path.normalize (match root with
    | some r => Path.join base r
    | none => base)

/-- Find, read and merge the settings, with a relative root taken from `base`. -/
def resolveFrom (decoders : Decoders) (host : Host σ) (s : σ) (base : String)
    (root output : Option String) : Except Failure Effective :=
  let dir := detectRoot host s (startDir base root)
  (load decoders host s dir).map fun found => (found.getD {}).effective output

/-- The same from the current directory. -/
def resolve (decoders : Decoders) (host : Host σ) (s : σ) (root output : Option String) :
    Except Failure Effective :=
  match host.currentDir s with
  | .error cause => .error (.inputOutput cause ".")
  | .ok base => resolveFrom decoders host s base root output

end Settings
end StyleAudit
