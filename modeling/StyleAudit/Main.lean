import StyleAudit.Formats
import StyleAudit.Machine.Workstation
import StyleAudit.Program

/-! # The command line

The audit runs on a copy of the current directory and of the configuration files above the start of
discovery. Checkers are the tools and scripts that the copy can run, and what they change stays in
the copy. -/

namespace StyleAudit.CommandLine
set_option autoImplicit false

open Machine

/-- Copy the entry of an absolute path, if there is one that can be read. A script counts as
executable. -/
def copyEntry (t : FileTree) (path : String) : IO FileTree := do
  let loc := locationOf path
  let entry := (← IO.currentDir) / path
  try
    if ← entry.isDir then return t.makeDirs loc
    let data ← IO.FS.readBinFile path
    return (t.makeDirs loc.tail).put loc (.file data (Shell.interpreter? data).isSome)
  catch _ => return t

/-- The configuration files and repositories that discovery can meet from a directory. -/
def discoverable (dir : String) : List String :=
  (Path.ancestors dir).flatMap fun d => Settings.markers.map (Path.join d)

/-- The paths outside the current directory to copy for a command line. -/
def needed (cwd : String) (args : List String) : List String :=
  discoverable cwd ++
    match Options.parse args with
    | .ok options =>
      Path.join cwd options.file :: discoverable (Settings.startDir cwd options.root)
    | .error _ => []

/-- A path without dots, if it leads to an entry. -/
def settled (path : String) : IO (Option String) := do
  try return some (← IO.FS.realPath path).toString
  catch _ => return none

/-- A variable of the environment, if it is set. -/
def environment (name : String) : IO (List (Octets × Octets)) := do
  return (← IO.getEnv name).toList.map fun v => (name.toList, Octets.ofText v)

/-- A workstation with a copy of what a command line needs. -/
def workstation (args : List String) : IO Workstation := do
  let dir ← IO.currentDir
  let cwd := dir.toString
  let tempDir := (← IO.getEnv "TMPDIR").getD "/tmp"
  let base := (({} : FileTree).makeDirs (locationOf cwd)).makeDirs (locationOf tempDir)
  let inside := (← dir.walkDir).toList.map toString
  let outside ← (needed cwd args).filterMapM settled
  let files ← (inside ++ outside).foldlM copyEntry base
  let vars := (← environment "PATH") ++ (← environment "TMPDIR") ++ (← environment "NO_COLOR")
  return { files, cwd := locationOf cwd, tempDir, vars }

end StyleAudit.CommandLine

def main (args : List String) : IO UInt32 := do
  let coloured := (← IO.getEnv "NO_COLOR").isNone
  let start ← StyleAudit.CommandLine.workstation args
  let host := StyleAudit.Machine.Workstation.host
  let (done, _) := StyleAudit.Program.run .standard host coloured args start
  IO.print done.stdout
  IO.eprint done.stderr
  return UInt32.ofNat done.code
