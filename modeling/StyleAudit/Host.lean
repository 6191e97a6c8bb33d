import StyleAudit.Failure

/-! # The host

What an audit needs of the system it runs on, for any type `σ` of system states. Nothing is assumed
about how files change when a program runs. -/

namespace StyleAudit
set_option autoImplicit false

/-- A step on states `σ` that may fail. The state reached before a failure is kept. -/
abbrev Step (σ α : Type) := ExceptT Failure (StateM σ) α

/-- How a process ended. -/
inductive ExitStatus where
  | code (n : Nat)
  /-- Ended by a signal; the flag says that its memory was written to a file. -/
  | signal (n : Nat) (dumped : Bool)
  deriving Repr, DecidableEq

namespace ExitStatus

/-- Names of the signals. -/
def signalName : Nat → Option String
  | 1 => some "SIGHUP"
  | 2 => some "SIGINT"
  | 3 => some "SIGQUIT"
  | 4 => some "SIGILL"
  | 5 => some "SIGTRAP"
  | 6 => some "SIGABRT"
  | 7 => some "SIGBUS"
  | 8 => some "SIGFPE"
  | 9 => some "SIGKILL"
  | 10 => some "SIGUSR1"
  | 11 => some "SIGSEGV"
  | 12 => some "SIGUSR2"
  | 13 => some "SIGPIPE"
  | 14 => some "SIGALRM"
  | 15 => some "SIGTERM"
  | 16 => some "SIGSTKFLT"
  | 17 => some "SIGCHLD"
  | 18 => some "SIGCONT"
  | 19 => some "SIGSTOP"
  | 20 => some "SIGTSTP"
  | 21 => some "SIGTTIN"
  | 22 => some "SIGTTOU"
  | 23 => some "SIGURG"
  | 24 => some "SIGXCPU"
  | 25 => some "SIGXFSZ"
  | 26 => some "SIGVTALRM"
  | 27 => some "SIGPROF"
  | 28 => some "SIGWINCH"
  | 29 => some "SIGIO"
  | 30 => some "SIGPWR"
  | 31 => some "SIGSYS"
  | _ => none

def text : ExitStatus → String
  | .code n => "exit status: " ++ toString n
  | .signal n dumped =>
    "signal: " ++ toString n ++
      (match signalName n with
        | some name => " (" ++ name ++ ")"
        | none => "") ++
      if dumped then " (core dumped)" else ""

end ExitStatus

/-- What a process printed and how it ended. -/
structure Outcome where
  stdout : ByteArray
  stderr : ByteArray
  status : ExitStatus

/-- Operations of a system with states `σ`. -/
structure Host (σ : Type) where
  /-- Absolute path of the current directory. -/
  currentDir : σ → Except Cause String
  /-- Directory for temporary files. -/
  tempDir : σ → String
  /-- The path names a file, not a directory. -/
  isFile : σ → String → Bool
  /-- The path names a file or a directory. -/
  isEntry : σ → String → Bool
  /-- The contents of a file as text. -/
  readText : σ → String → Except Cause String
  removeFile : String → StateM σ (Except Cause Unit)
  /-- Make a new directory for temporary files and give its path. -/
  makeScratch : StateM σ (Except Cause String)
  /-- Remove a directory and all in it, as far as possible. -/
  removeScratch : String → StateM σ Unit
  /-- Run a program with arguments and an empty standard input to its end. -/
  run : String → List String → StateM σ (Except Cause Outcome)

end StyleAudit
