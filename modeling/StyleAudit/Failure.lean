/-! # Failures

Every way in which an audit can end without a report, with the sentence shown for it. -/

namespace StyleAudit
set_option autoImplicit false

/-- Why the operating system, or the reading of its answer, refused an operation. -/
inductive Cause where
  /-- An error number of the operating system. -/
  | os (errno : Nat)
  /-- An error number and the path that could not be made. -/
  | osAt (errno : Nat) (path : String)
  | notText
  | nulByte
  | other (text : String)
  deriving Repr, DecidableEq

namespace Cause

/-- Texts of the error numbers. -/
def errnoText : Nat → String
  | 1 => "Operation not permitted"
  | 2 => "No such file or directory"
  | 3 => "No such process"
  | 4 => "Interrupted system call"
  | 5 => "Input/output error"
  | 6 => "No such device or address"
  | 7 => "Argument list too long"
  | 8 => "Exec format error"
  | 9 => "Bad file descriptor"
  | 10 => "No child processes"
  | 11 => "Resource temporarily unavailable"
  | 12 => "Cannot allocate memory"
  | 13 => "Permission denied"
  | 14 => "Bad address"
  | 15 => "Block device required"
  | 16 => "Device or resource busy"
  | 17 => "File exists"
  | 18 => "Invalid cross-device link"
  | 19 => "No such device"
  | 20 => "Not a directory"
  | 21 => "Is a directory"
  | 22 => "Invalid argument"
  | 23 => "Too many open files in system"
  | 24 => "Too many open files"
  | 25 => "Inappropriate ioctl for device"
  | 26 => "Text file busy"
  | 27 => "File too large"
  | 28 => "No space left on device"
  | 29 => "Illegal seek"
  | 30 => "Read-only file system"
  | 31 => "Too many links"
  | 32 => "Broken pipe"
  | 33 => "Numerical argument out of domain"
  | 34 => "Numerical result out of range"
  | 35 => "Resource deadlock avoided"
  | 36 => "File name too long"
  | 37 => "No locks available"
  | 38 => "Function not implemented"
  | 39 => "Directory not empty"
  | 40 => "Too many levels of symbolic links"
  | n => "Unknown error " ++ toString n

def osText (errno : Nat) : String := errnoText errno ++ " (os error " ++ toString errno ++ ")"

def text : Cause → String
  | .os errno => osText errno
  | .osAt errno path => osText errno ++ " at path \"" ++ path ++ "\""
  | .notText => "stream did not contain valid UTF-8"
  | .nulByte => "nul byte found in provided data"
  | .other text => text

/-- Nothing has this name. -/
def noEntry : Cause := .os 2

def denied : Cause := .os 13

def notDirectory : Cause := .os 20

def isDirectory : Cause := .os 21

def nameTooLong : Cause := .os 36

end Cause

inductive Failure where
  | invalidFileName (input : String)
  | fileNotFound (path : String)
  | checkerUnavailable (program : String) (cause : Cause)
  | checkerFailed (program status stderr : String)
  | missingPlugin (program plugin : String)
  | uncheckable (code message : String)
  | inputOutput (cause : Cause) (path : String)
  | badSettings (path message : String)
  | badJson (text : String)
  deriving Repr, DecidableEq

namespace Failure

def message : Failure → String
  | .invalidFileName _ => "That is not a valid file name. Please double-check your input."
  | .fileNotFound path => "File not found: " ++ path
  | .checkerUnavailable program cause => "could not run '" ++ program ++ "': " ++ cause.text
  | .checkerFailed program status stderr =>
    "'" ++ program ++ "' failed (" ++ status ++ "): " ++ stderr
  | .missingPlugin program plugin =>
    "'" ++ program ++ " --version' does not mention '" ++ plugin ++ "'; is it installed?"
  | .uncheckable code message => code ++ " " ++ message
  | .inputOutput cause path => "I/O error: " ++ cause.text ++ " (path: " ++ path ++ ")"
  | .badSettings path message => "invalid config " ++ path ++ ": " ++ message
  | .badJson text => "JSON error: " ++ text

end Failure
end StyleAudit
