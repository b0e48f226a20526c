import RuleTable.Failure

/-!
What the program asks of the machine it runs on: to read files, to write one, and for the variables
of its environment.
-/

namespace RuleTable

inductive FileTrouble
  | absent
  | isDirectory
  | other (words : String)
  deriving DecidableEq, Repr

def FileTrouble.message : FileTrouble → String
  | .absent => "no such file or directory"
  | .isDirectory => "is a directory"
  | .other words => words

structure FileFault where
  action : String
  path : String
  trouble : FileTrouble
  deriving DecidableEq, Repr

def FileFault.message (f : FileFault) : String := s!"{f.action} {f.path}: {f.trouble.message}"

def FileFault.cause (f : FileFault) : Cause := .text f.message

abbrev Reading := Except FileFault String

inductive WriteFault
  /-- the file cannot be made -/
  | create (cause : Cause)
  /-- the file was written, but cannot be closed -/
  | close (cause : Cause)
  deriving DecidableEq, Repr

def WriteFault.failure : WriteFault → Failure
  | .create cause => .within .creatingOutput (.bare cause)
  | .close cause => .within .closingOutput (.bare cause)

abbrev Environment := List (String × String)

structure Host (m : Type → Type) where
  read : String → m Reading
  /-- writes a text to a path -/
  write : String → String → m (Option WriteFault)
  environment : Environment

end RuleTable
