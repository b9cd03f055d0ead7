import CommentStrip.Error.Io

/-! The failures of the program: of one file, of the configuration, and of a whole run. -/

namespace CommentStrip

/-- A file that is left as it was, and why. -/
inductive FileError where
  | read (path : String) (cause : IoError)
  | write (path : String) (cause : IoError)
  deriving DecidableEq, Repr

/-- A configuration that cannot be used. -/
inductive ConfigError where
  | unreadable (path : String) (cause : IoError)
  | malformed (path : String) (reason : String)
  | invalid (field : String) (reason : String)
  deriving DecidableEq, Repr

/-- A run that cannot begin. -/
inductive RunError where
  | directoryNotFound (path : String)
  deriving DecidableEq, Repr

/-- A message with its code in front. -/
def codedMessage (code message : String) : String := "[" ++ code ++ "] " ++ message

namespace FileError

def path : FileError → String
  | read p _ => p
  | write p _ => p

def cause : FileError → IoError
  | read _ e => e
  | write _ e => e

def message : FileError → String
  | read p e => "failed to read " ++ p ++ ": " ++ e.message
  | write p e => "failed to write " ++ p ++ ": " ++ e.message

def code : FileError → String
  | read .. => "FILE_READ_ERROR"
  | write .. => "FILE_WRITE_ERROR"

end FileError

namespace ConfigError

def message : ConfigError → String
  | unreadable p e => "cannot read config " ++ p ++ ": " ++ e.message
  | malformed p reason => "invalid TOML in " ++ p ++ ": " ++ reason
  | invalid field reason => "invalid value for " ++ field ++ ": " ++ reason

def code : ConfigError → String := fun _ => "CONFIG_ERROR"

def cause? : ConfigError → Option IoError
  | unreadable _ e => some e
  | _ => none

end ConfigError

namespace RunError

def path : RunError → String
  | directoryNotFound p => p

def message : RunError → String
  | directoryNotFound p => "Directory not found: " ++ p

def code : RunError → String
  | directoryNotFound _ => "DIRECTORY_NOT_FOUND"

end RunError

end CommentStrip
