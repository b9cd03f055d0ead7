/-! Log records: what happened, how much it matters, and which part of the program says so. -/

namespace CommentStrip.Log

/-- How much of what happens is to be told; each level tells more than the one before. -/
inductive Level where
  | off
  | error
  | warn
  | info
  | debug
  | trace
  deriving DecidableEq, Repr

namespace Level

def all : List Level := [off, error, warn, info, debug, trace]

def name : Level → String
  | off => "off"
  | error => "error"
  | warn => "warn"
  | info => "info"
  | debug => "debug"
  | trace => "trace"

def rank : Level → Nat
  | off => 0
  | error => 1
  | warn => 2
  | info => 3
  | debug => 4
  | trace => 5

end Level

/-- One thing that happened. -/
structure Record where
  level : Level
  target : String
  message : String
  fields : List (String × String) := []
  deriving DecidableEq, Repr

/-- The message with its fields after it. -/
def Record.text (r : Record) : String :=
  r.fields.foldl (fun t (name, value) => t ++ " " ++ name ++ "=" ++ value) r.message

end CommentStrip.Log
