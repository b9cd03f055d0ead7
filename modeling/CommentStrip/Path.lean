/-! Names of entries, and paths as they are written: text with slashes between names. -/

namespace CommentStrip

namespace Path

def separator : Char := '/'

def isAbsolute (path : String) : Bool := path.toList.head? == some separator

/-- The written path of `path` seen from `base`. An absolute path stands for itself; otherwise one
slash divides the two, unless `base` is empty or ends in one. -/
def join (base path : String) : String :=
  if isAbsolute path then path
  else
    match base.toList.getLast? with
    | none => path
    | some c => if c = separator then base ++ path else base ++ "/" ++ path

/-- The most bytes in a path. -/
def sizeLimit : Nat := 4095

def isTooLong (path : String) : Bool := path.utf8ByteSize > sizeLimit

/-- The steps that a path asks for, in order. Repeated slashes count once; a slash at the end asks
for a directory, which is an empty step. -/
def steps (path : String) : List String :=
  let names := (path.toList.splitOn separator).filter (· ≠ [])
  let last := if path.toList.getLast? == some separator then [[]] else []
  (names ++ last).map String.ofList

end Path

namespace Name

/-- The most bytes in a name. -/
def sizeLimit : Nat := 255

/-- A text that can name an entry: not too long, without slashes, and not a step that stays where it
is or goes up. -/
def isValid (text : String) : Bool :=
  text != "" && text != "." && text != ".." && text.utf8ByteSize ≤ sizeLimit &&
    !text.toList.contains Path.separator && !text.toList.contains '\x00'

end Name

/-- The name of an entry in a directory. -/
structure Name where
  text : String
  valid : Name.isValid text = true := by decide
  deriving DecidableEq

def Name.ofText? (text : String) : Option Name :=
  if h : Name.isValid text = true then some ⟨text, h⟩ else none

/-- The names that lead from the root of the file system to an entry. -/
abbrev Place := List Name

/-- The absolute path of a place. -/
def Place.path (p : Place) : String := "/" ++ "/".intercalate (p.map Name.text)

end CommentStrip
