import CommentStrip.Disk.Basic

/-! Finding the place that a path leads to, through directories and links. -/

namespace CommentStrip

/-- Where a path leads. -/
inductive Lookup where
  /-- To an entry. -/
  | found (p : Place)
  /-- To a place in a directory where nothing stands. -/
  | absent (p : Place)
  | failed (cause : IoError)
  deriving DecidableEq

/-- The place of the entry that was found. -/
def Lookup.place : Lookup → Except IoError Place
  | found p => .ok p
  | absent _ => .error .noSuchFile
  | failed e => .error e

namespace Disk

/-- The most links that one path may lead through. -/
def linkLimit : Nat := 40

/-- Takes the steps of a path one by one, starting at `here`, through directories that can be
searched. A link's own steps are taken in its stead; `links` is how many more may be met. The last
step goes through a link only if `through`. -/
def trace (d : Disk) (through : Bool) (links : Nat) (here : Place) (steps : List String) : Lookup :=
  match steps with
  | [] => .found here
  | step :: rest =>
    if !d.isDirectoryAt here then .failed .notADirectory
    else if step = "" then d.trace through links here rest
    else if !d.allows .search here then .failed .permissionDenied
    else if step = "." then d.trace through links here rest
    else if step = ".." then d.trace through links here.dropLast rest
    else if step.utf8ByteSize > Name.sizeLimit then .failed .nameTooLong
    else
      match Name.ofText? step with
      | none => .failed .noSuchFile
      | some name =>
        match d.entry? (here ++ [name]) with
        | none => if rest.isEmpty then .absent (here ++ [name]) else .failed .noSuchFile
        | some (.link target) =>
          if rest.isEmpty && !through then .found (here ++ [name])
          else
            match links with
            | 0 => .failed .tooManyLinks
            | links + 1 =>
              let start := if Path.isAbsolute target then [] else here
              d.trace through links start (Path.steps target ++ rest)
        | some _ => d.trace through links (here ++ [name]) rest
termination_by (links, steps.length)

/-- Where relative and absolute paths start. -/
def start (d : Disk) (path : String) : Place := if Path.isAbsolute path then [] else d.workingDir

/-- Where a written path leads; `through` tells whether a link at its end is followed. -/
def locate (d : Disk) (through : Bool) (path : String) : Lookup :=
  if path.toList.contains '\x00' then .failed .nulInName
  else if path = "" then .failed .noSuchFile
  else if Path.isTooLong path then .failed .nameTooLong
  else d.trace through linkLimit (d.start path) (Path.steps path)

/-- The place of the entry that a path leads to, all links followed. -/
def resolve (d : Disk) (path : String) : Except IoError Place := (d.locate true path).place

def pathExists (d : Disk) (path : String) : Bool := (d.resolve path).toOption.isSome

/-- The path by which the entry at `p` is looked up if the steps `rest` are to follow. A slash behind
it asks for a directory; a link is read as it is. -/
def probe (d : Disk) (p : Place) (rest : List String) : String :=
  if rest.isEmpty || d.isLinkAt p then p.path else p.path ++ "/"

/-- Takes the steps of a path as `trace` does, but looks up each entry by its own path from the root.
So it can fail where that path is too long, or leads through a directory that cannot be searched. -/
def realFrom (d : Disk) (links : Nat) (here : Place) (steps : List String) : Except IoError Place :=
  match steps with
  | [] => .ok here
  | step :: rest =>
    if step = "" ∨ step = "." then d.realFrom links here rest
    else if step = ".." then d.realFrom links here.dropLast rest
    else if step.utf8ByteSize > Name.sizeLimit then .error .nameTooLong
    else
      match Name.ofText? step with
      | none => .error .noSuchFile
      | some name =>
        match (d.locate false (d.probe (here ++ [name]) rest)).place with
        | .error e => .error e
        | .ok _ =>
          match d.entry? (here ++ [name]) with
          | some (.link target) =>
            match links with
            | 0 => .error .tooManyLinks
            | links + 1 =>
              let start := if Path.isAbsolute target then [] else here
              d.realFrom links start (Path.steps target ++ rest)
          | _ => d.realFrom links (here ++ [name]) rest
termination_by (links, steps.length)

/-- The place whose path is the real path of what `path` leads to. -/
def canonicalize (d : Disk) (path : String) : Except IoError Place :=
  if path.toList.contains '\x00' then .error .nulInName
  else if path = "" then .error .noSuchFile
  else d.realFrom linkLimit (d.start path) (Path.steps path)

/-- The file that a path leads to, if it may be read. -/
def readFile (d : Disk) (path : String) : Except IoError File := do
  let p ← d.resolve path
  match d.entry? p with
  | some (.file n) => if d.may .read (d.files n).mode then .ok (d.files n) else .error .permissionDenied
  | some (.directory mode) => .error (if d.may .read mode then .isADirectory else .permissionDenied)
  | some (.special cause) => .error cause
  | _ => .error .noSuchFile

/-- The text of the file that a path leads to. -/
def readText (d : Disk) (path : String) : Except IoError String := do
  match (← d.readFile path).text? with
  | some text => .ok text
  | none => .error .notUtf8

end Disk

end CommentStrip
