import CommentStrip.Disk.Lookup

/-! Making and removing directories, files and links. -/

namespace CommentStrip.Disk

/-- Takes steps from `here` and makes the directories that are missing. -/
def makeFrom (d : Disk) (here : Place) : List String → Except IoError Disk
  | [] => .ok d
  | step :: rest =>
    match d.trace true linkLimit here [step] with
    | .found p => if d.isDirectoryAt p then d.makeFrom p rest else .error .fileExists
    | .absent p =>
      if d.canChange p.dropLast then (d.insert p (.directory d.newDirectoryMode)).makeFrom p rest
      else .error .permissionDenied
    | .failed e => .error e

/-- Makes a directory and those on the way to it. -/
def makeDirectory (d : Disk) (path : String) : Except IoError Disk :=
  if path.toList.contains '\x00' then .error .nulInName
  else if Path.isTooLong path then .error .nameTooLong
  else d.makeFrom (d.start path) (Path.steps path)

/-- Makes the directories on the way to a path. -/
def makeParent (d : Disk) (path : String) : Except IoError Disk :=
  d.makeFrom (d.start path) (Path.steps path).dropLast

/-- Writes a file. One that exists is changed for all of its hard links and keeps its mode. -/
def writeFile (d : Disk) (path : String) (bytes : ByteArray) : Except IoError Disk :=
  match d.locate true path with
  | .found p =>
    match d.entry? p with
    | some (.file n) =>
      if d.may .write (d.files n).mode then .ok (d.setFile n { d.files n with bytes })
      else .error .permissionDenied
    | some (.special cause) => .error cause
    | _ => .error .isADirectory
  | .absent p =>
    if d.canChange p.dropLast then .ok (d.insertFile p ⟨bytes, d.newFileMode⟩)
    else .error .permissionDenied
  | .failed e => .error e

/-- Sets the mode of a file. -/
def setMode (d : Disk) (path : String) (mode : Nat) : Except IoError Disk := do
  let p ← d.resolve path
  match d.entry? p with
  | some (.file n) => .ok (d.setFile n { d.files n with mode })
  | _ => .ok d

/-- Puts an entry at a path where there is none. -/
def makeEntry (d : Disk) (path : String) (e : Entry) : Except IoError Disk :=
  match d.locate false path with
  | .found _ => .error .fileExists
  | .absent p => if d.canChange p.dropLast then .ok (d.insert p e) else .error .permissionDenied
  | .failed e => .error e

def makeLink (d : Disk) (path target : String) : Except IoError Disk :=
  d.makeEntry path (.link target)

/-- Gives the file at `existing` another place. -/
def makeHardLink (d : Disk) (path existing : String) : Except IoError Disk := do
  let p ← d.resolve existing
  match d.entry? p with
  | some (.file n) => d.makeEntry path (.file n)
  | _ => .error (.system 1)

/-- Takes away a file, a link, or a directory with all that it holds. -/
def remove (d : Disk) (path : String) : Except IoError Disk :=
  match d.locate false path with
  | .found p => if d.canChange p.dropLast then .ok (d.erase p) else .error .permissionDenied
  | .absent _ => .error .noSuchFile
  | .failed e => .error e

end CommentStrip.Disk
