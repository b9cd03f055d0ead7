import CommentStrip.Disk.Lookup
import CommentStrip.Error.Basic
import CommentStrip.Log.Basic
import CommentStrip.Source

/-! Stripping one file where it stands. -/

namespace CommentStrip

/-- A file that was stripped: how many bytes it had, how many it has, and whether it changed. -/
structure Processed where
  path : String
  bytesBefore : Nat
  bytesAfter : Nat
  changed : Bool
  deriving DecidableEq, Repr

namespace Processed

def ofTexts (path before after : String) : Processed :=
  ⟨path, before.utf8ByteSize, after.utf8ByteSize, before != after⟩

def logTarget : String := "decomment_core::processor"

def record (p : Processed) : Log.Record :=
  ⟨.debug, logTarget, "stripped comments", [("path", p.path),
    ("bytes_before", toString p.bytesBefore), ("bytes_after", toString p.bytesAfter)]⟩

end Processed

namespace Disk

/-- A new file is written under this name, beside the one that it is to replace. The letters at the
end are others for every file. -/
def temporaryName : String := ".tmpAbCdEf"

/-- Why no new file can be made in the directory at `p`. -/
def obstacleIn? (d : Disk) (p : Place) : Option IoError :=
  let path := Path.join p.path temporaryName
  if Path.isTooLong path then some (IoError.nameTooLong.about path)
  else if d.canChange p then none
  else some (IoError.permissionDenied.about path)

/-- Puts a new file with the same mode at the real path of what a path leads to. Links on the way and
other hard links to the old file stay as they are. A file that nobody may write is refused. -/
def replaceText (d : Disk) (path text : String) : Except IoError Disk := do
  let p ← d.canonicalize path
  match d.fileAt? p with
  | none => .error .isADirectory
  | some f =>
    if f.isReadOnly then .error .readOnly
    else
      match d.obstacleIn? p.dropLast with
      | some e => .error e
      | none => .ok (d.insertFile p { f with bytes := text.toUTF8 })

/-- Strips the comments of the file that a path leads to, and tells what came of it. -/
def process (d : Disk) (path : String) : Except FileError Processed × Disk :=
  match d.readText path with
  | .error e => (.error (.read path e), d)
  | .ok text =>
    let stripped := stripComments text
    match d.replaceText path stripped with
    | .error e => (.error (.write path e), d)
    | .ok replaced => (.ok (.ofTexts path text stripped), replaced)

end Disk

end CommentStrip
