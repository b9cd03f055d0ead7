import CommentStrip.Disk.Build
import CommentStrip.Fixture.Source

/-! Writing made-up source files into a directory. -/

namespace CommentStrip.Fixture

/-- The files that were written below `root`. -/
structure Tree where
  root : String
  files : List String := []
  totalBytes : Nat := 0
  deriving DecidableEq, Repr

/-- The files are spread over this many directories. -/
def directoryCount : Nat := 8

def directoryOf (root : String) (i : Nat) : String :=
  Path.join (Path.join (Path.join root "lib") "lib_admin")
    ("module_" ++ toString (i % directoryCount))

def pathOf (root : String) (i : Nat) : String :=
  Path.join (directoryOf root i) ("page_" ++ toString i ++ ".dart")

/-- Writes file number `i`, whose seed is that many after the first one. -/
def addFile (lines : Nat) (seed : UInt64) (made : Disk × Tree) (i : Nat) :
    Except IoError (Disk × Tree) := do
  let (d, t) := made
  let path := pathOf t.root i
  let text := source lines (seed + i.toUInt64)
  let d ← d.makeDirectory (directoryOf t.root i)
  let d ← d.writeFile path text.toUTF8
  return (d, { t with files := t.files ++ [path], totalBytes := t.totalBytes + text.utf8ByteSize })

/-- Writes `count` files below `root`. -/
def generate (d : Disk) (root : String) (count lines : Nat) (seed : UInt64) :
    Except IoError (Disk × Tree) :=
  (List.range count).foldlM (addFile lines seed) (d, ⟨root, [], 0⟩)

end CommentStrip.Fixture
