import CommentStrip.Error.Io
import CommentStrip.Path
import CommentStrip.Text.Order

/-! A file system as a value: directories, files, links and hard links, by their place, and what the
program that uses it may do with them. -/

namespace CommentStrip

/-- What can be done with a file or a directory. A directory is read to list it, written to change
what it holds, and searched to reach what it holds. -/
inductive Access where
  | read
  | write
  | search
  deriving DecidableEq, Repr

/-- The bit of a mode that lets the owner do it. -/
def Access.bit : Access → Nat
  | read => 0o400
  | write => 0o200
  | search => 0o100

/-- The program as the system sees it: where relative paths start, which bits are taken from the
modes of what it makes, and whether nothing is denied to it. All files are those of its user. -/
structure Caller where
  workingDir : Place := []
  umask : Nat := 0o022
  privileged : Bool := false
  deriving DecidableEq

namespace Caller

def may (c : Caller) (a : Access) (mode : Nat) : Bool := c.privileged || mode &&& a.bit != 0

/-- The mode of something new for which `mode` is asked. -/
def masked (c : Caller) (mode : Nat) : Nat := mode ^^^ (mode &&& c.umask)

def newFileMode (c : Caller) : Nat := c.masked 0o666

def newDirectoryMode (c : Caller) : Nat := c.masked 0o777

end Caller

/-- The content of a file and its permission bits. -/
structure File where
  bytes : ByteArray := .empty
  mode : Nat := 0o644

namespace File

/-- The content as text, if it is UTF-8. -/
def text? (f : File) : Option String := String.fromUTF8? f.bytes

/-- The bits that let anyone write. -/
def writeBits : Nat := 0o222

def isReadOnly (f : File) : Bool := f.mode &&& writeBits == 0

end File

/-- What stands at a place. Hard links are entries that share a file's number. -/
inductive Entry where
  | directory (mode : Nat)
  | link (target : String)
  | file (number : Nat)
  /-- Something else, such as a socket. It cannot be opened, and `cause` is why. -/
  | special (cause : IoError)
  deriving DecidableEq, Repr

/-- A file system and the program that uses it. The root is a directory and has no entry of its own;
no place has two entries. -/
structure Disk extends Caller where
  entries : List (Place × Entry) := []
  files : Nat → File := fun _ => {}
  rootMode : Nat := 0o755
  distinct : (entries.map Prod.fst).Nodup := by simp

namespace Disk

def entry? (d : Disk) (p : Place) : Option Entry :=
  if p = [] then some (.directory d.rootMode) else d.entries.lookup p

def isDirectoryAt (d : Disk) (p : Place) : Bool :=
  match d.entry? p with
  | some (.directory _) => true
  | _ => false

def isLinkAt (d : Disk) (p : Place) : Bool :=
  match d.entry? p with
  | some (.link _) => true
  | _ => false

/-- The directory at a place lets the program do something with it. -/
def allows (d : Disk) (a : Access) (p : Place) : Bool :=
  match d.entry? p with
  | some (.directory mode) => d.may a mode
  | _ => false

/-- Entries can be made in a directory and taken from it. -/
def canChange (d : Disk) (p : Place) : Bool := d.allows .write p && d.allows .search p

/-- The file that stands at a place. -/
def fileAt? (d : Disk) (p : Place) : Option File :=
  match d.entry? p with
  | some (.file n) => some (d.files n)
  | _ => none

/-- The name under which `q` stands in the directory `p`. -/
def nameIn? (p q : Place) : Option Name := if q.dropLast = p then q.getLast? else none

/-- What a directory holds, in the order of the names. -/
def children (d : Disk) (p : Place) : List (Name × Entry) :=
  (d.entries.filterMap fun (q, e) => (nameIn? p q).map fun name => (name, e)).mergeSort
    fun a b => !Text.isBefore b.1.text a.1.text

private theorem distinct_insert {d : Disk} {p : Place} {e : Entry} :
    ((d.entries.filter (·.1 ≠ p) ++ [(p, e)]).map Prod.fst).Nodup := by
  rw [List.map_append, List.nodup_append]
  refine ⟨(List.filter_sublist.map Prod.fst).nodup d.distinct, by simp, ?_⟩
  simp +contextual

/-- Puts an entry at a place, in place of what was there. -/
def insert (d : Disk) (p : Place) (e : Entry) : Disk :=
  { d with entries := d.entries.filter (·.1 ≠ p) ++ [(p, e)], distinct := distinct_insert }

/-- Takes away an entry and all that is below it. -/
def erase (d : Disk) (p : Place) : Disk :=
  { d with
    entries := d.entries.filter (!p.isPrefixOf ·.1)
    distinct := (List.filter_sublist.map Prod.fst).nodup d.distinct }

/-- Changes a file, wherever it stands. -/
def setFile (d : Disk) (number : Nat) (f : File) : Disk :=
  { d with files := fun n => if n = number then f else d.files n }

/-- A number that no entry has. -/
def freshNumber (d : Disk) : Nat :=
  let used := d.entries.filterMap fun (_, e) =>
    match e with
    | .file n => some n
    | _ => none
  used.foldl max 0 + 1

/-- Puts a new file at a place. Other hard links to a file that was there keep it. -/
def insertFile (d : Disk) (p : Place) (f : File) : Disk :=
  let number := d.freshNumber
  (d.insert p (.file number)).setFile number f

/-- All that is below a place, in the order of the paths seen from there. -/
def listing (d : Disk) (p : Place) : List (String × Entry × Option File) :=
  (d.entries.filterMap fun (q, e) =>
    if p.isPrefixOf q ∧ p ≠ q then
      some ("/".intercalate ((q.drop p.length).map Name.text), e, d.fileAt? q)
    else none).mergeSort fun a b => !Text.isBefore b.1 a.1

end Disk

end CommentStrip
