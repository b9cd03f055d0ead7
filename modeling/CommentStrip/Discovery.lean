import CommentStrip.Config.Basic
import CommentStrip.Disk.Walk
import CommentStrip.Log.Basic

/-! Finding the files to strip: those below a directory whose names end in an extension. -/

namespace CommentStrip

/-- The path of a file that was found. -/
def Finding.file? : Finding → Option String
  | file path => some path
  | _ => none

/-- Why an entry was passed over. -/
def Finding.obstacle? : Finding → Option String
  | file _ => none
  | unreadable (some path) e => some ("IO error for operation on " ++ path ++ ": " ++ e.message)
  | unreadable none e => some e.message
  | loop path ancestor =>
    some ("File system loop found: " ++ path ++ " points to an ancestor " ++ ancestor)

/-- What a walk is to find. -/
structure Search where
  root : String
  extension : String
  follow : Bool := false

/-- The files that were found, and what there was to tell on the way. -/
structure Discovery where
  files : List String
  records : List Log.Record

namespace Search

def ofConfig (root : String) (c : Config) : Search :=
  ⟨root, c.effectiveExtension, c.effectiveFollowLinks⟩

/-- A name counts if it ends in a dot and the extension without its own dots in front. -/
def wanted (s : Search) (name : String) : Bool :=
  ('.' :: (Config.bareExtension s.extension).toList).isSuffixOf name.toList

/-- The root is itself a link. -/
def hasLinkedRoot (s : Search) (d : Disk) : Bool :=
  match (d.locate false s.root).place with
  | .ok p => d.isLinkAt p
  | .error _ => false

/-- All that a walk comes upon. The root itself does not count; a link there is followed. -/
def findings (s : Search) (d : Disk) : List Finding :=
  match d.resolve s.root with
  | .error e => [.unreadable (some s.root) e]
  | .ok p =>
    if !d.isDirectoryAt p then []
    else if d.allows .read p then d.walkFrom s.follow s.wanted [] ⟨s.root, p⟩
    else [.unreadable (if s.follow && s.hasLinkedRoot d then none else some s.root) .permissionDenied]

def logTarget : String := "decomment_core::scanner::walker"

def discover (s : Search) (d : Disk) : Discovery :=
  let found := s.findings d
  let files := found.filterMap Finding.file?
  let warnings := (found.filterMap Finding.obstacle?).map fun text =>
    (⟨.warn, logTarget, "skipping unreadable entry", [("error", text)]⟩ : Log.Record)
  ⟨files, warnings ++ [⟨.debug, logTarget, "discovered files",
    [("root", s.root), ("count", toString files.length)]⟩]⟩

end Search

end CommentStrip
