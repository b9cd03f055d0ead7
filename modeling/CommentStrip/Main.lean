import CommentStrip.Command

/-! The program: copies the files it needs from the system, runs the command on the copy, and
replaces the files that it changed. -/

namespace CommentStrip.Main

/-- A copy of part of the system's files; the directories in `done` are complete in it. -/
structure Copy where
  disk : Disk := {}
  done : List Place := []

/-- The place of an absolute path that leads through no links. -/
def placeOf (path : String) : Place := (Path.steps path).filterMap Name.ofText?

/-- The owner's bits of a mode. The system tells only what may be done, not who else may do it. -/
def modeOf (allowed : List Access) : Nat := allowed.foldl (fun mode a => mode ||| a.bit) 0

def modeOnTheWay : Nat := modeOf [.read, .write, .search]

/-- Makes the directories on the way to a place. -/
def Copy.reach (c : Copy) (p : Place) : Copy :=
  { c with
    disk := (List.range p.length).foldl (fun d n =>
      let q := p.take n
      if (d.entry? q).isSome then d else d.insert q (.directory modeOnTheWay)) c.disk }

/-- Puts an entry at a place that has none. -/
def Copy.add (c : Copy) (p : Place) (e : Entry) : Copy :=
  let c := c.reach p
  if (c.disk.entry? p).isSome then c else { c with disk := c.disk.insert p e }

/-- Puts a directory at a place, with what may be done with it. -/
def Copy.addDirectory (c : Copy) (p : Place) (allowed : List Access) : Copy :=
  let c := c.reach p
  let d := if p = [] then { c.disk with rootMode := modeOf allowed }
    else c.disk.insert p (.directory (modeOf allowed))
  { disk := d, done := p :: c.done }

/-- Copies a file, which is empty in the copy if it cannot be read. -/
def takeFile (c : Copy) (path : String) : IO Copy := do
  let place := placeOf path
  if (c.disk.entry? place).isSome then return c
  let c := c.reach place
  let bytes ← (IO.FS.readBinFile path).toBaseIO
  let writing ← (IO.FS.Handle.mk path .append).toBaseIO
  let allowed := (if bytes.toOption.isSome then [.read] else []) ++
    (if writing.toOption.isSome then [.write] else [])
  return { c with disk := c.disk.insertFile place ⟨bytes.toOption.getD .empty, modeOf allowed⟩ }

mutual

/-- Copies a directory with all that it holds, as far as it can be read. -/
partial def takeDirectory (c : Copy) (path : String) : IO Copy := do
  let place := placeOf path
  if place ∈ c.done then return c
  let here : IO.FS.DirEntry := ⟨path, "."⟩
  let listed ← here.root.readDir.toBaseIO
  let searched ← here.path.symlinkMetadata.toBaseIO
  let allowed := (if listed.toOption.isSome then [.read] else []) ++
    (if searched.toOption.isSome then [.search] else [])
  (listed.toOption.getD #[]).foldlM takeEntry (c.addDirectory place (.write :: allowed))

/-- Copies what stands at an absolute path that leads through no links. -/
partial def takeReal (c : Copy) (path : String) : IO Copy := do
  let here : IO.FS.DirEntry := ⟨path, ""⟩
  match (← here.root.symlinkMetadata).type with
  | .dir => takeDirectory c path
  | .file => takeFile c path
  | _ => return c.add (placeOf path) (.special (.system 6))

/-- Copies an entry, and what it leads to if it is a link. A link that leads nowhere is copied as
one to a name that no entry has, and what cannot be looked at as a file that cannot be read. -/
partial def takeEntry (c : Copy) (e : IO.FS.DirEntry) : IO Copy := do
  let path := e.path.toString
  match ← e.path.symlinkMetadata.toBaseIO with
  | .error _ => takeFile c path
  | .ok about =>
    if about.type matches .symlink then
      match ← (IO.FS.realPath e.path).toBaseIO with
      | .error _ => return c.add (placeOf path) (.link "\x00")
      | .ok target => takeReal (c.add (placeOf path) (.link target.toString)) target.toString
    else takeReal c path

end

/-- Copies the entries that a path leads through, starting in the directory `here`, and all that is
at its end. -/
def takeSteps (c : Copy) (here : String) : List String → IO Copy
  | [] => takeReal c here
  | step :: rest => do
    let e : IO.FS.DirEntry := ⟨here, step⟩
    match ← (IO.FS.realPath e.path).toBaseIO with
    | .error _ => return c
    | .ok real =>
      let linked := step ∉ ["", ".", ".."] ∧ (← e.path.symlinkMetadata).type matches .symlink
      let c := if linked then c.add (placeOf e.path.toString) (.link real.toString) else c
      let c := if ← real.isDir then c.add (placeOf real.toString) (.directory modeOnTheWay) else c
      takeSteps c real.toString rest

/-- Copies what an absolute path leads to. -/
def takePath (c : Copy) (path : String) : IO Copy := takeSteps c "/" (Path.steps path)

/-- The rights that a mode gives the owner. What it gives to others is not known, and nothing is
given to them. -/
def rightsOf (mode : Nat) : IO.FileRight :=
  { user := ⟨mode &&& Access.read.bit != 0, mode &&& Access.write.bit != 0,
      mode &&& Access.search.bit != 0⟩ }

/-- Puts a new file in the place of an old one, whose other hard links keep it. Until then the new
one stands beside it under another name. -/
def replaceFile (p : Place) (f : File) : IO Unit := do
  let temporary := Path.join (Place.path p.dropLast) Disk.temporaryName
  IO.FS.withFile temporary .writeNew fun h => h.write f.bytes
  try
    IO.setAccessRights temporary (rightsOf f.mode)
    IO.FS.rename temporary p.path
  catch e =>
    IO.FS.removeFile temporary
    throw e

/-- Replaces the files whose content is no longer that of the copy. -/
def writeBack (before after : Disk) : IO Unit :=
  after.entries.forM fun (p, _) => do
    if let (some old, some new) := (before.fileAt? p, after.fileAt? p) then
      if old.bytes != new.bytes then replaceFile p new

def environment : IO Environment := do
  return ⟨← IO.getEnv Environment.targetDirName, ← IO.getEnv Environment.extensionName,
    ← IO.getEnv Environment.followLinksName, ← IO.getEnv Environment.logName⟩

end CommentStrip.Main

open CommentStrip CommentStrip.Main in
def main : IO UInt32 := do
  let base := (← IO.appDir).toString
  let env ← environment
  let c ← takePath {} (Path.join base Config.fileName)
  let c ← match Config.load c.disk base env with
    | .ok config => takePath c (config.resolveTargetDir base)
    | .error _ => pure c
  let o := Command.call c.disk base env
  writeBack c.disk o.disk
  for r in o.records do
    IO.eprintln (r.level.name.toUpper ++ " " ++ r.target ++ ": " ++ r.text)
  IO.print o.outputText
  if let some e := o.refusal then IO.eprint (Command.refusalText base e)
  return o.exitCode.toUInt32
