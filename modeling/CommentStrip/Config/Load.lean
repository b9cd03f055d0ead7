import CommentStrip.Config.Toml
import CommentStrip.Disk.Lookup

/-! Gathering the options: from the file beside the program, then from the environment. -/

namespace CommentStrip

/-- The variables that the program looks at. -/
structure Environment where
  targetDir : Option String := none
  extension : Option String := none
  followLinks : Option String := none
  log : Option String := none
  deriving DecidableEq, Repr, Inhabited

namespace Environment

def targetDirName : String := "DECOMMENT_TARGET_DIR"

def extensionName : String := "DECOMMENT_EXTENSION"

def followLinksName : String := "DECOMMENT_FOLLOW_SYMLINKS"

def logName : String := "DECOMMENT_LOG"

/-- Reads the variables by their names; one that is not UTF-8 counts as unset. -/
def ofVariables (settings : List (String × ByteArray)) : Environment :=
  let get (name : String) := (settings.lookup name).bind String.fromUTF8?
  ⟨get targetDirName, get extensionName, get followLinksName, get logName⟩

/-- The options that the environment sets. Only the two words for truth values set a flag. -/
def config (env : Environment) : Config where
  targetDir := env.targetDir
  extension := env.extension
  followLinks :=
    if env.followLinks = some "true" then some true
    else if env.followLinks = some "false" then some false
    else none

end Environment

namespace Config

/-- The options that the file in `base` sets; without a file it sets none. -/
def ofFile (d : Disk) (base : String) : Except ConfigError Config :=
  let path := Path.join base fileName
  if !d.pathExists path then .ok {}
  else
    match d.readText path with
    | .error e => .error (.unreadable path e)
    | .ok text => ofToml path text

/-- The options in force: the environment's before the file's. -/
def load (d : Disk) (base : String) (env : Environment) : Except ConfigError Config := do
  let c := merge (← ofFile d base) env.config
  c.validate
  return c

end Config

end CommentStrip
