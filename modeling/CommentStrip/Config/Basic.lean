import CommentStrip.Error.Basic
import CommentStrip.Path

/-! What to strip: the configured options, their defaults, and the check on them. -/

namespace CommentStrip

/-- The options as they are set, if they are. -/
structure Config where
  targetDir : Option String := none
  extension : Option String := none
  followLinks : Option Bool := none
  deriving DecidableEq, Repr, Inhabited

namespace Config

def defaultTargetDir : String := "lib/lib_admin"

def defaultExtension : String := "dart"

/-- The name of the file that holds the options, beside the files to strip. -/
def fileName : String := "decomment.toml"

/-- An extension counts without the dots in front. -/
def bareExtension (extension : String) : String :=
  String.ofList (extension.toList.dropWhile (· == '.'))

def effectiveTargetDir (c : Config) : String := c.targetDir.getD defaultTargetDir

def effectiveExtension (c : Config) : String :=
  (c.extension.map bareExtension).getD defaultExtension

def effectiveFollowLinks (c : Config) : Bool := c.followLinks.getD false

/-- The directory to work in, for a program that lives in `base`. -/
def resolveTargetDir (c : Config) (base : String) : String :=
  Path.join base c.effectiveTargetDir

/-- Later options win over the ones set before. -/
def merge (earlier later : Config) : Config where
  targetDir := later.targetDir.or earlier.targetDir
  extension := later.extension.or earlier.extension
  followLinks := later.followLinks.or earlier.followLinks

def validate (c : Config) : Except ConfigError Unit :=
  if c.extension.any (bareExtension · == "") then
    .error (.invalid "scan.extension" "must not be empty")
  else if c.targetDir == some "" then
    .error (.invalid "scan.target_dir" "must not be empty")
  else .ok ()

end Config

end CommentStrip
