import CommentStrip.Config.Basic
import CommentStrip.Toml.Document

/-! The options as a TOML document: the table `scan` with one key for each option. -/

namespace CommentStrip.Config

open Toml (Value)

def targetDirKey : String := "target_dir"

def extensionKey : String := "extension"

def followLinksKey : String := "follow_symlinks"

/-- The text of an option that may be unset. -/
def text? : Option Value → Option (Option String)
  | none => some none
  | some (.string s) => some (some s)
  | some _ => none

/-- The truth value of an option that may be unset. -/
def flag? : Option Value → Option (Option Bool)
  | none => some none
  | some (.boolean b) => some (some b)
  | some _ => none

/-- The options that a value gives. A table gives them by name and an array by position; keys and
items beyond the options do not count, and neither does a moment, which names no option. -/
def ofValue? : Value → Option Config
  | .table _ entries => do
    return ⟨← text? (entries.lookup targetDirKey), ← text? (entries.lookup extensionKey),
      ← flag? (entries.lookup followLinksKey)⟩
  | .array items => do return ⟨← text? items[0]?, ← text? items[1]?, ← flag? items[2]?⟩
  | .moment _ => some {}
  | _ => none

/-- Reads the options from a document at `path`. -/
def ofToml (path text : String) : Except ConfigError Config :=
  match Toml.document? text with
  | none => .error (.malformed path "not a well-formed document")
  | some root =>
    match root.find? "scan" with
    | none => .ok {}
    | some v =>
      match ofValue? v with
      | some c => .ok c
      | none => .error (.malformed path "an option has a value of the wrong type")

/-- Where options come from that were not read from a file. -/
def inlineSource : String := "<string>"

/-- A line that sets an option. -/
def entry (key : String) (written : List Char) : String :=
  key ++ " = " ++ String.ofList written ++ "\n"

/-- Writes the options that are set. -/
def toToml (c : Config) : String :=
  "[scan]\n" ++
    (c.targetDir.map fun s => entry targetDirKey (Toml.Text.write s.toList)).getD "" ++
    (c.extension.map fun s => entry extensionKey (Toml.Text.write s.toList)).getD "" ++
    (c.followLinks.map fun b => entry followLinksKey (toString b).toList).getD ""

end CommentStrip.Config
