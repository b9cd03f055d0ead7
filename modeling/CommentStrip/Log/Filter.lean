import CommentStrip.Log.Basic
import CommentStrip.Text.Alphanumeric
import CommentStrip.Text.Blank
import CommentStrip.Text.Order

/-! Filters: which records are told. A filter is a list of directives, each for one target and the
targets that begin with it, or for all of them. -/

namespace CommentStrip.Log

/-- A whole number, with or without a plus sign. -/
def number? (cs : List Char) : Option Nat :=
  let digits := match cs with
    | '+' :: rest => rest
    | cs => cs
  if digits.isEmpty || !digits.all Char.isDigit then none
  else some (digits.foldl (fun n c => n * 10 + (c.toNat - '0'.toNat)) 0)

/-- A level by its rank, or by its name in capital or small letters. -/
def Level.ofText? (cs : List Char) : Option Level :=
  match number? cs with
  | some n => Level.all[n]?
  | none => Level.all.find? fun l => l.name.toList == cs.map Char.toLower

structure Directive where
  target : Option String
  level : Level
  deriving DecidableEq, Repr

namespace Directive

def ofText? (cs : List Char) : Option Directive :=
  match cs with
  | [] => none
  | c :: _ =>
    if !(Text.isAlphanumeric c || c == '-' || c == ':' || c == '_') then none
    else
      match cs.dropWhile (· != '=') with
      | [] =>
        match Level.ofText? cs with
        | some l => some ⟨none, l⟩
        | none => some ⟨some (String.ofList cs), .trace⟩
      | _ :: written =>
        let target := some (String.ofList (cs.takeWhile (· != '=')))
        if written.isEmpty then some ⟨target, .trace⟩
        else (Level.ofText? written).map fun l => ⟨target, l⟩

def text (d : Directive) : String :=
  match d.target with
  | some t => t ++ "=" ++ d.level.name
  | none => d.level.name

/-- The more closely a directive describes its target, the earlier it stands: longer targets come
first, then those later in the alphabet, and the directive for all targets last. -/
def precedes (a b : Directive) : Bool :=
  match a.target, b.target with
  | none, _ => false
  | some _, none => true
  | some s, some t =>
    s.utf8ByteSize > t.utf8ByteSize || (s.utf8ByteSize == t.utf8ByteSize && Text.isBefore t s)

def covers (d : Directive) (target : String) : Bool :=
  d.target.all fun t => t.toList.isPrefixOf target.toList

end Directive

/-- Directives in order, at most one for each target. -/
structure Filter where
  directives : List Directive
  deriving DecidableEq, Repr

namespace Filter

/-- Puts a directive in its place; it replaces the one for the same target. -/
def insertInto (d : Directive) : List Directive → List Directive
  | [] => [d]
  | e :: rest =>
    if e.target = d.target then d :: rest
    else if d.precedes e then d :: e :: rest
    else e :: insertInto d rest

def ofDirectives (ds : List Directive) : Filter :=
  ⟨ds.foldl (fun placed d => insertInto d placed) []⟩

/-- Reads directives with commas between them. One that cannot be read spoils the filter; commas
alone make one that tells nothing. -/
def ofText? (cs : List Char) : Option Filter :=
  (((cs.splitOn ',').filter (!·.isEmpty)).mapM Directive.ofText?).map ofDirectives

/-- Reads directives with commas between them and passes over those that cannot be read. -/
def ofTextLossy (cs : List Char) : Filter :=
  ofDirectives (((cs.splitOn ',').filter (!·.isEmpty)).filterMap Directive.ofText?)

/-- What is asked for if nothing else is: to tell what the program itself does, in outline. -/
def standardText : String := "decomment_core=info"

def standard : Filter := ofTextLossy standardText.toList

/-- The filter that a variable asks for, and the standard one if it asks for none. -/
def ofVariable (raw : Option String) : Filter :=
  let cs := Text.trim (raw.getD "").toList
  if cs.isEmpty then standard else (ofText? cs).getD standard

def text (f : Filter) : String := ",".intercalate (f.directives.map Directive.text)

/-- The first directive that covers a record's target decides on it. -/
def tells (f : Filter) (r : Record) : Bool :=
  match f.directives.find? (·.covers r.target) with
  | some d => r.level.rank ≤ d.level.rank
  | none => false

end Filter

end CommentStrip.Log
