import CommentStrip.Line

/-! Removing the comments of a whole text, line by line, and shortening the gaps that are left. -/

namespace CommentStrip.Source

/-- The lines of a text, split at every line feed; the empty text has one line. -/
def lines : List Char → List (List Char)
  | [] => [[]]
  | c :: rest =>
    if c = '\n' then [] :: lines rest
    else
      match lines rest with
      | [] => [[c]]
      | first :: others => (c :: first) :: others

def unlines : List (List Char) → List Char
  | [] => []
  | [line] => line
  | line :: others => line ++ '\n' :: unlines others

/-- Strips lines in turn, handing the carry from each to the next. -/
def stripFrom : Carry → List (List Char) → List (List Char) × Carry
  | carry, [] => ([], carry)
  | carry, line :: others =>
    let (kept, next) := Line.strip carry line
    let (rest, final) := stripFrom next others
    (kept :: rest, final)

def stripLines (text : List Char) : List (List Char) := (stripFrom .code (lines text)).1

/-- Copies a text of which `run` line feeds have just been written, never more than two together. -/
def collapseFrom : Nat → List Char → List Char
  | _, [] => []
  | run, c :: rest =>
    if c = '\n' then
      if run < 2 then c :: collapseFrom (run + 1) rest else collapseFrom run rest
    else c :: collapseFrom 0 rest

/-- A text with every run of three or more line feeds shortened to two. -/
def collapse (text : List Char) : List Char := collapseFrom 0 text

/-- Three line feeds stand together somewhere. -/
def hasGap : List Char → Bool
  | '\n' :: '\n' :: '\n' :: _ => true
  | _ :: rest => hasGap rest
  | [] => false

/-- The text that was given, or a new one in its place. -/
inductive Loan where
  | borrowed (text : List Char)
  | owned (text : List Char)
  deriving DecidableEq, Repr

namespace Loan

def text : Loan → List Char
  | borrowed text => text
  | owned text => text

def isBorrowed : Loan → Bool
  | borrowed _ => true
  | owned _ => false

end Loan

/-- Shortens the gaps of a text. One that has none is given back. -/
def closeGaps (text : List Char) : Loan :=
  if hasGap text then .owned (collapse text) else .borrowed text

/-- The comment-free form of a text. -/
def strip (text : List Char) : List Char := (closeGaps (unlines (stripLines text))).text

end CommentStrip.Source

namespace CommentStrip

/-- Removes every comment from a source text. -/
def stripComments (text : String) : String := String.ofList (Source.strip text.toList)

end CommentStrip
