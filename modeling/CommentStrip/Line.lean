import CommentStrip.Mark
import CommentStrip.Text.Blank

/-! Removing the comments of one line. What a line leaves open is carried to the next one. -/

namespace CommentStrip

/-- Where in the source a character is read. -/
inductive ScanState where
  | code
  | inString (quote : Char)
  | inBlockComment
  deriving DecidableEq, Repr, Inhabited

namespace ScanState

def isCode : ScanState → Bool
  | code => true
  | _ => false

def isInString : ScanState → Bool
  | inString _ => true
  | _ => false

def isInBlockComment : ScanState → Bool
  | inBlockComment => true
  | _ => false

/-- The quote that ends the string being read. -/
def delimiter? : ScanState → Option Char
  | inString q => some q
  | _ => none

end ScanState

/-- What one line hands to the next: strings end with their line, block comments do not. -/
inductive Carry where
  | code
  | comment
  deriving DecidableEq, Repr, Inhabited

def Carry.state : Carry → ScanState
  | code => .code
  | comment => .inBlockComment

/-- The carry of two passes over one line: a comment that either leaves open stays open. -/
def Carry.or : Carry → Carry → Carry
  | .code, c => c
  | .comment, _ => .comment

namespace Line

/-- Reads a line from `state` and keeps what is not comment. `escaped` tells whether the character
before was an escape mark; only that one is looked at, so a doubled escape mark escapes too. -/
def scanFrom (escaped : Bool) : ScanState → List Char → List Char × Carry
  | .code, '/' :: '/' :: _ => ([], .code)
  | .code, '/' :: '*' :: rest => scanFrom false .inBlockComment rest
  | .code, c :: rest =>
    let (kept, carry) := scanFrom false (if c ∈ quotes then .inString c else .code) rest
    (c :: kept, carry)
  | .inString q, c :: rest =>
    let (kept, carry) :=
      scanFrom (c == escapeMark) (if c = q ∧ !escaped then .code else .inString q) rest
    (c :: kept, carry)
  | .inBlockComment, '*' :: '/' :: rest => scanFrom false .code rest
  | .inBlockComment, _ :: rest => scanFrom false .inBlockComment rest
  | .inBlockComment, [] => ([], .comment)
  | _, [] => ([], .code)

/-- Reads a whole line as code that may hold strings. -/
def scan (line : List Char) : List Char × Carry := scanFrom false .code line

/-- Takes out the first block comment of a line, wherever it stands, also inside a string. -/
def dropFirstBlock (line : List Char) : List Char × Carry :=
  match openMark.cut? line with
  | none => (line, .code)
  | some (before, body) =>
    match closeMark.cut? body with
    | some (_, after) => (before ++ after, .code)
    | none => (before, .comment)

/-- The comment-free form of a line that begins in code. -/
def stripCode (line : List Char) : List Char × Carry :=
  let (rest, first) := dropFirstBlock line
  let (kept, second) := scan rest
  (Text.trimEnd kept, first.or second)

/-- The comment-free form of a line, and what it carries on. -/
def strip : Carry → List Char → List Char × Carry
  | .code, line => stripCode line
  | .comment, line =>
    match closeMark.cut? line with
    | some (_, after) => stripCode after
    | none => ([], .comment)

end Line

end CommentStrip
