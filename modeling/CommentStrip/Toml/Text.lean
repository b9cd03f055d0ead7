import CommentStrip.Toml.Lexeme

/-! The four written forms of a string: reading each of them, and choosing one to write. -/

namespace CommentStrip.Toml.Text

/-- What may stand for itself between double quotes. -/
def isPlain (c : Char) : Bool := isPrintable c && c != '"' && c != '\\'

/-- What may stand for itself between single quotes. -/
def isVerbatim (c : Char) : Bool := isPrintable c && c != '\''

/-- The character that a backslash and this letter stand for. -/
def escaped? : Char → Option Char
  | 'b' => some '\x08'
  | 't' => some '\t'
  | 'n' => some '\n'
  | 'f' => some '\x0c'
  | 'r' => some '\r'
  | '"' => some '"'
  | '\\' => some '\\'
  | _ => none

/-- The character with this number in base sixteen, if the number is one of a character. -/
def numbered? (digits : List Char) : Option Char :=
  let n := Number.valueOf 16 digits
  if digits.all Number.isHexDigit ∧ n.isValidChar then some (Char.ofNat n) else none

/-- Puts a character in front of a text that was read, if both are there. -/
def push (c : Option Char) (r : Option (List Char × List Char)) : Option (List Char × List Char) :=
  match c, r with
  | some c, some (text, rest) => some (c :: text, rest)
  | _, _ => none

/-- Reads up to a double quote on the same line. -/
def basic : List Char → Option (List Char × List Char)
  | [] => none
  | '"' :: rest => some ([], rest)
  | '\\' :: 'u' :: a :: b :: c :: d :: rest => push (numbered? [a, b, c, d]) (basic rest)
  | '\\' :: 'U' :: a :: b :: c :: d :: e :: f :: g :: h :: rest =>
    push (numbered? [a, b, c, d, e, f, g, h]) (basic rest)
  | '\\' :: c :: rest => push (escaped? c) (basic rest)
  | c :: rest => if isPlain c then push (some c) (basic rest) else none

/-- Reads up to a single quote on the same line. -/
def literal : List Char → Option (List Char × List Char)
  | [] => none
  | '\'' :: rest => some ([], rest)
  | c :: rest => if isVerbatim c then push (some c) (literal rest) else none

/-- The line ends after these blanks. -/
def endsLine (cs : List Char) : Bool := (lineBreak? (skipSpace cs)).isSome

/-- Reads up to three double quotes; one or two more of them belong to the text. After a backslash
at the end of a line everything blank is left out (`skipping`). -/
def multiBasic : (skipping : Bool) → List Char → Option (List Char × List Char)
  | _, [] => none
  | true, ' ' :: rest => multiBasic true rest
  | true, '\t' :: rest => multiBasic true rest
  | skipping, '\r' :: '\n' :: rest =>
    if skipping then multiBasic true rest else push (some '\n') (multiBasic false rest)
  | skipping, '\n' :: rest =>
    if skipping then multiBasic true rest else push (some '\n') (multiBasic false rest)
  | _, '"' :: '"' :: '"' :: '"' :: '"' :: rest => some (['"', '"'], rest)
  | _, '"' :: '"' :: '"' :: '"' :: rest => some (['"'], rest)
  | _, '"' :: '"' :: '"' :: rest => some ([], rest)
  | _, '"' :: rest => push (some '"') (multiBasic false rest)
  | _, '\\' :: 'u' :: a :: b :: c :: d :: rest =>
    push (numbered? [a, b, c, d]) (multiBasic false rest)
  | _, '\\' :: 'U' :: a :: b :: c :: d :: e :: f :: g :: h :: rest =>
    push (numbered? [a, b, c, d, e, f, g, h]) (multiBasic false rest)
  | _, '\\' :: c :: rest =>
    if endsLine (c :: rest) then multiBasic true (c :: rest)
    else push (escaped? c) (multiBasic false rest)
  | _, c :: rest => if isPlain c then push (some c) (multiBasic false rest) else none

/-- Reads up to three single quotes; one or two more of them belong to the text. -/
def multiLiteral : List Char → Option (List Char × List Char)
  | [] => none
  | '\r' :: '\n' :: rest => push (some '\n') (multiLiteral rest)
  | '\n' :: rest => push (some '\n') (multiLiteral rest)
  | '\'' :: '\'' :: '\'' :: '\'' :: '\'' :: rest => some (['\'', '\''], rest)
  | '\'' :: '\'' :: '\'' :: '\'' :: rest => some (['\''], rest)
  | '\'' :: '\'' :: '\'' :: rest => some ([], rest)
  | '\'' :: rest => push (some '\'') (multiLiteral rest)
  | c :: rest => if isVerbatim c then push (some c) (multiLiteral rest) else none

/-- The text after three opening quotes; a line end right there does not count. -/
def afterOpening (cs : List Char) : List Char := (lineBreak? cs).getD cs

/-- Reads a string in any of its forms. -/
def read : List Char → Option (List Char × List Char)
  | '"' :: '"' :: '"' :: rest => multiBasic false (afterOpening rest)
  | '"' :: rest => basic rest
  | '\'' :: '\'' :: '\'' :: rest => multiLiteral (afterOpening rest)
  | '\'' :: rest => literal rest
  | _ => none

/-- The forms in which a string can be written. -/
inductive Form where
  | basic
  | literal
  | multiBasic
  | multiLiteral
  deriving DecidableEq, Repr

/-- A control character that is not written as it is, in any form. -/
def isControl (c : Char) : Bool := (c.toNat ≤ 0x1F && c != '\t' && c != '\n') || c.toNat == 0x7F

/-- The longest run of `q`, when `run` of them stand right before the text. -/
def longestRunFrom (q : Char) : (run : Nat) → List Char → Nat
  | run, [] => run
  | run, c :: rest =>
    if c = q then longestRunFrom q (run + 1) rest else max run (longestRunFrom q 0 rest)

def longestRun (q : Char) (cs : List Char) : Nat := longestRunFrom q 0 cs

/-- The plainest form that holds the text, double quotes before single ones, one line before many;
escapes only where no form does without. -/
def Form.choose (cs : List Char) : Form :=
  let newline := cs.contains '\n'
  let backslash := cs.contains '\\'
  let doubles := longestRun '"' cs
  let singles := longestRun '\'' cs
  if cs.any isControl then if newline then .multiBasic else .basic
  else if !backslash && doubles = 0 && !newline then .basic
  else if singles = 0 && !newline then .literal
  else if !backslash && doubles ≤ 2 then .multiBasic
  else if singles ≤ 2 then .multiLiteral
  else if newline then .multiBasic
  else .basic

/-- Base sixteen with capital letters. -/
def hexDigit (n : Nat) : Char := if n < 10 then Char.ofNat (48 + n) else Char.ofNat (55 + n)

/-- How a character is written between double quotes; line ends and quotes have their own rules. -/
def escape (c : Char) : List Char :=
  if c = '\x08' then ['\\', 'b']
  else if c = '\t' then ['\\', 't']
  else if c = '\x0c' then ['\\', 'f']
  else if c = '\r' then ['\\', 'r']
  else if c = '\\' then ['\\', '\\']
  else if isControl c then ['\\', 'u', '0', '0', hexDigit (c.toNat / 16), hexDigit (c.toNat % 16)]
  else [c]

def writeBasic : List Char → List Char
  | [] => []
  | c :: rest =>
    (if c = '\n' then ['\\', 'n'] else if c = '"' then ['\\', '"'] else escape c) ++ writeBasic rest

/-- Writes what stands between three double quotes; `run` quotes have just been written, and a third
one would end the text. -/
def writeMultiBasic : (run : Nat) → List Char → List Char
  | _, [] => []
  | run, c :: rest =>
    if c = '"' then
      if run = 2 then '\\' :: '"' :: writeMultiBasic 0 rest
      else '"' :: writeMultiBasic (run + 1) rest
    else if c = '\n' then '\n' :: writeMultiBasic 0 rest
    else escape c ++ writeMultiBasic 0 rest

/-- A text of several lines begins on a line of its own. -/
def opening (quotes cs : List Char) : List Char :=
  if cs.contains '\n' then quotes ++ ['\n'] else quotes

def Form.write (form : Form) (cs : List Char) : List Char :=
  let threeDoubles := ['"', '"', '"']
  let threeSingles := ['\'', '\'', '\'']
  match form with
  | .basic => '"' :: writeBasic cs ++ ['"']
  | .literal => '\'' :: cs ++ ['\'']
  | .multiBasic => opening threeDoubles cs ++ writeMultiBasic 0 cs ++ threeDoubles
  | .multiLiteral => opening threeSingles cs ++ cs ++ threeSingles

/-- Writes a string in the form that suits it. -/
def write (cs : List Char) : List Char := (Form.choose cs).write cs

end CommentStrip.Toml.Text
