/-! The smallest parts of a TOML text: blanks, line ends, comments, numbers and moments in time. -/

namespace CommentStrip.Toml

def isSpace (c : Char) : Bool := c == ' ' || c == '\t'

/-- What may stand in a comment: everything but control characters, the tab apart. -/
def isPrintable (c : Char) : Bool := c == '\t' || (0x20 ≤ c.toNat && c.toNat != 0x7F)

/-- What may stand in a key without quotes. -/
def isBareKey (c : Char) : Bool := c.isAlphanum || c == '-' || c == '_'

def skipSpace (cs : List Char) : List Char := cs.dropWhile isSpace

/-- What follows a line end, if the text begins with one. -/
def lineBreak? : List Char → Option (List Char)
  | '\n' :: rest => some rest
  | '\r' :: '\n' :: rest => some rest
  | _ => none

/-- What follows a line of which only blanks and a comment are left. -/
def endLine? (cs : List Char) : Option (List Char) :=
  let cs := match skipSpace cs with
    | '#' :: rest => rest.dropWhile isPrintable
    | rest => rest
  match cs with
  | [] => some []
  | _ => lineBreak? cs

/-- Passes over blanks, line ends and comments; `inComment` tells whether one is being read. -/
def skipFiller : (inComment : Bool) → List Char → List Char
  | _, '\r' :: '\n' :: rest => skipFiller false rest
  | _, '\n' :: rest => skipFiller false rest
  | false, '#' :: rest => skipFiller true rest
  | inComment, c :: rest =>
    if if inComment then isPrintable c else isSpace c then skipFiller inComment rest else c :: rest
  | _, [] => []

namespace Number

def digitValue (c : Char) : Nat :=
  if c.isDigit then c.toNat - '0'.toNat
  else if c.isLower then c.toNat - 'a'.toNat + 10
  else c.toNat - 'A'.toNat + 10

def isHexDigit (c : Char) : Bool :=
  c.isDigit || ('a' ≤ c && c ≤ 'f') || ('A' ≤ c && c ≤ 'F')

def isOctalDigit (c : Char) : Bool := '0' ≤ c && c ≤ '7'

def isBinaryDigit (c : Char) : Bool := c == '0' || c == '1'

def valueOf (base : Nat) (digits : List Char) : Nat :=
  digits.foldl (fun n c => n * base + digitValue c) 0

/-- Digits, between any two of which one underscore may stand; the result has none. -/
def grouped? (isDigit : Char → Bool) (cs : List Char) : Option (List Char) :=
  let groups := cs.splitOn '_'
  if groups.all (fun g => !g.isEmpty && g.all isDigit) then some groups.flatten else none

/-- A sign, if there is one, and what follows it. -/
def signed : List Char → Bool × List Char
  | '-' :: rest => (true, rest)
  | '+' :: rest => (false, rest)
  | cs => (false, cs)

/-- A decimal whole number has no needless zero in front. -/
def whole? (cs : List Char) : Option (List Char) := do
  let digits ← grouped? Char.isDigit cs
  if digits.length ≠ 1 ∧ digits.head? = some '0' then none
  return digits

/-- Whole numbers fit in 64 bits with a sign. -/
def inRange (n : Int) : Bool := -9223372036854775808 ≤ n && n ≤ 9223372036854775807

def integer? (cs : List Char) : Option Int := do
  let n : Int ← match cs with
    | '0' :: 'x' :: rest => (Int.ofNat ∘ valueOf 16) <$> grouped? isHexDigit rest
    | '0' :: 'o' :: rest => (Int.ofNat ∘ valueOf 8) <$> grouped? isOctalDigit rest
    | '0' :: 'b' :: rest => (Int.ofNat ∘ valueOf 2) <$> grouped? isBinaryDigit rest
    | _ =>
      let (negative, rest) := signed cs
      (fun digits => let n : Int := valueOf 10 digits; if negative then -n else n) <$> whole? rest
  if inRange n then some n else none

/-- From here on a number is nearer to infinity than to a number of 53 binary digits with an
exponent below 1024. -/
def floatLimit : Nat := Nat.pow 2 1024 - Nat.pow 2 970

/-- Whether `m * 10 ^ up / 10 ^ down` reaches the limit. -/
def tooLarge (m up down : Nat) : Bool :=
  if m = 0 then false
  else if down ≤ up then
    let e := up - down
    e > 400 || m * Nat.pow 10 e ≥ floatLimit
  else
    let e := down - up
    e ≤ m.log2 && m ≥ floatLimit * Nat.pow 10 e

/-- A number with a fraction, an exponent or both, or one of the words for infinity and "no number".
One that is too large is refused, unless it is negative. -/
def isFloat (cs : List Char) : Bool :=
  let (negative, rest) := signed cs
  if rest = ['i', 'n', 'f'] ∨ rest = ['n', 'a', 'n'] then true
  else
    let mantissa := rest.takeWhile (fun c => c != 'e' && c != 'E')
    let exponent := rest.drop mantissa.length
    let front := mantissa.takeWhile (· != '.')
    let fraction := mantissa.drop front.length
    let parts : Option (List Char × List Char × Bool × List Char) := do
      let w ← whole? front
      let f ← match fraction with
        | [] => some []
        | _ :: digits => grouped? Char.isDigit digits
      match exponent with
      | [] => some (w, f, false, [])
      | _ :: digits =>
        let (down, digits) := signed digits
        return (w, f, down, ← grouped? Char.isDigit digits)
    match parts with
    | none => false
    | some (w, f, down, e) =>
      let m := valueOf 10 (w ++ f)
      let e := valueOf 10 e
      !(fraction.isEmpty && exponent.isEmpty) &&
        (negative || !(if down then tooLarge m 0 (f.length + e) else tooLarge m e f.length))

end Number

namespace Moment

def number? (digits : List Char) (low high : Nat) : Bool :=
  digits.all Char.isDigit && low ≤ Number.valueOf 10 digits && Number.valueOf 10 digits ≤ high

def daysIn (year month : Nat) : Nat :=
  if month = 2 then
    if year % 4 = 0 ∧ (year % 100 ≠ 0 ∨ year % 400 = 0) then 29 else 28
  else if month ∈ [4, 6, 9, 11] then 30
  else 31

/-- A day of the calendar, `yyyy-mm-dd`. -/
def isDate : List Char → Bool
  | [y1, y2, y3, y4, '-', m1, m2, '-', d1, d2] =>
    let year := [y1, y2, y3, y4]
    number? year 0 9999 && number? [m1, m2] 1 12 &&
      number? [d1, d2] 1 (daysIn (Number.valueOf 10 year) (Number.valueOf 10 [m1, m2]))
  | _ => false

/-- What follows a time of day, `hh:mm:ss` with any digits of a second after a point. -/
def afterTime? : List Char → Option (List Char)
  | h1 :: h2 :: ':' :: m1 :: m2 :: ':' :: s1 :: s2 :: rest =>
    if number? [h1, h2] 0 23 && number? [m1, m2] 0 59 && number? [s1, s2] 0 60 then
      match rest with
      | '.' :: digits =>
        if (digits.takeWhile Char.isDigit).isEmpty then none
        else some (digits.dropWhile Char.isDigit)
      | _ => some rest
    else none
  | _ => none

/-- A distance to universal time. -/
def isOffset : List Char → Bool
  | ['Z'] => true
  | ['z'] => true
  | [sign, h1, h2, ':', m1, m2] =>
    (sign == '+' || sign == '-') && number? [h1, h2] 0 23 && number? [m1, m2] 0 59
  | _ => false

def isTime (cs : List Char) : Bool := afterTime? cs == some []

/-- A time of day, with or without an offset. -/
def isClock (cs : List Char) : Bool :=
  match afterTime? cs with
  | some rest => rest.isEmpty || isOffset rest
  | none => false

/-- A day, a time of day, or both with a `T` between them. -/
def isMoment (cs : List Char) : Bool :=
  isDate cs || isTime cs ||
    (isDate (cs.take 10) &&
      match cs.drop 10 with
      | t :: clock => (t == 'T' || t == 't') && isClock clock
      | [] => false)

end Moment

end CommentStrip.Toml
