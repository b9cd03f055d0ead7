import CommentStrip.Toml.Text
import CommentStrip.Toml.Value

/-! Reading a TOML document: keys, values, statements, and the table they add up to. Every reader
gives what it read and the rest of the text. -/

namespace CommentStrip.Toml

/-- Values in brackets and braces lie within one another, and names of a key follow one another,
fewer than this many times. -/
def nestingLimit : Nat := 80

/-- One name of a key. -/
def name? : List Char → Option (String × List Char)
  | '"' :: rest => (Text.basic rest).map fun (s, rest) => (String.ofList s, rest)
  | '\'' :: rest => (Text.literal rest).map fun (s, rest) => (String.ofList s, rest)
  | cs =>
    let bare := cs.takeWhile isBareKey
    if bare.isEmpty then none else some (String.ofList bare, cs.dropWhile isBareKey)

/-- The names of a key, with dots between them and blanks around them, as far as `fuel` goes. -/
def names? : (fuel : Nat) → List Char → Option (List String × List Char)
  | 0, _ => none
  | fuel + 1, cs => do
    let (name, rest) ← name? (skipSpace cs)
    match skipSpace rest with
    | '.' :: rest =>
      let (others, rest) ← names? fuel rest
      return (name :: others, rest)
    | rest => return ([name], rest)

/-- A key. -/
def key? (cs : List Char) : Option (List String × List Char) := names? (nestingLimit - 1) cs

/-- The characters of numbers, moments and words. -/
def isWord (c : Char) : Bool :=
  c.isAlphanum || c == '_' || c == '+' || c == '-' || c == '.' || c == ':'

/-- A word read for its meaning: a truth value, a number or a moment. -/
def word? (cs : List Char) : Option Value :=
  if cs = ['t', 'r', 'u', 'e'] then some (.boolean true)
  else if cs = ['f', 'a', 'l', 's', 'e'] then some (.boolean false)
  else if Moment.isMoment cs then some (.moment (String.ofList cs))
  else if Number.isFloat cs then some (.float (String.ofList cs))
  else (Number.integer? cs).map .integer

/-- A value that is not made of other values. A day may be followed by a blank and a time of day. -/
def scalar? (cs : List Char) : Option (Value × List Char) :=
  match Text.read cs with
  | some (s, rest) => some (.string (String.ofList s), rest)
  | none =>
    let word := cs.takeWhile isWord
    let rest := cs.dropWhile isWord
    let clock := (rest.drop 1).takeWhile isWord
    if Moment.isDate word ∧ rest.head? = some ' ' ∧ Moment.isClock clock then
      some (.moment (String.ofList (word ++ ' ' :: clock)), (rest.drop 1).dropWhile isWord)
    else (word? word).map fun v => (v, rest)

/-- The values up to a closing bracket, as far as `fuel` goes. -/
def items? (item? : List Char → Option (Value × List Char)) :
    (fuel : Nat) → List Char → Option (List Value × List Char)
  | 0, _ => none
  | fuel + 1, cs =>
    match skipFiller false cs with
    | ']' :: rest => some ([], rest)
    | cs => do
      let (v, rest) ← item? cs
      match skipFiller false rest with
      | ']' :: rest => return ([v], rest)
      | ',' :: rest =>
        let (vs, rest) ← items? item? fuel rest
        return (v :: vs, rest)
      | _ => none

/-- A key and its value. -/
def pair? (item? : List Char → Option (Value × List Char)) (cs : List Char) :
    Option ((List String × Value) × List Char) := do
  let (names, rest) ← key? cs
  match rest with
  | '=' :: rest =>
    let (v, rest) ← item? (skipSpace rest)
    return ((names, v), rest)
  | _ => none

/-- The pairs up to a closing brace, as far as `fuel` goes. -/
def pairs? (item? : List Char → Option (Value × List Char)) :
    (fuel : Nat) → List Char → Option (List (List String × Value) × List Char)
  | 0, _ => none
  | fuel + 1, cs => do
    let (p, rest) ← pair? item? cs
    match skipSpace rest with
    | '}' :: rest => return ([p], rest)
    | ',' :: rest =>
      let (ps, rest) ← pairs? item? fuel rest
      return (p :: ps, rest)
    | _ => none

/-- A value that holds no more than `depth` others within one another. -/
def value? : (depth : Nat) → List Char → Option (Value × List Char)
  | depth + 1, '[' :: rest => do
    let (vs, rest) ← items? (value? depth) (rest.length + 1) rest
    return (.array vs, rest)
  | depth + 1, '{' :: rest =>
    match skipSpace rest with
    | '}' :: rest => some ((Table.empty .inline).value, rest)
    | rest => do
      let (ps, rest) ← pairs? (value? depth) (rest.length + 1) rest
      return ((← Table.ofPairs ps).value, rest)
  | _, cs => scalar? cs

/-- A header: its names and what follows its line. -/
def header? (closing cs : List Char) : Option (List String × List Char) := do
  let (names, rest) ← key? cs
  let rest ← if closing.isPrefixOf rest then some (rest.drop closing.length) else none
  return (names, ← endLine? rest)

/-- The statement that the text begins with. -/
def statement? : List Char → Option (Statement × List Char)
  | '[' :: '[' :: rest => (header? [']', ']'] rest).map fun (names, rest) => (.element names, rest)
  | '[' :: rest => (header? [']'] rest).map fun (names, rest) => (.table names, rest)
  | cs => do
    let ((names, v), rest) ← pair? (value? (nestingLimit - 1)) cs
    return (.assign names v, ← endLine? rest)

/-- All statements of a text, as far as `fuel` goes. -/
def statements? : (fuel : Nat) → List Char → Option (List Statement)
  | 0, _ => none
  | fuel + 1, cs =>
    match skipFiller false cs with
    | [] => some []
    | cs => do
      let (s, rest) ← statement? cs
      return s :: (← statements? fuel rest)

/-- The table that a document describes. A byte order mark in front of it does not count. -/
def document? (text : String) : Option Table := do
  let cs := match text.toList with
    | '\ufeff' :: rest => rest
    | cs => cs
  Table.ofStatements (← statements? (cs.length + 1) cs)

end CommentStrip.Toml
