/-! The values of a TOML document, and the rules for adding to its tables. -/

namespace CommentStrip.Toml

/-- How a table came about, which decides what may still be added to it. -/
inductive Origin where
  /-- It has a header of its own, or is the root. -/
  | header
  /-- A longer header passed through it. -/
  | implied
  /-- A dotted key passed through it. -/
  | dotted
  /-- It was written in braces and is complete. -/
  | inline
  deriving DecidableEq, Repr

inductive Value where
  | string (text : String)
  | integer (n : Int)
  | float (lexeme : String)
  | boolean (b : Bool)
  | moment (lexeme : String)
  | array (items : List Value)
  | table (origin : Origin) (entries : List (String × Value))
  | tables (elements : List (List (String × Value)))
  deriving Inhabited

structure Table where
  origin : Origin
  entries : List (String × Value)

namespace Table

def empty (origin : Origin) : Table := ⟨origin, []⟩

def value (t : Table) : Value := .table t.origin t.entries

def find? (t : Table) (key : String) : Option Value := t.entries.lookup key

def set (t : Table) (key : String) (v : Value) : Table :=
  { t with entries := t.entries.filter (·.1 != key) ++ [(key, v)] }

/-- Follows `path` and changes the table it ends in. Tables that are missing on the way are made;
an array of tables stands for its last element. A dotted key passes only through tables that no
header has named, a header through any table that is not in braces. -/
def update (byDots : Bool) (change : Table → Option Table) : List String → Table → Option Table
  | [], t => change t
  | key :: path, t =>
    match t.find? key with
    | none => do
      let child ← update byDots change path (empty (if byDots then .dotted else .implied))
      return t.set key child.value
    | some (.table .inline _) => none
    | some (.table .header entries) => do
      if byDots then none
      let child ← update byDots change path ⟨.header, entries⟩
      return t.set key child.value
    | some (.table origin entries) => do
      let child ← update byDots change path ⟨origin, entries⟩
      return t.set key child.value
    | some (.tables elements) => do
      let child ← update byDots change path ⟨.header, ← elements.getLast?⟩
      return t.set key (.tables (elements.dropLast ++ [child.entries]))
    | some _ => none

/-- Puts `v` under `key`. A key that came after dots goes into a table made by dots, any other into
one that was not, and no key is given twice. -/
def insertNew (afterDots : Bool) (key : String) (v : Value) (t : Table) : Option Table :=
  if (t.origin == .dotted) != afterDots then none
  else if (t.find? key).isSome then none
  else some (t.set key v)

/-- Adds one key, written as the names between its dots. -/
def assign (names : List String) (v : Value) (t : Table) : Option Table := do
  let path := names.dropLast
  update true (insertNew (!path.isEmpty) (← names.getLast?) v) path t

/-- Begins the table `[names]`. One that a longer header passed through may get its own header. -/
def openTable (names : List String) (t : Table) : Option Table := do
  let key ← names.getLast?
  update false (fun parent =>
    match parent.find? key with
    | none => some (parent.set key (.table .header []))
    | some (.table .implied entries) => some (parent.set key (.table .header entries))
    | some _ => none) names.dropLast t

/-- Begins the next element of the array of tables `[[names]]`. -/
def openElement (names : List String) (t : Table) : Option Table := do
  let key ← names.getLast?
  update false (fun parent =>
    match parent.find? key with
    | none => some (parent.set key (.tables [[]]))
    | some (.tables elements) => some (parent.set key (.tables (elements ++ [[]])))
    | some _ => none) names.dropLast t

/-- The table that holds the given pairs, as braces make it. -/
def ofPairs (pairs : List (List String × Value)) : Option Table :=
  (pairs.foldlM (fun t pair => assign pair.1 pair.2 t) (empty .header)).map
    fun t => { t with origin := .inline }

end Table

/-- One line of a document that says something. -/
inductive Statement where
  | table (names : List String)
  | element (names : List String)
  | assign (names : List String) (v : Value)

/-- A document read so far: all of it, and the table that keys now go to. -/
structure Draft where
  root : Table := .empty .header
  current : List String := []

def Draft.add (d : Draft) : Statement → Option Draft
  | .table names => do return ⟨← d.root.openTable names, names⟩
  | .element names => do return ⟨← d.root.openElement names, names⟩
  | .assign names v => do
    return { d with root := ← d.root.update false (Table.assign names v) d.current }

/-- The table that a list of statements describes, if they agree with each other. -/
def Table.ofStatements (statements : List Statement) : Option Table :=
  (statements.foldlM Draft.add {}).map Draft.root

end CommentStrip.Toml
