/-! The two-character marks that open and close comments, and the quotes that guard them. -/

namespace CommentStrip

/-- A mark is a pair of characters that stand next to each other. -/
structure Mark where
  first : Char
  second : Char
  deriving DecidableEq, Repr

namespace Mark

def toList (m : Mark) : List Char := [m.first, m.second]

/-- Cuts a text at the first place where the mark stands: what is before it and what is after it. -/
def cut? (m : Mark) : List Char → Option (List Char × List Char)
  | a :: b :: rest =>
    if a = m.first ∧ b = m.second then some ([], rest)
    else (m.cut? (b :: rest)).map fun (before, after) => (a :: before, after)
  | _ => none

end Mark

/-- From here to the end of the line nothing is kept. -/
def lineMark : Mark := ⟨'/', '/'⟩

def openMark : Mark := ⟨'/', '*'⟩

def closeMark : Mark := ⟨'*', '/'⟩

/-- The characters that begin a string; the same character ends it. -/
def quotes : List Char := ['"', '\'']

/-- Right before a quote it keeps the string from ending there. -/
def escapeMark : Char := '\\'

end CommentStrip
