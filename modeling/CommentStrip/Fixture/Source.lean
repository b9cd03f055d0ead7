import CommentStrip.Fixture.Random

/-! Made-up source files for trials: a stream of numbers picks each line from a few kinds. -/

namespace CommentStrip.Fixture

/-- The kinds of lines. -/
inductive LineKind where
  | call
  | label
  | doc
  | note
  | total
  | url
  | blockOpen
  | blockBody
  | blockClose
  | blank
  deriving DecidableEq, Repr

namespace LineKind

def all : List LineKind :=
  [call, label, doc, note, total, url, blockOpen, blockBody, blockClose, blank]

def ofNumber (x : UInt64) : LineKind := all.getD (x.toNat % all.length) blank

/-- The text of line `n`. -/
def text (kind : LineKind) (n : Nat) : String :=
  let n := toString n
  match kind with
  | call => "  final value" ++ n ++ " = compute(" ++ n ++ ");"
  | label => "  final label" ++ n ++ " = 'item // " ++ n ++ "'; // label for " ++ n
  | doc => "  /// Returns the " ++ n ++ "th entry."
  | note => "  // plain note " ++ n
  | total => "  int total" ++ n ++ " = a" ++ n ++ " /* inline */ + b" ++ n ++ ";"
  | url => "  final url" ++ n ++ " = \"https://example.com/" ++ n ++ "\";"
  | blockOpen => "  /*"
  | blockBody => "   * block body " ++ n
  | blockClose => "   */"
  | blank => ""

end LineKind

/-- The kinds and numbers of the lines from line `n` up to `total`, as far as `fuel` goes. A block
comes with all of its three lines, which share a number and count for three. -/
def drawFrom (total : Nat) : (fuel n : Nat) → Random → List (LineKind × Nat)
  | 0, _, _ => []
  | fuel + 1, n, r =>
    if n < total then
      let (x, r) := r.next
      match LineKind.ofNumber x with
      | .blockOpen =>
        (.blockOpen, n) :: (.blockBody, n) :: (.blockClose, n) :: drawFrom total fuel (n + 3) r
      | kind => (kind, n) :: drawFrom total fuel (n + 1) r
    else []

def draw (total : Nat) (seed : UInt64) : List (LineKind × Nat) :=
  drawFrom total total 0 (Random.ofSeed seed)

/-- A source file of about `total` lines between its first two and its last. -/
def source (total : Nat) (seed : UInt64) : String :=
  (draw total seed).foldl (fun text (kind, n) => text ++ kind.text n ++ "\n")
    "/// Generated admin fixture.\nclass Fixture \x7b\n" ++ "\x7d\n"

end CommentStrip.Fixture
