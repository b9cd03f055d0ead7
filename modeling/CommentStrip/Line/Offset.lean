import CommentStrip.Line
import CommentStrip.Text.Order

/-! Removing the comments of one line as it lies in memory: in UTF-8, addressed by byte offsets, and with
one loop over the line. A text can be cut between two characters only, so a cut inside a character or
outside the line is a fault, and the definitions show each place where one could arise. -/

namespace CommentStrip.Offset

open Text

/-- What stops a program that works with offsets: a cut that is not between two characters of the text,
or a byte that is not there. -/
inductive Fault where
  | cut (offset : Nat)
  | byte (offset : Nat)
  deriving DecidableEq, Repr

/-- The part of a text before an offset. -/
def upTo (text : String) (offset : Nat) : Except Fault String :=
  if h : String.Pos.Raw.IsValid text ⟨offset⟩ then .ok (text.extract text.startPos (text.pos ⟨offset⟩ h))
  else .error (.cut offset)

/-- The part of a text from an offset on. -/
def onward (text : String) (offset : Nat) : Except Fault String :=
  if h : String.Pos.Raw.IsValid text ⟨offset⟩ then .ok (text.extract (text.pos ⟨offset⟩ h) text.endPos)
  else .error (.cut offset)

/-- The bytes of a mark. -/
def markBytes (m : Mark) : List UInt8 := bytes (String.ofList m.toList)

/-- The first offset at which one list of bytes stands in another. -/
def search (pattern : List UInt8) : List UInt8 → Option Nat
  | [] => none
  | b :: rest => if pattern.isPrefixOf (b :: rest) then some 0 else (search pattern rest).map (· + 1)

/-- The first offset at which the mark stands. -/
def find? (m : Mark) (text : String) : Option Nat := search (markBytes m) (bytes text)

def startsWith (m : Mark) (text : String) : Bool := (markBytes m).isPrefixOf (bytes text)

/-- Whether the byte before an offset is an escape mark. -/
def followsEscape (text : String) (offset : Nat) : Except Fault Bool :=
  if offset = 0 then .ok false
  else
    match (bytes text)[offset - 1]? with
    | some b => .ok (b == escapeMark.toUInt8)
    | none => .error (.byte (offset - 1))

def markSize (m : Mark) : Nat := (markBytes m).length

/-- Where the loop over a line stands: the offset it has come to, the state, and what has been kept. -/
structure Loop where
  pos : Nat
  state : ScanState
  kept : String
  deriving DecidableEq, Repr

namespace Loop

def start : Loop := ⟨0, .code, ""⟩

/-- Keeps a character and passes over it. -/
def keep (l : Loop) (c : Char) (state : ScanState) : Loop := ⟨l.pos + c.utf8Size, state, l.kept.push c⟩

def carry (l : Loop) : Carry := if l.state.isInBlockComment then .comment else .code

end Loop

/-- The loop is left, or goes round again. -/
inductive Turn where
  | leave (last : Loop)
  | again (next : Loop)
  deriving DecidableEq, Repr

/-- One turn in code, where `c` begins what is left of the line. -/
def turnInCode (l : Loop) (left : String) (c : Char) : Except Fault Turn :=
  if startsWith lineMark left then return .leave l
  else if startsWith openMark left then do
    let body ← onward left (markSize openMark)
    match find? closeMark body with
    | some offset => return .again { l with pos := l.pos + (markSize openMark + offset + markSize closeMark) }
    | none => return .leave { l with state := .inBlockComment }
  else return .again (l.keep c (if c ∈ quotes then .inString c else .code))

/-- Whether `c` ends the string that `q` began. The byte before is looked at only if it is the quote. -/
def endsString (line : String) (pos : Nat) (q c : Char) : Except Fault Bool :=
  if c = q then (!·) <$> followsEscape line pos else return false

/-- One turn in a string. -/
def turnInString (line : String) (l : Loop) (q c : Char) : Except Fault Turn := do
  let ends ← endsString line l.pos q c
  return .again (l.keep c (if ends then .code else .inString q))

def turn (line : String) (l : Loop) : Except Fault Turn := do
  let left ← onward line l.pos
  match left.front? with
  | none => return .leave l
  | some c =>
    match l.state with
    | .code => turnInCode l left c
    | .inString q => turnInString line l q c
    | .inBlockComment => return .leave l

theorem isValid_append (a b : String) : String.Pos.Raw.IsValid (a ++ b) ⟨a.utf8ByteSize⟩ :=
  String.Pos.Raw.isValid_iff_exists_append.2 ⟨a, b, rfl, rfl⟩

theorem onward_append (a b : String) : onward (a ++ b) a.utf8ByteSize = .ok b := by
  rw [onward, dif_pos (isValid_append a b)]
  congr 1
  apply String.toByteArray_inj.1
  simp [ByteArray.extract_append_eq_right]

theorem onward_eq_ok {text rest : String} {offset : Nat} (h : onward text offset = .ok rest) :
    ∃ front, text = front ++ rest ∧ front.utf8ByteSize = offset := by
  by_cases hv : String.Pos.Raw.IsValid text ⟨offset⟩
  · obtain ⟨a, b, rfl, ho⟩ := String.Pos.Raw.isValid_iff_exists_append.1 hv
    obtain rfl : offset = a.utf8ByteSize := congrArg String.Pos.Raw.byteIdx ho
    rw [onward_append] at h
    obtain rfl : b = rest := Except.ok.inj h
    exact ⟨a, rfl, rfl⟩
  · rw [onward, dif_neg hv] at h
    cases h

theorem utf8ByteSize_ofList_cons (c : Char) (cs : List Char) :
    (String.ofList (c :: cs)).utf8ByteSize = (String.ofList cs).utf8ByteSize + c.utf8Size := by
  have hone : (String.ofList [c]).utf8ByteSize = c.utf8Size := String.utf8ByteSize_singleton
  rw [← List.singleton_append, String.ofList_append, String.utf8ByteSize_append, hone, Nat.add_comm]

theorem markSize_eq (m : Mark) : markSize m = (String.ofList m.toList).utf8ByteSize := by
  rw [markSize, markBytes, bytes, Array.length_toList]
  rfl

theorem markSize_pos (m : Mark) : 0 < markSize m := by
  have hfirst := m.first.utf8Size_pos
  rw [markSize_eq, Mark.toList, utf8ByteSize_ofList_cons, utf8ByteSize_ofList_cons]
  omega

theorem pos_lt_of_turnInCode {l next : Loop} {left : String} {c : Char}
    (h : turnInCode l left c = .ok (.again next)) : l.pos < next.pos := by
  have hc := c.utf8Size_pos
  have ho := markSize_pos openMark
  simp only [turnInCode, bind, Except.bind, pure, Except.pure] at h
  split at h
  · cases h
  · split at h
    · split at h
      · cases h
      · split at h
        · cases h
          simp only
          omega
        · cases h
    · cases h
      simp only [Loop.keep]
      omega

theorem pos_lt_of_turnInString {line : String} {l next : Loop} {q c : Char}
    (h : turnInString line l q c = .ok (.again next)) : l.pos < next.pos := by
  have hc := c.utf8Size_pos
  simp only [turnInString, bind, Except.bind] at h
  split at h
  · cases h
  · obtain rfl : l.keep c _ = next := by simpa [pure, Except.pure] using h
    simp only [Loop.keep]
    omega

/-- The loop goes round again only from before the end of the line, and further on. -/
theorem pos_lt_of_turn {line : String} {l next : Loop} (h : turn line l = .ok (.again next)) :
    l.pos < next.pos ∧ l.pos < line.utf8ByteSize := by
  cases hleft : onward line l.pos with
  | error fault =>
    simp only [turn, hleft, bind, Except.bind] at h
    cases h
  | ok left =>
    obtain ⟨front, rfl, hpos⟩ := onward_eq_ok hleft
    simp only [turn, hleft, bind, Except.bind] at h
    cases hfront : left.front? with
    | none =>
      simp only [hfront] at h
      cases h
    | some c =>
      have hsize : l.pos < (front ++ left).utf8ByteSize := by
        rw [String.front?_eq] at hfront
        obtain ⟨cs, hcs⟩ := List.head?_eq_some_iff.1 hfront
        obtain rfl : left = String.ofList (c :: cs) := by rw [← hcs, String.ofList_toList]
        have hc := c.utf8Size_pos
        rw [String.utf8ByteSize_append, utf8ByteSize_ofList_cons]
        omega
      refine ⟨?_, hsize⟩
      simp only [hfront] at h
      cases hs : l.state with
      | code =>
        simp only [hs] at h
        exact pos_lt_of_turnInCode h
      | inString q =>
        simp only [hs] at h
        exact pos_lt_of_turnInString h
      | inBlockComment =>
        simp only [hs] at h
        cases h

/-- The loop over a line. Each turn that goes round again has moved on, and none does at the end. -/
def loop (line : String) (l : Loop) : Except Fault Loop :=
  match _h : turn line l with
  | .error fault => .error fault
  | .ok (.leave last) => .ok last
  | .ok (.again next) => loop line next
termination_by line.utf8ByteSize - l.pos
decreasing_by
  have hlt := pos_lt_of_turn _h
  omega

def scan (line : String) : Except Fault (String × Carry) := do
  let last ← loop line .start
  return (last.kept, last.carry)

/-- Takes out the first block comment, found without regard to strings. -/
def dropFirstBlock (line : String) : Except Fault (String × Carry) :=
  match find? openMark line with
  | none => return (line, .code)
  | some start => do
    let body := start + markSize openMark
    match find? closeMark (← onward line body) with
    | some offset =>
      let stop := body + offset + markSize closeMark
      return ((← upTo line start) ++ (← onward line stop), .code)
    | none => return (← upTo line start, .comment)

def stripCode (line : String) : Except Fault (String × Carry) := do
  let (rest, first) ← dropFirstBlock line
  let (kept, second) ← scan rest
  return (String.ofList (Text.trimEnd kept.toList), first.or second)

/-- One line after what the line before it has carried over. -/
def strip (carry : Carry) (line : String) : Except Fault (String × Carry) :=
  match carry with
  | .code => stripCode line
  | .comment =>
    match find? closeMark line with
    | some stop => do stripCode (← onward line (stop + markSize closeMark))
    | none => return ("", .comment)

end CommentStrip.Offset
