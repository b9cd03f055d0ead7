/-! A stream of numbers that look random and depend on a seed alone. -/

namespace CommentStrip.Fixture

/-- A stream of 64-bit numbers; each is the state that its predecessor turns into. -/
structure Random where
  state : UInt64
  deriving DecidableEq, Repr

namespace Random

/-- Zero would repeat for ever, so it stands for another seed. -/
def ofSeed (seed : UInt64) : Random := ⟨if seed = 0 then 0x9E3779B97F4A7C15 else seed⟩

def step (x : UInt64) : UInt64 :=
  let x := x ^^^ (x <<< 13)
  let x := x ^^^ (x >>> 7)
  x ^^^ (x <<< 17)

def next (r : Random) : UInt64 × Random :=
  let x := step r.state
  (x, ⟨x⟩)

/-- The next `n` numbers. -/
def take : Nat → Random → List UInt64
  | 0, _ => []
  | n + 1, r =>
    let (x, r) := r.next
    x :: take n r

end Random

end CommentStrip.Fixture
