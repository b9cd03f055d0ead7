import CommentStrip.Fixture.Random
import Mathlib.Logic.Function.Basic

/-! The stream of numbers loses nothing on its way: each number tells the one before it, so streams
that begin apart stay apart. -/
namespace CommentStrip.Fixture.Random

/-- The number at place `n` of the stream, counted from zero. -/
def nth : Random → Nat → UInt64
  | r, 0 => r.next.1
  | r, n + 1 => nth r.next.2 n

private theorem take_eq_map_nth (n : Nat) (r : Random) : take n r = (List.range n).map r.nth := by
  induction n generalizing r with
  | zero => rfl
  | succ n ih =>
    rw [List.range_succ_eq_map, List.map_cons, List.map_map]
    exact congrArg (r.next.1 :: ·) (ih r.next.2)

section Mixing

variable {w k : Nat}

/-- Mixing a word with what an additive map makes of it can be undone if that map moves every word but
zero. -/
theorem mix_injective {f : BitVec w → BitVec w} (hadd : ∀ x y, f (x ^^^ y) = f x ^^^ f y)
    (hmoves : ∀ x, f x = x → x = 0#w) : Function.Injective fun x => x ^^^ f x := by
  intro x y h
  have hfixed : f (x ^^^ y) = x ^^^ y := by
    have hzero : (x ^^^ y) ^^^ f (x ^^^ y) = 0#w := by
      calc
        (x ^^^ y) ^^^ f (x ^^^ y) = (x ^^^ f x) ^^^ (y ^^^ f y) := by rw [hadd]; ac_rfl
        _ = 0#w := BitVec.xor_eq_zero_iff.2 h
    exact (BitVec.xor_eq_zero_iff.1 hzero).symm
  exact BitVec.xor_eq_zero_iff.1 (hmoves _ hfixed)

/-- Bits that move up leave nothing at the bottom, so a word that stays the same has none, from the lowest
place on. -/
theorem eq_zero_of_shiftLeft_eq_self (hk : 0 < k) {x : BitVec w} (h : x <<< k = x) : x = 0#w := by
  apply BitVec.eq_of_getLsbD_eq
  intro i hi
  induction i using Nat.strongRecOn with
  | ind i ih =>
    rw [← h, BitVec.getLsbD_shiftLeft]
    by_cases hik : i < k
    · simp [hik]
    · simp [ih (i - k) (by omega) (by omega)]

/-- The same from the highest place down. -/
theorem eq_zero_of_shiftRight_eq_self (hk : 0 < k) {x : BitVec w} (h : x >>> k = x) : x = 0#w := by
  apply BitVec.eq_of_getLsbD_eq
  intro i hi
  induction hd : w - i using Nat.strongRecOn generalizing i with
  | ind d ih =>
    rw [← h, BitVec.getLsbD_ushiftRight, BitVec.getLsbD_zero]
    by_cases hik : k + i < w
    · rw [ih (w - (k + i)) (by omega) (k + i) hik rfl, BitVec.getLsbD_zero]
    · exact BitVec.getLsbD_of_ge x _ (by omega)

private theorem mix_shiftLeft_injective (hk : 0 < k) : Function.Injective fun x : BitVec w => x ^^^ x <<< k :=
  mix_injective (fun x y => BitVec.shiftLeft_xor_distrib x y k) fun _ => eq_zero_of_shiftLeft_eq_self hk

private theorem mix_shiftRight_injective (hk : 0 < k) : Function.Injective fun x : BitVec w => x ^^^ x >>> k :=
  mix_injective (fun x y => BitVec.ushiftRight_xor_distrib x y k) fun _ => eq_zero_of_shiftRight_eq_self hk

end Mixing

private theorem step_injective : Function.Injective step := by
  intro x y h
  apply UInt64.toBitVec_inj.1
  apply mix_shiftLeft_injective (k := 13) (by decide)
  apply mix_shiftRight_injective (k := 7) (by decide)
  apply mix_shiftLeft_injective (k := 17) (by decide)
  exact congrArg UInt64.toBitVec h

private theorem step_zero : step 0 = 0 := by decide

private theorem step_ne_zero {x : UInt64} (h : x ≠ 0) : step x ≠ 0 :=
  fun hs => h (step_injective (hs.trans step_zero.symm))

private theorem nth_ne_zero {r : Random} (h : r.state ≠ 0) (n : Nat) : r.nth n ≠ 0 := by
  induction n generalizing r with
  | zero => exact step_ne_zero h
  | succ n ih => exact ih (r := r.next.2) (step_ne_zero h)

/-- Streams that agree in one place agree from the start. -/
theorem nth_inj {r s : Random} {n : Nat} : r.nth n = s.nth n ↔ r = s := by
  refine ⟨fun h => ?_, fun h => h ▸ rfl⟩
  have hnext {r s : Random} (h : step r.state = step s.state) : r = s := by
    cases r
    cases s
    exact congrArg mk (step_injective h)
  induction n generalizing r s with
  | zero => exact hnext h
  | succ n ih => exact hnext (congrArg state (ih h))

private theorem state_ofSeed_ne_zero (seed : UInt64) : (ofSeed seed).state ≠ 0 := by
  simp only [ofSeed]
  split
  · decide
  · assumption

private theorem ofSeed_inj {a b : UInt64} :
    ofSeed a = ofSeed b ↔
      a = b ∨ a = 0 ∧ b = 0x9E3779B97F4A7C15 ∨ a = 0x9E3779B97F4A7C15 ∧ b = 0 := by
  simp only [ofSeed, mk.injEq]
  by_cases ha : a = 0
  · by_cases hb : b = 0
    · simp [ha, hb]
    · simp [ha, hb, eq_comm]
  · by_cases hb : b = 0
    · simp [ha, hb]
    · simp [ha, hb]

/-- No number of a stream is zero, whatever the seed. Two streams have different numbers in every place
unless they begin in the same state, and that is so only for the same seed and for zero and the seed it
stands for. -/
theorem nth_ofSeed :
    (∀ count r, take count r = (List.range count).map r.nth) ∧
    (∀ seed n, (ofSeed seed).nth n ≠ 0) ∧
    ∀ a b, (ofSeed a = ofSeed b ↔
        a = b ∨ a = 0 ∧ b = 0x9E3779B97F4A7C15 ∨ a = 0x9E3779B97F4A7C15 ∧ b = 0) ∧
      ∀ n, (ofSeed a).nth n = (ofSeed b).nth n ↔ ofSeed a = ofSeed b := by
  refine ⟨take_eq_map_nth, fun seed n => ?_, fun a b => ⟨ofSeed_inj, fun n => nth_inj⟩⟩
  exact nth_ne_zero (state_ofSeed_ne_zero seed) n

end CommentStrip.Fixture.Random
