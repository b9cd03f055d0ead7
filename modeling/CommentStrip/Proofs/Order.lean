import CommentStrip.Proofs.Walk
import Mathlib.Algebra.Ring.Nat

/-! The order of texts is the order of their bytes in UTF-8. -/
namespace CommentStrip.Text

/-- The first byte in which two texts differ decides, and a text comes before its continuations. -/
def BytesBefore (s t : String) : Prop :=
  List.Lex (fun a b : UInt8 => a.toNat < b.toNat) (bytes s) (bytes t)

theorem bytes_eq (s : String) : bytes s = s.toList.flatMap String.utf8EncodeChar := by
  conv_lhs => rw [bytes, ← String.ofList_toList (s := s), String.toUTF8_eq_toByteArray,
    String.toByteArray_ofList, List.utf8Encode, List.data_toByteArray]

/-- Two lists of bytes part at some place, where the first has the smaller byte. -/
def PartsBelow (xs ys : List UInt8) : Prop :=
  ∃ front x y xs' ys', xs = front ++ x :: xs' ∧ ys = front ++ y :: ys' ∧ x.toNat < y.toNat

theorem PartsBelow.head {x y : UInt8} (h : x.toNat < y.toNat) (xs ys : List UInt8) :
    PartsBelow (x :: xs) (y :: ys) :=
  ⟨[], x, y, xs, ys, rfl, rfl, h⟩

theorem PartsBelow.tail {xs ys : List UInt8} (h : PartsBelow xs ys) (x : UInt8) :
    PartsBelow (x :: xs) (x :: ys) := by
  obtain ⟨front, a, b, xs', ys', rfl, rfl, hlt⟩ := h
  exact ⟨x :: front, a, b, xs', ys', rfl, rfl, hlt⟩

private theorem PartsBelow.lex_append {xs ys : List UInt8} (h : PartsBelow xs ys) (us vs : List UInt8) :
    List.Lex (fun a b : UInt8 => a.toNat < b.toNat) (xs ++ us) (ys ++ vs) := by
  obtain ⟨front, x, y, xs', ys', rfl, rfl, hlt⟩ := h
  induction front with
  | nil => exact .rel hlt
  | cons a front ih => exact .cons ih

private theorem partsBelow_ofNat {x y : Nat} (hx : x < 256) (hy : y < 256) {xs ys : List UInt8}
    (h : x < y ∨ x = y ∧ PartsBelow xs ys) : PartsBelow (UInt8.ofNat x :: xs) (UInt8.ofNat y :: ys) := by
  rcases h with h | ⟨rfl, h⟩
  · refine .head ?_ xs ys
    rw [UInt8.toNat_ofNat', UInt8.toNat_ofNat', Nat.mod_eq_of_lt hx, Nat.mod_eq_of_lt hy]
    exact h
  · exact h.tail _

/-- The lowest digits of a number, to the base of sixty-four, as the bytes that end a character. -/
def digits : Nat → Nat → List UInt8
  | 0, _ => []
  | k + 1, v => UInt8.ofNat (v / 64 ^ k % 64 + 128) :: digits k v

private theorem partsBelow_digits {k v w : Nat} (h : v % 64 ^ k < w % 64 ^ k) :
    PartsBelow (digits k v) (digits k w) := by
  induction k with
  | zero => simp [Nat.mod_one] at h
  | succ k ih =>
    apply partsBelow_ofNat (by omega) (by omega)
    rw [Nat.pow_succ, Nat.mod_mul, Nat.mod_mul] at h
    rcases Nat.lt_trichotomy (v / 64 ^ k % 64) (w / 64 ^ k % 64) with hlt | heq | hgt
    · exact .inl (by omega)
    · rw [heq] at h
      exact .inr ⟨by omega, ih (by omega)⟩
    · exfalso
      have hle := Nat.mul_le_mul_left (64 ^ k) (Nat.succ_le_of_lt hgt)
      have hw : w % 64 ^ k < 64 ^ k := Nat.mod_lt w (Nat.pow_pos (by decide))
      rw [Nat.mul_succ] at hle
      omega

/-- How many bytes follow the first one of a character. -/
def tailSize (v : Nat) : Nat := if v ≤ 0x7f then 0 else if v ≤ 0x7ff then 1 else if v ≤ 0xffff then 2 else 3

/-- The first byte of a character, which tells how many follow. -/
def firstByte (v : Nat) : Nat :=
  if v ≤ 0x7f then v
  else if v ≤ 0x7ff then v / 64 % 32 + 192
  else if v ≤ 0xffff then v / 4096 % 16 + 224
  else v / 262144 % 8 + 240

theorem utf8EncodeChar_eq (c : Char) :
    String.utf8EncodeChar c = UInt8.ofNat (firstByte c.toNat) :: digits (tailSize c.toNat) c.toNat := by
  have hval : c.val.toNat = c.toNat := rfl
  simp only [String.utf8EncodeChar, hval, firstByte, tailSize]
  split_ifs <;> simp [digits]

theorem firstByte_lt (v : Nat) : firstByte v < 256 := by
  unfold firstByte
  split_ifs <;> omega

/-- A greater number has a greater first byte, or the same and then greater digits. -/
theorem firstByte_or_digits {v w : Nat} (h : v < w) (hw : w < 0x110000) :
    firstByte v < firstByte w ∨ firstByte v = firstByte w ∧ tailSize v = tailSize w ∧
      v % 64 ^ tailSize w < w % 64 ^ tailSize w := by
  unfold firstByte tailSize
  split_ifs <;> omega

private theorem partsBelow_utf8EncodeChar {a b : Char} (h : a.toNat < b.toNat) :
    PartsBelow (String.utf8EncodeChar a) (String.utf8EncodeChar b) := by
  have hb : b.toNat < 0x110000 := by
    have hvalid : b.toNat < 0xd800 ∨ 0xdfff < b.toNat ∧ b.toNat < 0x110000 := b.valid
    omega
  rw [utf8EncodeChar_eq, utf8EncodeChar_eq]
  apply partsBelow_ofNat (firstByte_lt _) (firstByte_lt _)
  rcases firstByte_or_digits h hb with hlt | ⟨hfirst, hsize, hdigits⟩
  · exact .inl hlt
  · rw [hsize]
    exact .inr ⟨hfirst, partsBelow_digits hdigits⟩

private theorem bytesBefore_of_isBefore {s t : String} (h : isBefore s t = true) : BytesBefore s t := by
  rw [isBefore_iff] at h
  rw [BytesBefore, bytes_eq, bytes_eq]
  generalize s.toList = cs at h ⊢
  generalize t.toList = ds at h ⊢
  induction h with
  | @nil d ds =>
    obtain ⟨x, xs, hx⟩ := List.exists_cons_of_ne_nil
      (List.ne_nil_of_length_pos (by rw [String.length_utf8EncodeChar]; exact d.utf8Size_pos))
    rw [List.flatMap_cons, hx]
    exact .nil
  | @cons c cs ds _ ih =>
    rw [List.flatMap_cons, List.flatMap_cons]
    induction String.utf8EncodeChar c with
    | nil => exact ih
    | cons x xs ih' => exact .cons ih'
  | @rel c cs d ds hcd =>
    rw [List.flatMap_cons, List.flatMap_cons]
    exact (partsBelow_utf8EncodeChar hcd).lex_append _ _

theorem isBefore_iff_bytesBefore {s t : String} : isBefore s t = true ↔ BytesBefore s t := by
  refine ⟨bytesBefore_of_isBefore, fun h => ?_⟩
  by_contra hst
  -- otherwise the texts are the same, or the other way round
  have hasymm {xs ys : List UInt8} := @List.lex_asymm UInt8 (fun a b => a.toNat < b.toNat)
    (fun hlt => Nat.lt_asymm hlt) xs ys
  cases hts : isBefore t s with
  | true => exact hasymm h (bytesBefore_of_isBefore hts)
  | false =>
    obtain rfl := eq_of_not_isBefore (by simpa using hst) hts
    exact hasymm h h

end CommentStrip.Text
