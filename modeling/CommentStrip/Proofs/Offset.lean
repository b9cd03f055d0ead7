import CommentStrip.Line.Offset
import CommentStrip.Proofs.Order

/-! Texts as they lie in memory: in UTF-8, and addressed by byte offsets. A text can be cut between two
characters only. Marks are looked for byte by byte, which finds them at such places all the same. -/
namespace CommentStrip

namespace Text

/-- The bytes of a list of characters. -/
def encoded (cs : List Char) : List UInt8 := cs.flatMap String.utf8EncodeChar

@[simp] theorem encoded_nil : encoded [] = [] := rfl

@[simp] theorem encoded_cons (c : Char) (cs : List Char) :
    encoded (c :: cs) = String.utf8EncodeChar c ++ encoded cs := List.flatMap_cons

private theorem encoded_append (cs ds : List Char) : encoded (cs ++ ds) = encoded cs ++ encoded ds :=
  List.flatMap_append

private theorem bytes_ofList (cs : List Char) : bytes (String.ofList cs) = encoded cs := by
  rw [bytes_eq, String.toList_ofList, encoded]

private theorem length_encoded (cs : List Char) : (encoded cs).length = (String.ofList cs).utf8ByteSize := by
  rw [← bytes_ofList, bytes, Array.length_toList]
  rfl

/-- One byte stands for each of the first 128 characters. -/
theorem utf8EncodeChar_ascii {c : Char} (h : c.toNat < 128) :
    String.utf8EncodeChar c = [UInt8.ofNat c.toNat] := by
  have hle : c.toNat ≤ 0x7f := by omega
  simp [utf8EncodeChar_eq, firstByte, tailSize, digits, hle]

private theorem le_of_mem_digits {k v : Nat} {b : UInt8} (h : b ∈ digits k v) : 128 ≤ b.toNat := by
  induction k with
  | zero => cases h
  | succ k ih =>
    rcases List.mem_cons.1 h with rfl | h
    · rw [UInt8.toNat_ofNat', Nat.mod_eq_of_lt (by omega)]
      omega
    · exact ih h

/-- The bytes of every other character are none of theirs. -/
theorem le_of_mem_utf8EncodeChar {c : Char} (h : 128 ≤ c.toNat) {b : UInt8}
    (hb : b ∈ String.utf8EncodeChar c) : 128 ≤ b.toNat := by
  rw [utf8EncodeChar_eq] at hb
  rcases List.mem_cons.1 hb with rfl | hb
  · rw [UInt8.toNat_ofNat', Nat.mod_eq_of_lt (firstByte_lt _), firstByte]
    split_ifs <;> omega
  · exact le_of_mem_digits hb

/-- A byte below 128 is a character of its own. -/
theorem eq_of_mem_utf8EncodeChar {c d : Char} (hc : c.toNat < 128)
    (h : UInt8.ofNat c.toNat ∈ String.utf8EncodeChar d) : d = c := by
  have hsmall : (UInt8.ofNat c.toNat).toNat = c.toNat := by
    rw [UInt8.toNat_ofNat', Nat.mod_eq_of_lt (by omega)]
  by_cases hd : d.toNat < 128
  · rw [utf8EncodeChar_ascii hd, List.mem_singleton] at h
    have hn := congrArg UInt8.toNat h
    rw [hsmall, UInt8.toNat_ofNat', Nat.mod_eq_of_lt (by omega)] at hn
    exact Char.toNat_inj.1 hn.symm
  · have hle := le_of_mem_utf8EncodeChar (by omega) h
    omega

end Text

namespace Offset

open Text

private theorem upTo_append (a b : String) : upTo (a ++ b) a.utf8ByteSize = .ok a := by
  rw [upTo, dif_pos (isValid_append a b)]
  congr 1
  apply String.toByteArray_inj.1
  simp [ByteArray.extract_append_eq_left]

/-- A text can be cut just at its characters' ends. -/
theorem exists_cut_iff {text : String} {offset : Nat} :
    ((∃ part, upTo text offset = .ok part) ↔ String.Pos.Raw.IsValid text ⟨offset⟩) ∧
      ((∃ part, onward text offset = .ok part) ↔ String.Pos.Raw.IsValid text ⟨offset⟩) := by
  by_cases h : String.Pos.Raw.IsValid text ⟨offset⟩
  · simp [upTo, onward, h]
  · simp [upTo, onward, h]

/-- Both characters of the mark are single bytes. -/
def IsAscii (m : Mark) : Prop := m.first.toNat < 128 ∧ m.second.toNat < 128

private theorem cons_prefix_encoded {c : Char} (hc : c.toNat < 128) {pattern : List UInt8} {cs : List Char} :
    UInt8.ofNat c.toNat :: pattern <+: encoded cs ↔ ∃ ds, cs = c :: ds ∧ pattern <+: encoded ds := by
  constructor
  · intro h
    cases cs with
    | nil => simp at h
    | cons d ds =>
      have hmem : UInt8.ofNat c.toNat ∈ String.utf8EncodeChar d := by
        obtain ⟨x, xs, hx⟩ := List.exists_cons_of_ne_nil
          (List.ne_nil_of_length_pos (by rw [String.length_utf8EncodeChar]; exact d.utf8Size_pos))
        rw [encoded_cons, hx, List.cons_append, List.cons_prefix_cons] at h
        rw [hx, h.1]
        exact List.mem_cons_self
      obtain rfl := eq_of_mem_utf8EncodeChar hc hmem
      rw [encoded_cons, utf8EncodeChar_ascii hc, List.singleton_append, List.cons_prefix_cons] at h
      exact ⟨ds, rfl, h.2⟩
  · rintro ⟨ds, rfl, h⟩
    rw [encoded_cons, utf8EncodeChar_ascii hc, List.singleton_append, List.cons_prefix_cons]
    exact ⟨rfl, h⟩

private theorem search_append {b : UInt8} {pattern xs : List UInt8} (h : ∀ x ∈ xs, b ≠ x) (rest : List UInt8) :
    search (b :: pattern) (xs ++ rest) = (search (b :: pattern) rest).map (· + xs.length) := by
  induction xs with
  | nil => simp
  | cons x xs ih =>
    have hx : b ≠ x := h x List.mem_cons_self
    rw [List.cons_append, search, if_neg (by simp [hx]), ih fun y hy => h y (List.mem_cons_of_mem x hy),
      Option.map_map, List.length_cons]
    rfl

section Search

variable {m : Mark} (hm : IsAscii m)

include hm

private theorem markBytes_eq : markBytes m = [UInt8.ofNat m.first.toNat, UInt8.ofNat m.second.toNat] := by
  rw [markBytes, bytes_ofList]
  simp [Mark.toList, utf8EncodeChar_ascii hm.1, utf8EncodeChar_ascii hm.2]

private theorem markBytes_prefix_iff {cs : List Char} : markBytes m <+: encoded cs ↔ m.toList <+: cs := by
  rw [markBytes_eq hm, cons_prefix_encoded hm.1]
  simp only [cons_prefix_encoded hm.2]
  constructor
  · rintro ⟨_, rfl, ds, rfl, -⟩
    exact ⟨ds, rfl⟩
  · rintro ⟨ds, rfl⟩
    exact ⟨_, rfl, ds, rfl, List.nil_prefix⟩

theorem startsWith_iff {text : String} : startsWith m text = true ↔ m.toList <+: text.toList := by
  rw [startsWith, List.isPrefixOf_iff_prefix, ← markBytes_prefix_iff hm, bytes_eq, encoded]

/-- The search passes over the bytes of a character that does not begin the mark: either the first of them
is not the mark's, or it is the only one. -/
theorem search_encoded_cons {c : Char} {cs : List Char} (h : ¬ m.toList <+: c :: cs) :
    search (markBytes m) (encoded (c :: cs)) = (search (markBytes m) (encoded cs)).map (· + c.utf8Size) := by
  have hsize := String.length_utf8EncodeChar c
  rw [← markBytes_prefix_iff hm] at h
  by_cases hc : c.toNat < 128
  · rw [encoded_cons, utf8EncodeChar_ascii hc, List.singleton_append] at h ⊢
    rw [utf8EncodeChar_ascii hc, List.length_singleton] at hsize
    rw [search, if_neg (by rwa [List.isPrefixOf_iff_prefix]), ← hsize]
  · rw [encoded_cons, markBytes_eq hm, search_append, hsize]
    rintro x hx rfl
    have hle := le_of_mem_utf8EncodeChar (by omega) hx
    have hfirst := hm.1
    rw [UInt8.toNat_ofNat', Nat.mod_eq_of_lt (by omega)] at hle
    omega

/-- A mark is found at the end of the characters before it. -/
theorem find?_eq (text : String) :
    find? m text = (m.cut? text.toList).map fun cut => (String.ofList cut.1).utf8ByteSize := by
  rw [find?, bytes_eq]
  generalize text.toList = cs
  change search (markBytes m) (encoded cs) = _
  induction cs using Mark.cut?.induct m with
  | case1 a b rest hab =>
    obtain ⟨rfl, rfl⟩ := hab
    have hprefix : markBytes m <+: encoded (m.first :: m.second :: rest) :=
      (markBytes_prefix_iff hm).2 ⟨rest, rfl⟩
    rw [encoded_cons, utf8EncodeChar_ascii hm.1, List.singleton_append] at hprefix ⊢
    rw [search, if_pos (by rwa [List.isPrefixOf_iff_prefix]), Mark.cut?, if_pos ⟨rfl, rfl⟩]
    rfl
  | case2 a b rest hab ih =>
    have hmark : ¬ m.toList <+: a :: b :: rest := by simpa [Mark.toList, eq_comm] using hab
    rw [search_encoded_cons hm hmark, ih, Mark.cut?, if_neg hab, Option.map_map, Option.map_map]
    congr 1
    funext cut
    exact (utf8ByteSize_ofList_cons a cut.1).symm
  | case3 cs hx =>
    cases cs with
    | nil => rfl
    | cons a cs =>
      cases cs with
      | nil =>
        have hmark : ¬ m.toList <+: [a] := fun h => by simpa [Mark.toList] using h.length_le
        rw [search_encoded_cons hm hmark]
        rfl
      | cons b rest => exact absurd rfl (hx a b rest)

end Search

theorem utf8ByteSize_add (a b : List Char) :
    (String.ofList a).utf8ByteSize + (String.ofList b).utf8ByteSize = (String.ofList (a ++ b)).utf8ByteSize := by
  rw [String.ofList_append, String.utf8ByteSize_append]

theorem utf8ByteSize_add_markSize (cs : List Char) (m : Mark) :
    (String.ofList cs).utf8ByteSize + markSize m = (String.ofList (cs ++ m.toList)).utf8ByteSize := by
  rw [markSize_eq, utf8ByteSize_add]

theorem upTo_ofList (a b : List Char) :
    upTo (String.ofList (a ++ b)) (String.ofList a).utf8ByteSize = .ok (String.ofList a) := by
  rw [String.ofList_append, upTo_append]

theorem onward_ofList (a b : List Char) :
    onward (String.ofList (a ++ b)) (String.ofList a).utf8ByteSize = .ok (String.ofList b) := by
  rw [String.ofList_append, onward_append]

theorem onward_mark (m : Mark) (cs : List Char) :
    onward (String.ofList (m.toList ++ cs)) (markSize m) = .ok (String.ofList cs) := by
  rw [String.ofList_append, markSize_eq, onward_append]

theorem isAscii_lineMark : IsAscii lineMark := ⟨by decide, by decide⟩

theorem isAscii_openMark : IsAscii openMark := ⟨by decide, by decide⟩

theorem isAscii_closeMark : IsAscii closeMark := ⟨by decide, by decide⟩

/-- The last byte of a character is the escape mark just when the character is. -/
theorem getLast?_utf8EncodeChar (c : Char) :
    ∃ b, (String.utf8EncodeChar c).getLast? = some b ∧ (b = escapeMark.toUInt8 ↔ c = escapeMark) := by
  have hne : String.utf8EncodeChar c ≠ [] :=
    List.ne_nil_of_length_pos (by rw [String.length_utf8EncodeChar]; exact c.utf8Size_pos)
  have hbyte : escapeMark.toUInt8 = UInt8.ofNat escapeMark.toNat := rfl
  refine ⟨_, List.getLast?_eq_some_getLast hne, fun h => ?_, ?_⟩
  · have hmem := List.getLast_mem hne
    rw [h, hbyte] at hmem
    exact eq_of_mem_utf8EncodeChar (by decide) hmem
  · rintro rfl
    rfl

theorem followsEscape_append (front rest : String) :
    followsEscape (front ++ rest) front.utf8ByteSize =
      .ok (decide (front.toList.getLast? = some escapeMark)) := by
  obtain ⟨cs, rfl⟩ := front.exists_eq_ofList
  rw [String.toList_ofList]
  rcases List.eq_nil_or_concat cs with rfl | ⟨cs, c, hcs⟩
  · rfl
  · rw [List.concat_eq_append] at hcs
    subst hcs
    obtain ⟨b, hb, hescape⟩ := getLast?_utf8EncodeChar c
    have hlast : (encoded (cs ++ [c])).getLast? = some b := by
      rw [encoded_append, List.getLast?_append, encoded_cons, encoded_nil, List.append_nil, hb]
      rfl
    have hpos : 0 < (encoded (cs ++ [c])).length :=
      List.length_pos_iff.2 fun he => by rw [he] at hlast; cases hlast
    have hbytes : bytes (String.ofList (cs ++ [c]) ++ rest) = encoded (cs ++ [c]) ++ bytes rest := by
      rw [bytes_eq, bytes_eq, String.toList_append, String.toList_ofList, List.flatMap_append, encoded]
    rw [← length_encoded, followsEscape, if_neg (by omega), hbytes, List.getElem?_append_left (by omega),
      ← List.getLast?_eq_getElem?, hlast, List.getLast?_concat]
    simp [beq_eq_decide, hescape]

end Offset

end CommentStrip
