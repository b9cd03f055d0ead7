import CommentStrip.Log.Filter
import CommentStrip.Proofs.Clean
import CommentStrip.Proofs.Walk

/-! One directive of a filter: what is read from a text, written, and read again. -/
namespace CommentStrip

namespace Text

/-- The numbers of the blank characters. -/
def blankNumbers : List Nat :=
  [0x09, 0x0A, 0x0B, 0x0C, 0x0D, 0x20, 0x85, 0xA0, 0x1680, 0x2000, 0x2001, 0x2002, 0x2003, 0x2004, 0x2005, 0x2006,
   0x2007, 0x2008, 0x2009, 0x200A, 0x2028, 0x2029, 0x202F, 0x205F, 0x3000]

private theorem mem_blankNumbers {c : Char} (h : isBlank c = true) : c.toNat ∈ blankNumbers := by
  simp only [isBlank, Bool.or_eq_true, Bool.and_eq_true, decide_eq_true_eq, beq_iff_eq] at h
  simp only [blankNumbers, List.mem_cons, List.not_mem_nil, or_false]
  omega

/-- No letter and no digit is blank. -/
theorem not_isBlank_of_isAlphanumeric {c : Char} (h : isAlphanumeric c = true) : isBlank c = false := by
  by_contra hb
  have hnumbers : (blankNumbers.all fun n => !isAlphanumeric (Char.ofNat n)) = true := by decide +kernel
  have hc := List.all_eq_true.1 hnumbers c.toNat (mem_blankNumbers (by simpa using hb))
  rw [Char.ofNat_toNat, h] at hc
  cases hc

theorem trim_eq_self {cs : List Char} (hhead : ∀ c ∈ cs.head?, isBlank c = false)
    (hlast : ∀ c ∈ cs.getLast?, isBlank c = false) : trim cs = cs := by
  have hdrop : cs.dropWhile isBlank = cs := by
    cases cs with
    | nil => rfl
    | cons c cs => simp [hhead c rfl]
  rw [trim, hdrop]
  exact (trimEnd_eq_self_iff cs).2 hlast

end Text

namespace Log

private theorem Level.ofText?_name (l : Level) : Level.ofText? l.name.toList = some l := by
  cases l <;> decide

namespace Directive

/-- A directive may begin with a letter, a digit or one of three marks. -/
def mayBegin (c : Char) : Bool := Text.isAlphanumeric c || c == '-' || c == ':' || c == '_'

theorem not_isBlank_of_mayBegin {c : Char} (h : mayBegin c = true) : Text.isBlank c = false := by
  simp only [mayBegin, Bool.or_eq_true, beq_iff_eq] at h
  rcases h with ((h | rfl) | rfl) | rfl
  · exact Text.not_isBlank_of_isAlphanumeric h
  · decide
  · decide
  · decide

private theorem mayBegin_ne_equals {c : Char} (h : mayBegin c = true) : c ≠ '=' := by
  rintro rfl
  exact absurd h (by decide +kernel)

/-- The first character of a text is one with which a directive may begin. -/
def Begins (cs : List Char) : Prop := ∃ c rest, cs = c :: rest ∧ mayBegin c = true

/-- A text that can be the target of a directive between commas. -/
structure IsTarget (cs : List Char) : Prop where
  begins : Begins cs
  no_equals : '=' ∉ cs
  no_comma : ',' ∉ cs

/-- The target, if there is one, can be written before an equals sign. -/
def Writable (d : Directive) : Prop := ∀ t, d.target = some t → IsTarget t.toList

/-- A text that is read as a directive begins as one, and a target it has is all that stands before its
first equals sign. -/
theorem ofText?_eq_some {cs : List Char} {d : Directive} (h : ofText? cs = some d) :
    Begins cs ∧ ∀ t, d.target = some t → t.toList = cs.takeWhile (· != '=') := by
  unfold ofText? at h
  split at h
  · cases h
  · rename_i c rest
    split at h
    · cases h
    · rename_i hbegin
      rw [Bool.not_eq_true, Bool.not_eq_false'] at hbegin
      refine ⟨⟨c, rest, rfl, hbegin⟩, ?_⟩
      intro t ht
      split at h
      · -- Without an equals sign the whole text is the target, if it is no level.
        rename_i hdrop
        have htake := List.takeWhile_append_dropWhile (p := (· != '=')) (l := c :: rest)
        rw [hdrop, List.append_nil] at htake
        split at h
        · cases h
          cases ht
        · cases h
          cases ht
          rw [String.toList_ofList, htake]
      · split at h
        · cases h
          cases ht
          rw [String.toList_ofList]
        · obtain ⟨l, -, rfl⟩ := Option.map_eq_some_iff.1 h
          cases ht
          rw [String.toList_ofList]

/-- A text that is no directive: it begins with another character, or there is no level after its first equals
sign although something is written there. -/
def Refused (cs : List Char) : Prop :=
  (∀ c ∈ cs.head?, mayBegin c = false) ∨
    ∃ front written, cs = front ++ '=' :: written ∧ '=' ∉ front ∧ written ≠ [] ∧ Level.ofText? written = none

private theorem dropWhile_before {front : List Char} (written : List Char) (h : '=' ∉ front) :
    (front ++ '=' :: written).dropWhile (· != '=') = '=' :: written := by
  have hfront : ∀ a ∈ front, (a != '=') = true := fun a ha => bne_iff_ne.2 fun heq => h (heq ▸ ha)
  rw [List.dropWhile_append_of_pos hfront]
  rfl

private theorem takeWhile_before {front : List Char} (written : List Char) (h : '=' ∉ front) :
    (front ++ '=' :: written).takeWhile (· != '=') = front := by
  have hsplit := List.takeWhile_append_dropWhile (p := (· != '=')) (l := front ++ '=' :: written)
  rw [dropWhile_before written h] at hsplit
  exact List.append_cancel_right hsplit

theorem refused_of_ofText? {cs : List Char} (h : ofText? cs = none) : Refused cs := by
  unfold ofText? at h
  split at h
  · left
    simp
  · rename_i c rest
    split at h
    · rename_i hbegin
      rw [Bool.not_eq_true'] at hbegin
      left
      rintro a ⟨⟩
      exact hbegin
    · split at h
      · split at h <;> cases h
      · rename_i e written hdrop
        have hwhole := List.takeWhile_append_dropWhile (p := (· != '=')) (l := c :: rest)
        have he : e = '=' := by
          have hhead := List.head?_dropWhile_not (· != '=') (c :: rest)
          simpa [hdrop] using hhead
        rw [hdrop, he] at hwhole
        split at h
        · cases h
        · rename_i hwritten
          refine Or.inr ⟨_, written, hwhole.symm, ?_, by simpa using hwritten, by simpa using h⟩
          intro hmem
          simpa using List.all_eq_true.1 List.all_takeWhile _ hmem

theorem ofText?_of_refused {cs : List Char} (h : Refused cs) : ofText? cs = none := by
  cases hd : ofText? cs with
  | none => rfl
  | some d =>
    obtain ⟨⟨c, rest, rfl, hbegin⟩, -⟩ := ofText?_eq_some hd
    rcases h with h | ⟨front, written, hcs, hfront, hne, hlevel⟩
    · rw [h c rfl] at hbegin
      cases hbegin
    · have hdrop := dropWhile_before written hfront
      rw [← hcs] at hdrop
      rw [ofText?] at hd
      simp only [hdrop] at hd
      split at hd
      · exact hd.symm
      · simp [hne, hlevel] at hd

instance : DecidablePred Refused := fun cs =>
  decidable_of_iff (ofText? cs = none) ⟨refused_of_ofText?, ofText?_of_refused⟩

private theorem isTarget_takeWhile {c : Char} {rest : List Char} (hbegin : mayBegin c = true) (hcomma : ',' ∉ c :: rest) :
    IsTarget ((c :: rest).takeWhile (· != '=')) where
  begins := ⟨c, rest.takeWhile (· != '='), by simp [mayBegin_ne_equals hbegin], hbegin⟩
  no_equals h := by simpa using List.all_eq_true.1 List.all_takeWhile _ h
  no_comma h := hcomma (List.takeWhile_subset _ h)

theorem writable_of_ofText? {cs : List Char} {d : Directive} (hcomma : ',' ∉ cs) (h : ofText? cs = some d) :
    d.Writable := by
  obtain ⟨⟨c, rest, rfl, hbegin⟩, htarget⟩ := ofText?_eq_some h
  intro t ht
  rw [htarget t ht]
  exact isTarget_takeWhile hbegin hcomma

/-- The written form, by its target and its level. -/
theorem toList_text (d : Directive) :
    d.text.toList = (d.target.elim [] fun t => t.toList ++ ['=']) ++ d.level.name.toList := by
  cases ht : d.target with
  | none => simp [text, ht]
  | some t => simp [text, ht]

private theorem name_begins (l : Level) : Begins l.name.toList := by
  cases l <;> exact ⟨_, _, rfl, by decide +kernel⟩

theorem text_begins {d : Directive} (h : d.Writable) : Begins d.text.toList := by
  rw [toList_text]
  cases ht : d.target with
  | none => exact name_begins d.level
  | some t =>
    obtain ⟨c, rest, hc, hbegin⟩ := (h t ht).begins
    exact ⟨c, rest ++ ['='] ++ d.level.name.toList, by simp [hc], hbegin⟩

theorem text_ends (d : Directive) : ∃ front c, d.text.toList = front ++ [c] ∧ Text.isBlank c = false := by
  have hname : ∃ front c, d.level.name.toList = front ++ [c] ∧ Text.isBlank c = false := by
    cases d.level
    · exact ⟨"of".toList, 'f', rfl, rfl⟩
    · exact ⟨"erro".toList, 'r', rfl, rfl⟩
    · exact ⟨"war".toList, 'n', rfl, rfl⟩
    · exact ⟨"inf".toList, 'o', rfl, rfl⟩
    · exact ⟨"debu".toList, 'g', rfl, rfl⟩
    · exact ⟨"trac".toList, 'e', rfl, rfl⟩
  obtain ⟨front, c, hc, hblank⟩ := hname
  exact ⟨_, c, by rw [toList_text, hc, List.append_assoc], hblank⟩

theorem comma_not_mem_text {d : Directive} (h : d.Writable) : ',' ∉ d.text.toList := by
  have hname : ',' ∉ d.level.name.toList := by
    cases d.level <;> decide
  rw [toList_text]
  cases ht : d.target with
  | none => simpa using hname
  | some t => simpa using ⟨(h t ht).no_comma, hname⟩

/-- What is written is read back, also where a target is spelled as a level is. -/
theorem ofText?_text {d : Directive} (h : d.Writable) : ofText? d.text.toList = some d := by
  obtain ⟨target, level⟩ := d
  obtain ⟨c, rest, hc, hbegin⟩ := text_begins h
  have hread : (!(Text.isAlphanumeric c || c == '-' || c == ':' || c == '_')) = false := by
    rw [Bool.not_eq_false']
    exact hbegin
  cases target with
  | none =>
    have hdrop : level.name.toList.dropWhile (· != '=') = [] := by
      cases level <;> decide
    simp only [toList_text, Option.elim_none, List.nil_append] at hc ⊢
    have hlevel := Level.ofText?_name level
    rw [hc] at hdrop hlevel ⊢
    rw [ofText?]
    simp only [hread, hdrop, hlevel]
    rfl
  | some t =>
    have htext : (text ⟨some t, level⟩).toList = t.toList ++ '=' :: level.name.toList := by
      simp [toList_text]
    have hdrop : (text ⟨some t, level⟩).toList.dropWhile (· != '=') = '=' :: level.name.toList := by
      rw [htext, dropWhile_before _ (h t rfl).no_equals]
    have htake : (text ⟨some t, level⟩).toList.takeWhile (· != '=') = t.toList := by
      rw [htext, takeWhile_before _ (h t rfl).no_equals]
    have hnonempty : level.name.toList.isEmpty = false := by
      cases level <;> rfl
    rw [hc] at hdrop htake ⊢
    rw [ofText?]
    simp only [hread, hdrop, htake, hnonempty, Level.ofText?_name, String.ofList_toList]
    rfl

end Directive

end Log

end CommentStrip
