import CommentStrip.Proofs.Reading
import CommentStrip.Proofs.Scan

/-! What is left of a line: a part of it, in its order, that the reader takes as it stands. -/
namespace CommentStrip

namespace Text

theorem trimEnd_prefix (line : List Char) : trimEnd line <+: line := by
  induction line with
  | nil => exact List.nil_prefix
  | cons c line ih =>
    rw [trimEnd]
    split
    · split
      · exact List.nil_prefix
      · exact ⟨line, rfl⟩
    · exact List.cons_prefix_cons.2 ⟨rfl, ih⟩

private theorem trimEnd_trimEnd (line : List Char) : trimEnd (trimEnd line) = trimEnd line := by
  induction line with
  | nil => rfl
  | cons c line ih =>
    rw [trimEnd]
    split
    · split
      · rfl
      · next hc => simp [trimEnd, hc]
    · next hk =>
      rw [trimEnd, ih]
      split
      · next hn => exact absurd hn hk
      · rfl

end Text

namespace Reader

/-- Comments leave code behind. -/
def State.outside : State → State
  | .code => .code
  | .inString q escaped => .inString q escaped
  | .lineComment => .code
  | .blockComment => .code

private theorem outside_after {s : State} (hs : s.outside = s) (c : Char) :
    (s.after c).outside = s.after c := by
  cases s with
  | code => simp only [State.after]; split <;> rfl
  | inString q escaped => simp only [State.after]; split <;> rfl
  | lineComment => cases hs
  | blockComment => cases hs

private theorem readFrom_kept_cons {s : State} {c : Char} {rest : List Char} (hs : s.outside = s)
    (hb : s = .code → Bare c rest) :
    readFrom s (c :: rest) = (c :: (readFrom (s.after c) rest).1, (readFrom (s.after c) rest).2) := by
  cases s with
  | code => exact readFrom_code_cons (hb rfl)
  | inString q escaped => exact readFrom_string_cons q escaped c rest
  | lineComment => cases hs
  | blockComment => cases hs

/-- The reader only leaves out. -/
theorem readFrom_sublist (s : State) (text : List Char) : (readFrom s text).1.Sublist text := by
  fun_induction readFrom s text with
  | case1 text ih => exact (ih.cons _).cons _
  | case2 text ih => exact (ih.cons _).cons _
  | case3 c text hl ho kept final he ih => exact (he ▸ ih).cons_cons _
  | case4 q escaped c text kept final he ih => exact (he ▸ ih).cons_cons _
  | case5 text kept final he ih => exact (he ▸ ih).cons_cons _
  | case6 c text hc ih => exact ih.cons _
  | case7 text ih => exact (ih.cons _).cons _
  | case8 text kept final he ih => exact (he ▸ ih).cons_cons _
  | case9 c text hm hc ih => exact ih.cons _
  | case10 s => exact .slnil

/-- A text is kept whole just when no comment begins in it. -/
theorem readFrom_eq_self_cons {s : State} {c : Char} {rest : List Char} (hs : s.outside = s) :
    (readFrom s (c :: rest)).1 = c :: rest ↔
      (s = .code → Bare c rest) ∧ (readFrom (s.after c) rest).1 = rest := by
  by_cases hb : s = .code → Bare c rest
  · rw [readFrom_kept_cons hs hb, List.cons_inj_right]
    exact (and_iff_right hb).symm
  · obtain ⟨rfl, hn⟩ := Classical.not_imp.1 hb
    refine ⟨fun h => ?_, fun h => absurd h.1 hb⟩
    obtain ⟨rfl, t, rfl | rfl⟩ := eq_slash_of_not_bare hn
    · have hle := (readFrom_sublist .lineComment t).length_le
      have hl := congrArg List.length h
      rw [readFrom] at hl
      simp only [List.length_cons] at hl
      omega
    · have hle := (readFrom_sublist .blockComment t).length_le
      have hl := congrArg List.length h
      rw [readFrom] at hl
      simp only [List.length_cons] at hl
      omega

/-- Where a text that is kept whole has a block opener, that is in a string. -/
theorem inString_of_readFrom_eq_self {s : State} {before after : List Char} (hs : s.outside = s)
    (h : (readFrom s (before ++ openMark.toList ++ after)).1 = before ++ openMark.toList ++ after) :
    ∃ q escaped, (readFrom s before).2 = .inString q escaped := by
  induction before generalizing s with
  | nil =>
    cases s with
    | code =>
      obtain ⟨hb, -⟩ := (readFrom_eq_self_cons hs).1 h
      exact absurd ⟨after, rfl⟩ (hb rfl).2
    | inString q escaped => exact ⟨q, escaped, by rw [readFrom_nil]⟩
    | lineComment => cases hs
    | blockComment => cases hs
  | cons c before ih =>
    obtain ⟨hb, hr⟩ := (readFrom_eq_self_cons hs).1 h
    rw [readFrom_kept_cons hs fun e => bare_of_append (bare_of_append (hb e))]
    exact ih (outside_after hs c) hr

/-- Without an opener in it a line comes to be read in a block comment only if it began so, and what is
left of it is a piece from its front. -/
theorem readFrom_of_no_opener {s : State} {line : List Char} (hn : '\n' ∉ line)
    (hf : openMark.cut? line = none) (hs : s ≠ .blockComment) :
    (readFrom s line).1 <+: line ∧ (readFrom s line).2 ≠ .blockComment := by
  induction line generalizing s with
  | nil => simpa using hs
  | cons c line ih =>
    have hl : '\n' ∉ line := fun hm => hn (by simp [hm])
    have hf' : openMark.cut? line = none := by
      rw [Mark.cut?_eq_none_iff] at hf ⊢
      exact fun hi => hf (List.infix_cons hi)
    by_cases hc : s = .lineComment
    · rw [hc, readFrom_line_comment hn]
      simp
    · have ho : s.outside = s := by cases s <;> simp_all [State.outside]
      by_cases hb : s = .code → Bare c line
      · obtain ⟨hp, hr⟩ := ih hl hf' (after_ne_block_comment hs c)
        rw [readFrom_kept_cons ho hb]
        exact ⟨List.cons_prefix_cons.2 ⟨rfl, hp⟩, hr⟩
      · obtain ⟨rfl, hm⟩ := Classical.not_imp.1 hb
        obtain ⟨rfl, t, rfl | rfl⟩ := eq_slash_of_not_bare hm
        · rw [readFrom, readFrom_line_comment fun hm => hl (by simp [hm])]
          simp
        · cases hf

/-- Without quotes no string begins. -/
theorem not_inString_of_no_quotes {s : State} {text : List Char} (h : ∀ c ∈ text, c ∉ quotes)
    (hs : ∀ q escaped, s ≠ .inString q escaped) (q : Char) (escaped : Bool) :
    (readFrom s text).2 ≠ .inString q escaped := by
  fun_induction readFrom s text with
  | case10 s => exact hs q escaped
  | _ => simp_all [State.after]

end Reader

namespace Line

open Reader

theorem dropFirstBlock_of_no_opener {line : List Char} (h : openMark.cut? line = none) :
    dropFirstBlock line = (line, .code) := by
  rw [dropFirstBlock, h]

private theorem dropFirstBlock_sublist (line : List Char) : (dropFirstBlock line).1.Sublist line := by
  cases ho : openMark.cut? line with
  | none => rw [dropFirstBlock_of_no_opener ho]
  | some cut =>
    obtain ⟨before, body⟩ := cut
    have hl := (Mark.cut?_eq_some ho).1
    cases hc : closeMark.cut? body with
    | none =>
      simp only [dropFirstBlock, ho, hc]
      rw [hl, List.append_assoc]
      exact List.sublist_append_left ..
    | some cut =>
      obtain ⟨inner, after⟩ := cut
      simp only [dropFirstBlock, ho, hc]
      rw [hl, (Mark.cut?_eq_some hc).1, List.append_assoc]
      refine List.Sublist.append_left ?_ before
      exact (List.sublist_append_right _ after).trans (List.sublist_append_right ..)

private theorem length_dropFirstBlock_lt {line : List Char} (h : openMark.cut? line ≠ none) :
    (dropFirstBlock line).1.length < line.length := by
  obtain ⟨⟨before, body⟩, ho⟩ := Option.ne_none_iff_exists'.1 h
  have hl := congrArg List.length (Mark.cut?_eq_some ho).1
  simp only [List.length_append, Mark.toList, List.length_cons] at hl
  cases hc : closeMark.cut? body with
  | none =>
    simp only [dropFirstBlock, ho, hc]
    omega
  | some cut =>
    obtain ⟨inner, after⟩ := cut
    have hm := congrArg List.length (Mark.cut?_eq_some hc).1
    simp only [List.length_append] at hm
    simp only [dropFirstBlock, ho, hc, List.length_append]
    omega

private theorem not_mem_dropFirstBlock {line : List Char} (h : '\n' ∉ line) :
    '\n' ∉ (dropFirstBlock line).1 :=
  fun hm => h ((dropFirstBlock_sublist line).subset hm)

/-- The text that a line leaves is what the reader keeps of it without its first block, trimmed. -/
theorem stripCode_fst {line : List Char} (h : '\n' ∉ line) :
    (stripCode line).1 = Text.trimEnd (readFrom .code (dropFirstBlock line).1).1 := by
  have hs := scan_eq_readFrom (not_mem_dropFirstBlock h)
  simp only [stripCode, hs]

/-- A line is stripped as code from the end of the carried comment on, or it is all comment. -/
theorem strip_cases (carry : Carry) (line : List Char) :
    (∃ skipped code, line = skipped ++ code ∧ strip carry line = stripCode code) ∨
      strip carry line = ([], .comment) := by
  cases carry with
  | code => exact .inl ⟨[], line, rfl, rfl⟩
  | comment =>
    cases hc : closeMark.cut? line with
    | none => exact .inr (by rw [strip, hc])
    | some cut =>
      obtain ⟨inner, after⟩ := cut
      exact .inl ⟨inner ++ closeMark.toList, after, (Mark.cut?_eq_some hc).1, by rw [strip, hc]⟩

theorem strip_sublist (carry : Carry) {line : List Char} (h : '\n' ∉ line) :
    (strip carry line).1.Sublist line := by
  rcases strip_cases carry line with ⟨skipped, code, rfl, he⟩ | he
  · have hc : '\n' ∉ code := fun hm => h (by simp [hm])
    rw [he, stripCode_fst hc]
    have ht := (Text.trimEnd_prefix (readFrom .code (dropFirstBlock code).1).1).sublist
    have hr := readFrom_sublist .code (dropFirstBlock code).1
    have hd := dropFirstBlock_sublist code
    exact ((ht.trans hr).trans hd).trans (List.sublist_append_right ..)
  · rw [he]
    exact List.nil_sublist line

theorem length_strip_lt {line : List Char} (h : '\n' ∉ line) (ho : openMark.cut? line ≠ none) :
    (strip .code line).1.length < line.length := by
  rw [strip, stripCode_fst h]
  have ht := (Text.trimEnd_prefix (readFrom .code (dropFirstBlock line).1).1).length_le
  have hr := (readFrom_sublist .code (dropFirstBlock line).1).length_le
  have hd := length_dropFirstBlock_lt ho
  omega

/-- No comment is live in what a line leaves, and it has no blank tail. -/
theorem strip_settled (carry : Carry) (line : List Char) :
    scan (strip carry line).1 = ((strip carry line).1, .code) ∧
      Text.trimEnd (strip carry line).1 = (strip carry line).1 := by
  rcases strip_cases carry line with ⟨skipped, code, rfl, he⟩ | he
  · rw [he]
    refine ⟨?_, Text.trimEnd_trimEnd _⟩
    obtain ⟨tail, ht⟩ := Text.trimEnd_prefix (scan (dropFirstBlock code).1).1
    have hs := scan_scan (dropFirstBlock code).1
    rw [← ht] at hs
    exact scan_of_append hs
  · rw [he]
    exact ⟨rfl, rfl⟩

theorem strip_of_no_opener {line : List Char} (h : '\n' ∉ line) (ho : openMark.cut? line = none) :
    strip .code line = (Text.trimEnd (readFrom .code line).1, .code) := by
  have hc : (readFrom .code line).2.carry = .code := by
    have hb := (readFrom_of_no_opener h ho (by simp : State.code ≠ .blockComment)).2
    cases hs : (readFrom .code line).2 with
    | blockComment => exact absurd hs hb
    | _ => rfl
  rw [strip, stripCode, dropFirstBlock_of_no_opener ho]
  simp only [scan_eq_readFrom h, hc, Carry.or]

/-- Without an opener nothing is taken out of the middle of a line. -/
theorem strip_infix (carry : Carry) {line : List Char} (h : '\n' ∉ line)
    (ho : openMark.cut? line = none) : (strip carry line).1 <:+: line := by
  rcases strip_cases carry line with ⟨skipped, code, rfl, he⟩ | he
  · have hc : '\n' ∉ code := fun hm => h (by simp [hm])
    have hf : openMark.cut? code = none := by
      rw [Mark.cut?_eq_none_iff] at ho ⊢
      exact fun hi => ho (hi.trans (List.suffix_append ..).isInfix)
    rw [he, stripCode_fst hc, dropFirstBlock_of_no_opener hf]
    have hp := (readFrom_of_no_opener hc hf (by simp : State.code ≠ .blockComment)).1
    exact ((Text.trimEnd_prefix _).trans hp).isInfix.trans (List.suffix_append ..).isInfix
  · rw [he]
    exact List.nil_infix

end Line

end CommentStrip
