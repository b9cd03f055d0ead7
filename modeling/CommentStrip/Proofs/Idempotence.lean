import CommentStrip.Proofs.Kept

/-! Stripping twice. A second pass changes nothing just when the first one left no block opener. -/
namespace CommentStrip

open Reader

namespace Source

private theorem collapseFrom_sublist (run : Nat) (text : List Char) : (collapseFrom run text).Sublist text := by
  induction text generalizing run with
  | nil => exact .slnil
  | cons c text ih =>
    rw [collapseFrom]
    split
    · split
      · exact (ih _).cons_cons c
      · exact (ih _).cons c
    · exact (ih 0).cons_cons c

/-- What was collapsed before is collapsed again as if it had not been, if no fewer line feeds stand before
it than were counted then. -/
theorem collapseFrom_collapseFrom_append {inner outer : Nat} (h : inner ≤ outer) (text rest : List Char) :
    collapseFrom outer (collapseFrom inner text ++ rest) = collapseFrom outer (text ++ rest) := by
  induction text generalizing inner outer with
  | nil => rfl
  | cons c text ih =>
    by_cases hc : c = '\n'
    · by_cases hi : inner < 2
      · by_cases ho : outer < 2
        · simp only [collapseFrom, hc, hi, ho, List.cons_append, if_true, ih (Nat.succ_le_succ h)]
        · have hle : inner + 1 ≤ outer := by omega
          simp only [collapseFrom, hc, hi, ho, List.cons_append, if_true, if_false, ih hle]
      · have ho : ¬ outer < 2 := by omega
        simp only [collapseFrom, hc, hi, ho, List.cons_append, if_true, if_false, ih h]
    · simp only [collapseFrom, hc, List.cons_append, if_false, ih (Nat.le_refl 0)]

theorem collapseFrom_collapseFrom (run : Nat) (text : List Char) :
    collapseFrom run (collapseFrom run text) = collapseFrom run text := by
  have h := collapseFrom_collapseFrom_append (Nat.le_refl run) text []
  rwa [List.append_nil, List.append_nil] at h

/-- Three line feeds together. -/
def gap : List Char := ['\n', '\n', '\n']

/-- Copying with `run` line feeds before the text changes nothing just when there is no gap, those line
feeds counted. -/
theorem collapseFrom_eq_self_iff {run : Nat} (hr : run ≤ 2) (text : List Char) :
    collapseFrom run text = text ↔ ¬ gap <:+: List.replicate run '\n' ++ text := by
  induction text generalizing run with
  | nil =>
    refine iff_of_true rfl fun h => ?_
    have hl := h.length_le
    simp [gap] at hl
    omega
  | cons c text ih =>
    by_cases hc : c = '\n'
    · subst hc
      by_cases h2 : run < 2
      · have hrep : List.replicate run '\n' ++ '\n' :: text = List.replicate (run + 1) '\n' ++ text := by
          rw [List.replicate_succ', List.append_assoc, List.singleton_append]
        rw [hrep, ← ih h2, collapseFrom, if_pos rfl, if_pos h2, List.cons_inj_right]
      · obtain rfl : run = 2 := by omega
        rw [collapseFrom, if_pos rfl, if_neg h2]
        refine iff_of_false (fun h => ?_) fun h => h ⟨[], text, rfl⟩
        have hl := (collapseFrom_sublist 2 text).length_le
        rw [h, List.length_cons] at hl
        omega
    · have hgap : gap <:+: List.replicate run '\n' ++ c :: text ↔ gap <:+: text := by
        have hc' : '\n' ≠ c := Ne.symm hc
        obtain rfl | rfl | rfl : run = 0 ∨ run = 1 ∨ run = 2 := by omega
        all_goals simp [gap, List.replicate_succ, List.infix_cons_iff, hc']
      rw [hgap, collapseFrom, if_neg hc, List.cons_inj_right]
      exact ih (Nat.zero_le 2)

theorem collapse_eq_self_iff (text : List Char) : collapse text = text ↔ ¬ gap <:+: text :=
  collapseFrom_eq_self_iff (Nat.zero_le 2) text

theorem hasGap_iff (text : List Char) : hasGap text = true ↔ gap <:+: text := by
  fun_induction hasGap text with
  | case1 rest => exact iff_of_true rfl ⟨[], rest, rfl⟩
  | case2 c rest hc ih =>
    have hp : ¬ gap <+: c :: rest := by
      rintro ⟨t, ht⟩
      obtain ⟨rfl, rfl⟩ := List.cons.inj ht
      exact hc t rfl rfl
    rw [ih, List.infix_cons_iff]
    exact (or_iff_right hp).symm
  | case3 => simp [gap]

theorem text_closeGaps (text : List Char) : (closeGaps text).text = collapse text := by
  rw [closeGaps]
  split
  · rfl
  · next h => exact ((collapse_eq_self_iff text).2 ((hasGap_iff text).not.1 h)).symm

theorem isBorrowed_closeGaps_iff (text : List Char) :
    (closeGaps text).isBorrowed = true ↔ ¬ gap <:+: text := by
  rw [← hasGap_iff, closeGaps]
  split
  · next h => exact iff_of_false (by simp [Loan.isBorrowed]) (by simp [h])
  · next h => exact iff_of_true rfl h

theorem strip_eq (text : List Char) : strip text = collapse (unlines (stripLines text)) :=
  text_closeGaps _

/-- Only empty lines are dropped. The line that follows a character on its own line is not: its first
line feed is always kept, so the two statements go together. -/
theorem lines_collapseFrom (text : List Char) :
    (∀ run, (lines (collapseFrom run text)).Sublist (lines text)) ∧
      ∃ first kept others, lines text = first :: others ∧
        lines (collapseFrom 0 text) = first :: kept ∧ kept.Sublist others := by
  induction text with
  | nil => exact ⟨fun run => List.Sublist.refl _, [], [], [], rfl, rfl, .slnil⟩
  | cons c text ih =>
    obtain ⟨hall, first, kept, others, ht, hk, hs⟩ := ih
    by_cases hc : c = '\n'
    · subst hc
      refine ⟨fun run => ?_, [], _, _, rfl, rfl, hall 1⟩
      by_cases hr : run < 2
      · simp only [collapseFrom, hr, if_true, lines]
        exact (hall _).cons_cons []
      · simp only [collapseFrom, hr, if_true, if_false, lines]
        exact (hall _).cons []
    · have hl := lines_cons_of_ne hc ht
      have hk' := lines_cons_of_ne hc hk
      have hcol (run : Nat) : collapseFrom run (c :: text) = c :: collapseFrom 0 text := by
        rw [collapseFrom, if_neg hc]
      refine ⟨fun run => ?_, c :: first, kept, others, hl, by rw [hcol, hk'], hs⟩
      rw [hcol, hk', hl]
      exact hs.cons_cons _

theorem stripFrom_cons (carry : Carry) (line : List Char) (others : List (List Char)) :
    stripFrom carry (line :: others) =
      ((Line.strip carry line).1 :: (stripFrom (Line.strip carry line).2 others).1,
        (stripFrom (Line.strip carry line).2 others).2) := rfl

theorem stripFrom_ne_nil {carry : Carry} {ls : List (List Char)} (h : ls ≠ []) :
    (stripFrom carry ls).1 ≠ [] := by
  cases ls with
  | nil => exact absurd rfl h
  | cons line others => simp [stripFrom]

/-- Every line that is left is one line stripped. -/
theorem exists_of_mem_stripFrom {carry : Carry} {ls : List (List Char)} {out : List Char}
    (h : out ∈ (stripFrom carry ls).1) : ∃ c, ∃ line ∈ ls, out = (Line.strip c line).1 := by
  induction ls generalizing carry with
  | nil => simp [stripFrom] at h
  | cons line others ih =>
    rcases List.mem_cons.1 h with rfl | h
    · exact ⟨carry, line, by simp, rfl⟩
    · obtain ⟨c, l, hl, he⟩ := ih h
      exact ⟨c, l, by simp [hl], he⟩

theorem stripFrom_sublists (carry : Carry) {ls : List (List Char)} (h : ∀ line ∈ ls, '\n' ∉ line) :
    List.Forall₂ List.Sublist (stripFrom carry ls).1 ls := by
  induction ls generalizing carry with
  | nil => exact .nil
  | cons line others ih =>
    exact .cons (Line.strip_sublist carry (h line (by simp))) (ih _ fun l hm => h l (by simp [hm]))

private theorem unlines_sublist {as bs : List (List Char)} (h : List.Forall₂ List.Sublist as bs) :
    (unlines as).Sublist (unlines bs) := by
  induction h with
  | nil => exact .slnil
  | @cons a b as bs hab hrest ih =>
    cases hrest with
    | nil => exact hab
    | cons hab' hrest => exact hab.append (ih.cons_cons '\n')

private theorem not_mem_of_mem_stripFrom {carry : Carry} {ls : List (List Char)} {out : List Char}
    (h : ∀ line ∈ ls, '\n' ∉ line) (hm : out ∈ (stripFrom carry ls).1) : '\n' ∉ out := by
  obtain ⟨c, line, hl, rfl⟩ := exists_of_mem_stripFrom hm
  exact fun hn => h line hl ((Line.strip_sublist c (h line hl)).subset hn)

private theorem lines_unlines_stripLines (text : List Char) :
    lines (unlines (stripLines text)) = stripLines text :=
  lines_unlines (stripFrom_ne_nil (lines_ne_nil text)) fun _ hm =>
    not_mem_of_mem_stripFrom (fun _ => not_mem_of_mem_lines) hm

private theorem unlines_stripLines_sublist (text : List Char) : (unlines (stripLines text)).Sublist text := by
  have h := unlines_sublist (stripFrom_sublists .code fun l (hm : l ∈ lines text) => not_mem_of_mem_lines hm)
  rwa [unlines_lines] at h

theorem strip_sublist (text : List Char) : (strip text).Sublist text := by
  rw [strip_eq]
  exact (collapseFrom_sublist 0 _).trans (unlines_stripLines_sublist text)

theorem mem_lines_of_mem_strip {text line : List Char} (h : line ∈ lines (strip text)) :
    line ∈ stripLines text := by
  rw [strip_eq] at h
  have hm := ((lines_collapseFrom _).1 0).subset h
  rwa [lines_unlines_stripLines] at hm

theorem exists_of_mem_lines_strip {text out : List Char} (h : out ∈ lines (strip text)) :
    ∃ carry, ∃ line ∈ lines text, out = (Line.strip carry line).1 := by
  exact exists_of_mem_stripFrom (mem_lines_of_mem_strip h)

/-- A text that stripping leaves alone has every line left alone: nothing is ever put back. -/
theorem stripLines_eq_of_strip_eq_self {text : List Char} (h : strip text = text) :
    stripLines text = lines text := by
  have hle : text.length ≤ (unlines (stripLines text)).length := by
    have hs := (collapseFrom_sublist 0 (unlines (stripLines text))).length_le
    rw [← collapse, ← strip_eq] at hs
    exact Nat.le_trans (Nat.le_of_eq (congrArg List.length h).symm) hs
  rw [← lines_unlines_stripLines, (unlines_stripLines_sublist text).eq_of_length_le hle]

theorem no_opener_of_stripFrom_eq_self {ls : List (List Char)} (hn : ∀ line ∈ ls, '\n' ∉ line)
    (h : (stripFrom .code ls).1 = ls) : ∀ line ∈ ls, openMark.cut? line = none := by
  induction ls with
  | nil => simp
  | cons line others ih =>
    have hl : '\n' ∉ line := hn line (by simp)
    rw [stripFrom_cons] at h
    obtain ⟨hline, hrest⟩ := List.cons.inj h
    have ho : openMark.cut? line = none := by
      by_contra ho
      exact absurd (congrArg List.length hline) (Nat.ne_of_lt (Line.length_strip_lt hl ho))
    rw [Line.strip_of_no_opener hl ho] at hrest
    exact List.forall_mem_cons.2 ⟨ho, ih (fun l hm => hn l (by simp [hm])) hrest⟩

theorem stripFrom_eq_self {ls : List (List Char)}
    (h : ∀ line ∈ ls, openMark.cut? line = none ∧
      Line.scan line = (line, .code) ∧ Text.trimEnd line = line) :
    stripFrom .code ls = (ls, .code) := by
  induction ls with
  | nil => rfl
  | cons line others ih =>
    obtain ⟨ho, hs, ht⟩ := h line (by simp)
    have hline : Line.strip .code line = (line, .code) := by
      rw [Line.strip, Line.stripCode, Line.dropFirstBlock_of_no_opener ho]
      simp only [hs, ht, Carry.or]
    rw [stripFrom_cons, hline, ih fun l hm => h l (by simp [hm])]

/-- One pass leaves lines without blank tails and without live comments, and short gaps. So the next
pass has only openers to act on, which it finds in strings. -/
theorem strip_strip_eq_iff (text : List Char) :
    strip (strip text) = strip text ↔ ¬ openMark.toList <:+: strip text := by
  have hm : '\n' ∉ openMark.toList := by decide
  have hn (line) (hl : line ∈ lines (strip text)) : '\n' ∉ line := not_mem_of_mem_lines hl
  rw [infix_iff_exists_mem_lines hm]
  constructor
  · rintro h ⟨line, hl, hi⟩
    have hc := no_opener_of_stripFrom_eq_self hn (stripLines_eq_of_strip_eq_self h) line hl
    exact Mark.cut?_eq_none_iff.1 hc hi
  · intro h
    have hs : stripFrom .code (lines (strip text)) = (lines (strip text), .code) := by
      refine stripFrom_eq_self fun line hl => ⟨?_, ?_⟩
      · exact Mark.cut?_eq_none_iff.2 fun hi => h ⟨line, hl, hi⟩
      · obtain ⟨carry, before, -, rfl⟩ := exists_of_mem_lines_strip hl
        exact Line.strip_settled carry before
    have hc : collapse (strip text) = strip text := by
      rw [strip_eq]
      exact collapseFrom_collapseFrom 0 _
    rw [strip_eq (strip text), stripLines, hs, unlines_lines, hc]

/-- An opener that is left stands in a string. -/
theorem inString_of_mem_lines_strip {text before after : List Char}
    (h : before ++ openMark.toList ++ after ∈ lines (strip text)) :
    ∃ q escaped, (readFrom .code before).2 = .inString q escaped := by
  obtain ⟨carry, line, -, he⟩ := exists_of_mem_lines_strip h
  have hs := (Line.strip_settled carry line).1
  rw [← he, Line.scan_eq_readFrom (not_mem_of_mem_lines h)] at hs
  exact inString_of_readFrom_eq_self rfl (congrArg Prod.fst hs)

private theorem no_opener_strip {text : List Char} (h : ¬ openMark.toList <:+: text) :
    ¬ openMark.toList <:+: strip text := by
  have hm : '\n' ∉ openMark.toList := by decide
  rw [infix_iff_exists_mem_lines hm] at h ⊢
  rintro ⟨out, ho, hi⟩
  obtain ⟨carry, line, hl, rfl⟩ := exists_of_mem_lines_strip ho
  have hc : openMark.cut? line = none := Mark.cut?_eq_none_iff.2 fun hi => h ⟨line, hl, hi⟩
  exact h ⟨line, hl, hi.trans (Line.strip_infix carry (not_mem_of_mem_lines hl) hc)⟩

private theorem no_opener_strip_of_no_quotes {text : List Char} (h : ∀ c ∈ text, c ∉ quotes) :
    ¬ openMark.toList <:+: strip text := by
  have hm : '\n' ∉ openMark.toList := by decide
  rw [infix_iff_exists_mem_lines hm]
  rintro ⟨line, hl, before, after, rfl⟩
  obtain ⟨q, escaped, hs⟩ := inString_of_mem_lines_strip hl
  have hq (c) (hc : c ∈ before) : c ∉ quotes := by
    have hi := (infix_of_mem_lines hl).subset (List.mem_append_left _ (List.mem_append_left _ hc))
    exact h c ((strip_sublist text).subset hi)
  exact not_inString_of_no_quotes hq (by simp) q escaped hs

end Source

theorem stripComments_again_iff (text : String) :
    stripComments (stripComments text) = stripComments text ↔
      ¬ openMark.toList <:+: (stripComments text).toList := by
  simp only [stripComments, String.toList_ofList, String.ofList_inj]
  exact Source.strip_strip_eq_iff text.toList

/-- A second pass changes nothing just when the first leaves no block opener. So it changes nothing in a
text without quotes, nor in one without openers. An opener that the first leaves stands in a string;
there are texts where it leaves one. -/
theorem stripComments_stripComments_iff :
    (∀ text, stripComments (stripComments text) = stripComments text ↔
      ¬ openMark.toList <:+: (stripComments text).toList) ∧
    (∀ text : String, (∀ c ∈ text.toList, c ∉ quotes) ∨ ¬ openMark.toList <:+: text.toList →
      stripComments (stripComments text) = stripComments text) ∧
    (∀ text before after, before ++ openMark.toList ++ after ∈ Source.lines (stripComments text).toList →
      ∃ q escaped, (readFrom .code before).2 = .inString q escaped) ∧
    ∃ text, stripComments (stripComments text) ≠ stripComments text := by
  refine ⟨stripComments_again_iff, ?_, ?_, ?_⟩
  · rintro text (hq | ho)
    · rw [stripComments_again_iff, stripComments, String.toList_ofList]
      exact Source.no_opener_strip_of_no_quotes hq
    · rw [stripComments_again_iff, stripComments, String.toList_ofList]
      exact Source.no_opener_strip ho
  · intro text before after h
    rw [stripComments, String.toList_ofList] at h
    exact Source.inString_of_mem_lines_strip h
  · exact ⟨"'/*a*//*b*/'", by decide⟩

end CommentStrip
