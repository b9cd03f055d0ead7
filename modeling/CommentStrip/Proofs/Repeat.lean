import CommentStrip.Proofs.Idempotence
import Mathlib.Data.List.Infix
import Mathlib.Dynamics.FixedPoints.Basic

/-! Stripping again and again. Each pass takes one block opener at least from every line that has one, so
there comes a pass that changes nothing. -/
namespace CommentStrip

open Reader

namespace Mark

variable (m : Mark)

/-- How many places of a text the mark stands at. -/
def count (text : List Char) : Nat := text.tails.countP m.toList.isPrefixOf

@[simp] theorem count_nil : m.count [] = 0 := by
  simp [count, toList]

private theorem count_cons (c : Char) (text : List Char) :
    m.count (c :: text) = m.count text + if m.toList <+: c :: text then 1 else 0 := by
  rw [count, List.tails_cons, List.countP_cons, count]
  simp only [List.isPrefixOf_iff_prefix]

private theorem count_le_cons (c : Char) (text : List Char) : m.count text ≤ m.count (c :: text) := by
  rw [count_cons]
  exact Nat.le_add_right ..

private theorem count_eq_zero_iff {text : List Char} : m.count text = 0 ↔ ¬ m.toList <:+: text := by
  induction text with
  | nil => simp [toList]
  | cons c text ih =>
    rw [count_cons, Nat.add_eq_zero_iff, ih, List.infix_cons_iff, not_or, and_comm]
    simp

/-- No place is lost when texts are put together. -/
theorem count_add_le (a b : List Char) : m.count a + m.count b ≤ m.count (a ++ b) := by
  induction a with
  | nil => simp
  | cons c a ih =>
    have hmono : m.toList <+: c :: a → m.toList <+: c :: (a ++ b) := fun h => h.trans (List.prefix_append ..)
    rw [List.cons_append, count_cons, count_cons]
    split_ifs with h h'
    · omega
    · exact absurd (hmono h) h'
    · omega
    · omega

private theorem count_le_of_infix {a b : List Char} (h : a <:+: b) : m.count a ≤ m.count b := by
  obtain ⟨before, after, rfl⟩ := h
  have hleft := m.count_add_le (before ++ a) after
  have hright := m.count_add_le before a
  omega

/-- Where two texts meet one place may be new. It is one that the second text has behind the first
character of the mark. -/
theorem count_append_le (a b : List Char) : m.count (a ++ b) ≤ m.count a + m.count (m.first :: b) := by
  induction a with
  | nil =>
    rw [count_nil, Nat.zero_add]
    exact m.count_le_cons m.first b
  | cons c a ih =>
    cases a with
    | nil =>
      have hfirst : m.toList <+: c :: b → m.toList <+: m.first :: b := by
        intro h
        obtain ⟨rfl, -⟩ := List.cons_prefix_cons.1 h
        exact h
      rw [List.singleton_append, count_cons, count_cons m m.first]
      split_ifs with h h'
      · omega
      · exact absurd (hfirst h) h'
      · omega
      · omega
    | cons d a =>
      have hsame : m.toList <+: c :: (d :: a ++ b) ↔ m.toList <+: c :: d :: a := by
        simp [toList, List.cons_prefix_cons]
      rw [List.cons_append, count_cons, count_cons m c]
      simp only [hsame]
      omega

end Mark

namespace Line

namespace Cursor

/-- Only a quote begins a string. -/
def QuotesStrings (c : Cursor) : Prop := ∀ q, c.state = .inString q → q ∈ quotes

private theorem Step.quotesStrings {c d : Cursor} {kept : List Char} (h : Step c kept d) (hc : c.QuotesStrings) :
    d.QuotesStrings := by
  intro q hq
  cases h with
  | @keep escaped s ch rest hs hb =>
    cases s with
    | code =>
      simp only [ScanState.after] at hq
      split at hq
      · next hm =>
        obtain rfl : ch = q := by simpa using hq
        exact hm
      · cases hq
    | inString q' =>
      simp only [ScanState.after] at hq
      split at hq
      · cases hq
      · exact hc q hq
    | inBlockComment => exact absurd rfl hs
  | enter => cases hq
  | leave => cases hq
  | skip => cases hq

/-- A slash that is kept is followed by the character that followed it before, so no opener is made. -/
theorem opener_of_step {c d : Cursor} {ch : Char} (h : Step c [ch] d) (hc : c.QuotesStrings)
    (ho : openMark.toList <+: ch :: d.scan.1) : openMark.toList <+: c.rest := by
  cases h with
  | @keep escaped s ch rest hs hb =>
    obtain ⟨rfl, hstar⟩ := List.cons_prefix_cons.1 ho
    -- what is kept next is the next character, in code and in a string
    have hhead : (scan ⟨s.isInString && openMark.first == escapeMark, s.after escaped openMark.first, rest⟩).1.head? =
        rest.head? := by
      cases s with
      | code => exact head?_scan_code fun d hd => (bare_iff.1 (hb rfl) rfl d hd).1
      | inString q =>
        have hq : openMark.first ≠ q := by
          rintro rfl
          exact absurd (hc _ rfl) (by decide)
        simp only [ScanState.after, hq, false_and, if_false]
        cases rest <;> rfl
      | inBlockComment => exact absurd rfl hs
    obtain ⟨more, hmore⟩ := hstar
    rw [← hmore] at hhead
    obtain ⟨rest, rfl⟩ := List.head?_eq_some_iff.1 hhead.symm
    exact ⟨rest, rfl⟩

private theorem count_scan_le {c : Cursor} (hc : c.QuotesStrings) :
    openMark.count c.scan.1 ≤ openMark.count c.rest := by
  induction c using induction with
  | stop c h => simp [scan_of_stopped h]
  | step c kept d h ih =>
    have hd := ih (h.quotesStrings hc)
    rw [scan_of_step h]
    cases h with
    | @keep escaped s ch rest hs hb =>
      have hopener := opener_of_step (.keep hs hb) hc
      rw [List.singleton_append, Mark.count_cons, Mark.count_cons]
      simp only at hd
      split_ifs with ho hr
      · omega
      · exact absurd (hopener ho) hr
      · omega
      · omega
    | enter => exact hd.trans (openMark.count_le_of_infix (List.suffix_append ..).isInfix)
    | leave => exact hd.trans (openMark.count_le_of_infix (List.suffix_append ..).isInfix)
    | skip => exact hd.trans (openMark.count_le_cons ..)

end Cursor

/-- Taking out the first block comment takes its opener. If the ends that come together make a new one, then
the star behind the closer's slash made one before. -/
theorem count_dropFirstBlock_lt {line : List Char} (h : openMark.cut? line ≠ none) :
    openMark.count (dropFirstBlock line).1 < openMark.count line := by
  obtain ⟨⟨before, body⟩, ho⟩ := Option.ne_none_iff_exists'.1 h
  obtain ⟨rfl, hn⟩ := Mark.cut?_eq_some ho
  have hbefore : openMark.count before = 0 := openMark.count_eq_zero_iff.2 (Mark.cut?_eq_none_iff.1 hn)
  have hopener (rest : List Char) : 0 < openMark.count (before ++ openMark.toList ++ rest) := by
    rw [Nat.pos_iff_ne_zero, Ne, openMark.count_eq_zero_iff, not_not]
    exact ⟨before, rest, rfl⟩
  cases hc : closeMark.cut? body with
  | none =>
    simp only [dropFirstBlock, ho, hc, hbefore]
    exact hopener body
  | some cut =>
    obtain ⟨inner, after⟩ := cut
    obtain ⟨rfl, -⟩ := Mark.cut?_eq_some hc
    simp only [dropFirstBlock, ho, hc]
    have hmeet := openMark.count_append_le before after
    have hsplit := openMark.count_add_le (before ++ openMark.toList ++ (inner ++ ['*'])) ('/' :: after)
    have hfirst := hopener (inner ++ ['*'])
    have hline : before ++ openMark.toList ++ (inner ++ ['*']) ++ '/' :: after =
        before ++ openMark.toList ++ (inner ++ closeMark.toList ++ after) := by
      simp [Mark.toList, closeMark]
    rw [hline] at hsplit
    calc
      openMark.count (before ++ after) ≤ openMark.count ('/' :: after) := by rwa [hbefore, Nat.zero_add] at hmeet
      _ < _ := by omega

private theorem count_stripCode_le (line : List Char) :
    openMark.count (stripCode line).1 ≤ openMark.count line - 1 := by
  have hkept : openMark.count (stripCode line).1 ≤ openMark.count (dropFirstBlock line).1 :=
    calc
      openMark.count (stripCode line).1 ≤ openMark.count (scan (dropFirstBlock line).1).1 :=
        openMark.count_le_of_infix (Text.trimEnd_prefix _).isInfix
      _ ≤ openMark.count (dropFirstBlock line).1 :=
        @Cursor.count_scan_le ⟨false, .code, (dropFirstBlock line).1⟩ fun q hq => by cases hq
  by_cases ho : openMark.cut? line = none
  · have hzero : openMark.count line = 0 := openMark.count_eq_zero_iff.2 (Mark.cut?_eq_none_iff.1 ho)
    simp only [dropFirstBlock_of_no_opener ho, hzero] at hkept
    omega
  · have hlt := count_dropFirstBlock_lt ho
    omega

private theorem count_strip_le (carry : Carry) (line : List Char) :
    openMark.count (strip carry line).1 ≤ openMark.count line - 1 := by
  rcases strip_cases carry line with ⟨skipped, code, rfl, he⟩ | he
  · have hcode := count_stripCode_le code
    have hline := openMark.count_add_le skipped code
    rw [he]
    omega
  · simp [he]

end Line

namespace Source

/-- The largest number of block openers on one line. -/
def mostOpeners (text : List Char) : Nat := ((lines text).map openMark.count).foldr max 0

private theorem mostOpeners_le_iff {text : List Char} {n : Nat} :
    mostOpeners text ≤ n ↔ ∀ line ∈ lines text, openMark.count line ≤ n := by
  rw [mostOpeners]
  induction lines text with
  | nil => simp
  | cons line others ih => rw [List.map_cons, List.foldr_cons, Nat.max_le, ih, List.forall_mem_cons]

private theorem mostOpeners_strip_le (text : List Char) : mostOpeners (strip text) ≤ mostOpeners text - 1 := by
  rw [mostOpeners_le_iff]
  intro out hm
  obtain ⟨carry, line, hl, rfl⟩ := exists_of_mem_lines_strip hm
  have hline := mostOpeners_le_iff.1 (Nat.le_refl (mostOpeners text)) line hl
  exact (Line.count_strip_le carry line).trans (Nat.sub_le_sub_right hline 1)

private theorem mostOpeners_iterate_strip_le (text : List Char) (k : Nat) :
    mostOpeners (strip^[k] text) ≤ mostOpeners text - k := by
  induction k with
  | zero => exact Nat.le_refl _
  | succ k ih =>
    rw [Function.iterate_succ_apply']
    have hstep := mostOpeners_strip_le (strip^[k] text)
    omega

private theorem no_opener_of_mostOpeners_eq_zero {text : List Char} (h : mostOpeners text = 0) :
    ¬ openMark.toList <:+: text := by
  rw [infix_iff_exists_mem_lines (by decide)]
  rintro ⟨line, hl, hi⟩
  have hline := mostOpeners_le_iff.1 (Nat.le_of_eq h) line hl
  exact openMark.count_eq_zero_iff.1 (Nat.le_zero.1 hline) hi

/-- After as many passes as the fullest line has openers none is left, and then nothing changes any more. -/
theorem isFixedPt_iterate_strip (text : List Char) :
    Function.IsFixedPt strip (strip^[mostOpeners (strip text)] (strip text)) := by
  have hle := mostOpeners_iterate_strip_le (strip text) (mostOpeners (strip text))
  rw [Nat.sub_self, Nat.le_zero] at hle
  have hnone := no_opener_of_mostOpeners_eq_zero hle
  rw [← Function.iterate_succ_apply, Function.iterate_succ_apply'] at hnone ⊢
  exact (strip_strip_eq_iff _).2 hnone

end Source

private theorem toList_stripComments (text : String) : (stripComments text).toList = Source.strip text.toList := by
  rw [stripComments, String.toList_ofList]

private theorem toList_iterate_stripComments (k : Nat) (text : String) :
    (stripComments^[k] text).toList = Source.strip^[k] text.toList := by
  induction k generalizing text with
  | zero => rfl
  | succ k ih =>
    rw [Function.iterate_succ_apply, Function.iterate_succ_apply, ih, toList_stripComments]

/-- What is left of a line has fewer block openers than the line, and none if the line has none. So with as
many more passes as there are openers on the fullest line of a stripped text, a text is reached that
stripping does not change. -/
theorem stripComments_converges :
    (∀ carry line, openMark.count (Line.strip carry line).1 ≤ openMark.count line - 1) ∧
    ∀ text, Function.IsFixedPt stripComments
      (stripComments^[Source.mostOpeners (stripComments text).toList] (stripComments text)) := by
  refine ⟨Line.count_strip_le, fun text => ?_⟩
  apply String.toList_inj.1
  rw [toList_stripComments, toList_iterate_stripComments, toList_stripComments]
  exact Source.isFixedPt_iterate_strip text.toList

end CommentStrip
