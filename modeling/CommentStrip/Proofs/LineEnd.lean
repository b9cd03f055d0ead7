import CommentStrip.Proofs.Gaps
import Mathlib.Data.List.Forall2

/-! The ends of lines. Blanks before a line feed change nothing. Where no comment is open a text may be cut
at a line feed, and its pieces stripped apart. -/
namespace CommentStrip

open Reader

namespace Text

/-- Nothing but blanks. -/
def Blanks (tail : List Char) : Prop := ∀ c ∈ tail, isBlank c = true

instance (tail : List Char) : Decidable (Blanks tail) :=
  List.decidableBAll (fun c => isBlank c = true) tail

private theorem blanks_nil : Blanks [] := by simp [Blanks]

private theorem Blanks.not_mem {tail : List Char} (h : Blanks tail) {c : Char} (hc : isBlank c = false) :
    c ∉ tail := by
  intro hm
  rw [h c hm] at hc
  cases hc

theorem Blanks.trimEnd {tail : List Char} (h : Blanks tail) : trimEnd tail = [] := by
  induction tail with
  | nil => rfl
  | cons c tail ih =>
    rw [Text.trimEnd, ih fun d hd => h d (by simp [hd])]
    exact if_pos (h c (by simp))

theorem trimEnd_append_blanks {tail : List Char} (h : Blanks tail) (text : List Char) :
    trimEnd (text ++ tail) = trimEnd text := by
  induction text with
  | nil => exact h.trimEnd
  | cons c text ih => rw [List.cons_append, trimEnd, ih, trimEnd]

end Text

open Text (Blanks)

theorem Mark.cut?_eq_none_of_not_mem {m : Mark} {text : List Char}
    (h : m.first ∉ text ∨ m.second ∉ text) : m.cut? text = none := by
  rw [cut?_eq_none_iff]
  intro hi
  rcases h with h | h
  · exact h (hi.subset (by simp [toList]))
  · exact h (hi.subset (by simp [toList]))

/-- A tail that cannot end the mark moves no cut and makes none. -/
theorem Mark.cut?_append_of_not_mem {m : Mark} {tail : List Char} (h : m.second ∉ tail)
    (text : List Char) :
    m.cut? (text ++ tail) = (m.cut? text).map fun cut => (cut.1, cut.2 ++ tail) := by
  induction text using Mark.cut?.induct m with
  | case1 a b rest hm => simp [cut?, hm]
  | case2 a b rest hm ih =>
    rw [List.cons_append, List.cons_append, cut?, if_neg hm, cut?, if_neg hm, ← List.cons_append, ih,
      Option.map_map, Option.map_map]
    rfl
  | case3 text hx =>
    have hcons (c : Char) : m.cut? (c :: tail) = none := by
      rw [cut?_eq_none_iff, List.infix_cons_iff]
      rintro (⟨more, hp⟩ | hi)
      · have htail : m.second :: more = tail := (List.cons.inj hp).2
        exact h (htail ▸ List.mem_cons_self)
      · exact h (hi.subset (by simp [toList]))
    cases text with
    | nil => exact cut?_eq_none_of_not_mem (.inr h)
    | cons a text =>
      cases text with
      | nil => exact hcons a
      | cons b rest => exact absurd rfl (hx a b rest)

private theorem Reader.bare_append_blanks {c : Char} {rest tail : List Char} (htail : Blanks tail) (h : Bare c rest) :
    Bare c (rest ++ tail) := by
  cases rest with
  | nil =>
    rw [bare_iff]
    intro _ d hd
    have hblank := htail d (List.mem_of_mem_head? hd)
    constructor
    · rintro rfl
      exact absurd hblank (by decide)
    · rintro rfl
      exact absurd hblank (by decide)
  | cons d rest => exact (bare_append tail (List.cons_ne_nil d rest)).2 h

namespace Line

namespace Cursor

variable {tail : List Char} (htail : Blanks tail)

include htail

/-- A step does not see blanks at the end of the line. -/
theorem Step.append_blanks {c d : Cursor} {kept : List Char} (h : Step c kept d) :
    Step ⟨c.escaped, c.state, c.rest ++ tail⟩ kept ⟨d.escaped, d.state, d.rest ++ tail⟩ := by
  cases h with
  | keep hs hb => exact .keep hs fun hc => bare_append_blanks htail (hb hc)
  | enter => exact .enter
  | leave => exact .leave
  | @skip escaped ch rest hc =>
    refine .skip fun hp => hc ?_
    cases rest with
    | nil =>
      obtain ⟨more, hmore⟩ := hp
      have hslash : '/' :: more = tail := (List.cons.inj hmore).2
      exact absurd (hslash ▸ List.mem_cons_self) (htail.not_mem (by decide))
    | cons d rest => simpa [closeMark, Mark.toList, List.cons_prefix_cons] using hp

private theorem scan_blanks (escaped : Bool) {s : ScanState} (hs : s ≠ .inBlockComment) :
    scan ⟨escaped, s, tail⟩ = (tail, .code) := by
  refine (@scan_eq_self_iff ⟨escaped, s, tail⟩ hs).2 fun d hd _ => ?_
  have hslash : '/' ∉ d.rest := fun hm => htail.not_mem (by decide) (hd.suffix.subset hm)
  exact ⟨fun hp => hslash (hp.subset List.mem_cons_self), fun hp => hslash (hp.subset List.mem_cons_self)⟩

private theorem scan_blanks_comment (escaped : Bool) : scan ⟨escaped, .inBlockComment, tail⟩ = ([], .comment) := by
  induction tail generalizing escaped with
  | nil => rfl
  | cons c tail ih =>
    have hclose : ¬ closeMark.toList <+: c :: tail := by
      intro hp
      have hstar : '*' ∈ c :: tail := hp.subset List.mem_cons_self
      exact absurd hstar (htail.not_mem (by decide))
    rw [scan_of_step (.skip hclose), ih fun d hd => htail d (by simp [hd])]
    rfl

/-- Blanks at the end of a line are kept at the end, or not at all. -/
theorem exists_scan_append_blanks (c : Cursor) :
    ∃ extra, Blanks extra ∧
      scan ⟨c.escaped, c.state, c.rest ++ tail⟩ = (c.scan.1 ++ extra, c.scan.2) := by
  induction c using induction with
  | stop c h =>
    rw [scan_of_stopped h]
    obtain ⟨escaped, s, rest⟩ := c
    rcases h with rfl | ⟨rfl, hl⟩
    · by_cases hs : s = .inBlockComment
      · subst hs
        exact ⟨[], Text.blanks_nil, scan_blanks_comment htail escaped⟩
      · rw [if_neg hs]
        exact ⟨tail, htail, scan_blanks htail escaped hs⟩
    · have hstop : Stopped ⟨escaped, .code, rest ++ tail⟩ := .inr ⟨rfl, hl.trans (List.prefix_append ..)⟩
      exact ⟨[], Text.blanks_nil, by rw [scan_of_stopped hstop]; rfl⟩
  | step c kept d h ih =>
    obtain ⟨extra, hextra, hd⟩ := ih
    refine ⟨extra, hextra, ?_⟩
    rw [scan_of_step (h.append_blanks htail), scan_of_step h, hd, List.append_assoc]

end Cursor

variable {tail : List Char} (htail : Blanks tail)

include htail

private theorem exists_dropFirstBlock_append_blanks (line : List Char) :
    ∃ extra, Blanks extra ∧
      dropFirstBlock (line ++ tail) = ((dropFirstBlock line).1 ++ extra, (dropFirstBlock line).2) := by
  have hopen : openMark.cut? (line ++ tail) = _ :=
    Mark.cut?_append_of_not_mem (htail.not_mem (by decide)) line
  cases ho : openMark.cut? line with
  | none =>
    rw [ho] at hopen
    rw [dropFirstBlock_of_no_opener ho, dropFirstBlock_of_no_opener hopen]
    exact ⟨tail, htail, rfl⟩
  | some cut =>
    have hclose : closeMark.cut? (cut.2 ++ tail) = _ :=
      Mark.cut?_append_of_not_mem (htail.not_mem (by decide)) cut.2
    rw [ho] at hopen
    rw [dropFirstBlock, hopen, dropFirstBlock, ho]
    cases hc : closeMark.cut? cut.2 with
    | none =>
      rw [hc] at hclose
      exact ⟨[], Text.blanks_nil, by simp [hc, hclose]⟩
    | some inner =>
      rw [hc] at hclose
      exact ⟨tail, htail, by simp [hc, hclose]⟩

private theorem stripCode_append_blanks (line : List Char) : stripCode (line ++ tail) = stripCode line := by
  obtain ⟨extra, hextra, hdrop⟩ := exists_dropFirstBlock_append_blanks htail line
  obtain ⟨more, hmore, hscan⟩ :=
    Cursor.exists_scan_append_blanks hextra ⟨false, .code, (dropFirstBlock line).1⟩
  have hkept : scan ((dropFirstBlock line).1 ++ extra) =
      ((scan (dropFirstBlock line).1).1 ++ more, (scan (dropFirstBlock line).1).2) := hscan
  simp only [stripCode, hdrop, hkept, Text.trimEnd_append_blanks hmore]

private theorem strip_append_blanks (carry : Carry) (line : List Char) :
    strip carry (line ++ tail) = strip carry line := by
  cases carry with
  | code => exact stripCode_append_blanks htail line
  | comment =>
    rw [strip, strip, Mark.cut?_append_of_not_mem (htail.not_mem (by decide))]
    cases hc : closeMark.cut? line with
    | none => rfl
    | some cut => exact stripCode_append_blanks htail cut.2

/-- The second line is the first with blanks put at its end. -/
def Pads (line longer : List Char) : Prop := ∃ tail, Blanks tail ∧ longer = line ++ tail

end Line

namespace Source

/-- Each line of `padded` is one of `text` with blanks put at its end. -/
def Padded (text padded : List Char) : Prop :=
  List.Forall₂ Line.Pads (lines text) (lines padded)

/-- The text with a carriage return before each line feed. -/
def withReturns (text : List Char) : List Char :=
  text.flatMap fun c => if c = '\n' then ['\r', '\n'] else [c]

private theorem padded_withReturns (text : List Char) : Padded text (withReturns text) := by
  induction text with
  | nil => exact .cons ⟨[], Text.blanks_nil, rfl⟩ .nil
  | cons c text ih =>
    by_cases hc : c = '\n'
    · subst hc
      exact .cons ⟨['\r'], by decide, rfl⟩ ih
    · obtain ⟨first, others, he⟩ := List.exists_cons_of_ne_nil (lines_ne_nil text)
      have hw : withReturns (c :: text) = c :: withReturns text := by
        simp [withReturns, hc]
      rw [Padded, he] at ih
      generalize hp : lines (withReturns text) = ps at ih
      cases ih with
      | cons hfirst hothers =>
        obtain ⟨tail, htail, rfl⟩ := hfirst
        rw [Padded, hw, lines_cons_of_ne hc he, lines_cons_of_ne hc hp]
        exact .cons ⟨tail, htail, rfl⟩ hothers

private theorem stripFrom_padded {ls padded : List (List Char)} (h : List.Forall₂ Line.Pads ls padded)
    (carry : Carry) : stripFrom carry padded = stripFrom carry ls := by
  induction h generalizing carry with
  | nil => rfl
  | cons hline _ ih =>
    obtain ⟨tail, htail, rfl⟩ := hline
    rw [stripFrom_cons, stripFrom_cons, Line.strip_append_blanks htail, ih]

private theorem strip_padded {text padded : List Char} (h : Padded text padded) : strip padded = strip text := by
  rw [strip, strip, stripLines, stripLines, stripFrom_padded h]

private theorem lines_append_lines (a b : List Char) : lines (a ++ '\n' :: b) = lines a ++ lines b := by
  induction a with
  | nil => rfl
  | cons c a ih =>
    by_cases hc : c = '\n'
    · simp only [List.cons_append, lines, hc, if_true, ih]
    · obtain ⟨first, others, he⟩ := List.exists_cons_of_ne_nil (lines_ne_nil a)
      rw [he] at ih
      rw [List.cons_append, lines_cons_of_ne hc ih, lines_cons_of_ne hc he]
      rfl

private theorem unlines_append {as bs : List (List Char)} (ha : as ≠ []) (hb : bs ≠ []) :
    unlines (as ++ bs) = unlines as ++ '\n' :: unlines bs := by
  induction as with
  | nil => exact absurd rfl ha
  | cons line as ih =>
    cases as with
    | nil => exact unlines_cons hb
    | cons next as =>
      rw [List.cons_append, unlines_cons (by simp), ih (List.cons_ne_nil next as),
        unlines_cons (List.cons_ne_nil next as), List.append_assoc]
      rfl

theorem stripFrom_append (carry : Carry) (as bs : List (List Char)) :
    stripFrom carry (as ++ bs) =
      ((stripFrom carry as).1 ++ (stripFrom (stripFrom carry as).2 bs).1,
        (stripFrom (stripFrom carry as).2 bs).2) := by
  induction as generalizing carry with
  | nil => rfl
  | cons line as ih =>
    rw [List.cons_append, stripFrom_cons, ih, stripFrom_cons]
    rfl

/-- To collapse two pieces apart and then together is to collapse them once, also where a gap goes from one
into the other. -/
theorem collapse_append (a b : List Char) :
    collapse (collapse a ++ '\n' :: collapse b) = collapse (a ++ '\n' :: b) := by
  obtain ⟨next, hnext⟩ := exists_collapseFrom_append 0 (a ++ ['\n'])
  have hb := collapseFrom_collapseFrom_append (Nat.zero_le next) b []
  rw [List.append_nil, List.append_nil] at hb
  calc
    collapse (collapse a ++ '\n' :: collapse b) = collapse (a ++ '\n' :: collapse b) :=
      collapseFrom_collapseFrom_append (Nat.le_refl 0) a _
    _ = collapse (a ++ ['\n'] ++ collapse b) := by rw [List.append_cons]
    _ = collapse (a ++ ['\n'] ++ b) := by rw [collapse, hnext, collapse, hb, collapse, hnext]
    _ = collapse (a ++ '\n' :: b) := by rw [← List.append_cons]

/-- The piece behind a line feed is stripped with what the one before it carries. -/
theorem strip_append (a b : List Char) :
    strip (a ++ '\n' :: b) = collapse (strip a ++
      '\n' :: collapse (unlines (stripFrom (stripFrom .code (lines a)).2 (lines b)).1)) := by
  have ha : stripLines a ≠ [] := stripFrom_ne_nil (lines_ne_nil a)
  have hb : (stripFrom (stripFrom .code (lines a)).2 (lines b)).1 ≠ [] := stripFrom_ne_nil (lines_ne_nil b)
  rw [strip_eq, stripLines, lines_append_lines, stripFrom_append, ← stripLines, unlines_append ha hb,
    strip_eq a, collapse_append]

end Source

/-- Blanks at the ends of lines, others on each line, change neither the lines that are left nor what is
carried after any of them, and so not the stripped text. A text and the same with carriage returns are
stripped to the same. -/
theorem stripComments_padded :
    (∀ text padded : String, Source.Padded text.toList padded.toList →
      Source.stripLines padded.toList = Source.stripLines text.toList ∧
      (∀ n, (Source.stripFrom .code ((Source.lines padded.toList).take n)).2 =
        (Source.stripFrom .code ((Source.lines text.toList).take n)).2) ∧
      stripComments padded = stripComments text) ∧
    ∀ text : String, stripComments (String.ofList (Source.withReturns text.toList)) = stripComments text := by
  refine ⟨fun text padded h => ⟨?_, fun n => ?_, ?_⟩, fun text => ?_⟩
  · rw [Source.stripLines, Source.stripLines, Source.stripFrom_padded h]
  · rw [Source.stripFrom_padded (List.forall₂_take n h)]
  · rw [stripComments, stripComments, Source.strip_padded h]
  · rw [stripComments, stripComments, String.toList_ofList,
      Source.strip_padded (Source.padded_withReturns text.toList)]

/-- Blanks behind an open string, behind an escape mark, within a comment that goes on, and behind the
slash that ends it. -/
theorem stripComments_padded_open :
    let text := "a = 'b\\\nc /*\n d */\ne"
    let padded := "a = 'b\\ \nc /*\t\u00a0\n d */\u3000\ne\r"
    Source.Padded text.toList padded.toList ∧ stripComments padded = "a = 'b\\\nc\n\ne" := by
  intro text padded
  have htext : Source.lines text.toList = ["a = 'b\\", "c /*", " d */", "e"].map String.toList := by decide
  have hpadded : Source.lines padded.toList =
      ["a = 'b\\ ", "c /*\t\u00a0", " d */\u3000", "e\r"].map String.toList := by decide
  have h : Source.Padded text.toList padded.toList := by
    rw [Source.Padded, htext, hpadded]
    apply List.Forall₂.cons ⟨[' '], by decide, by decide⟩
    apply List.Forall₂.cons ⟨['\t', '\u00a0'], by decide, by decide⟩
    apply List.Forall₂.cons ⟨['\u3000'], by decide, by decide⟩
    apply List.Forall₂.cons ⟨['\r'], by decide, by decide⟩
    exact .nil
  refine ⟨h, (stripComments_padded.1 text padded h).2.2.trans ?_⟩
  decide

/-- Where no comment is open a text may be cut at the end of a line and its pieces stripped apart. What is
left to do when they are put together is to shorten the gap at the seam. -/
theorem stripComments_append {a b : String}
    (h : (Source.stripFrom .code (Source.lines a.toList)).2 = .code) :
    stripComments (a ++ "\n" ++ b) =
      String.ofList (Source.closeGaps (stripComments a ++ "\n" ++ stripComments b).toList).text := by
  have htext : (a ++ "\n" ++ b).toList = a.toList ++ '\n' :: b.toList := by simp
  have hpieces : (stripComments a ++ "\n" ++ stripComments b).toList =
      Source.strip a.toList ++ '\n' :: Source.strip b.toList := by
    simp [stripComments]
  rw [hpieces, stripComments, htext, Source.strip_append, h, Source.text_closeGaps, Source.strip_eq b.toList]
  rfl

/-- An open string and a gap on both sides of the seam. -/
theorem stripComments_append_gap :
    let a := "x = 'y /* z */ // \n//\n"
    let b := "\n\n' // w"
    (Source.stripFrom .code (Source.lines a.toList)).2 = .code ∧
      stripComments (a ++ "\n" ++ b) = "x = 'y  //\n\n' // w" := by
  intro a b
  have h : (Source.stripFrom .code (Source.lines a.toList)).2 = .code := by decide
  refine ⟨h, (stripComments_append h).trans ?_⟩
  decide

end CommentStrip
