import CommentStrip.Proofs.Idempotence
import CommentStrip.Proofs.Process

/-! Text without comments. Stripping leaves nothing else, and leaves nothing else alone. -/
namespace CommentStrip

theorem Text.trimEnd_eq_self_iff (line : List Char) :
    trimEnd line = line ↔ ∀ c ∈ line.getLast?, isBlank c = false := by
  induction line with
  | nil => simp [trimEnd]
  | cons c line ih =>
    cases line with
    | nil => simp [trimEnd]
    | cons d line =>
      rw [List.getLast?_cons_cons, ← ih, trimEnd]
      split
      · next hn =>
        refine iff_of_false (fun h => ?_) (by simp [hn])
        split at h <;> simp at h
      · simp

namespace Line

/-- No comment is live on a line, and it has no blank tail. -/
structure Clean (line : List Char) : Prop where
  trimmed : ∀ c ∈ line.getLast?, Text.isBlank c = false
  kept : scan line = (line, .code)
  no_line_comment : ¬ Meets lineMark line
  no_block_comment : ¬ Meets openMark line

private theorem clean_of_scan_eq_self {line : List Char} (hs : scan line = (line, .code))
    (ht : Text.trimEnd line = line) : Clean line := by
  obtain ⟨hl, ho⟩ := (scan_eq_self_iff_not_meets line).1 hs
  exact ⟨(Text.trimEnd_eq_self_iff line).1 ht, hs, hl, ho⟩

private theorem strip_clean (carry : Carry) (line : List Char) : Clean (strip carry line).1 := by
  obtain ⟨hs, ht⟩ := strip_settled carry line
  exact clean_of_scan_eq_self hs ht

end Line

namespace Source

private theorem no_gap_collapse (text : List Char) : ¬ gap <:+: collapse text :=
  (collapse_eq_self_iff _).1 (collapseFrom_collapseFrom 0 text)

private theorem no_gap_strip (text : List Char) : ¬ gap <:+: strip text := by
  rw [strip_eq]
  exact no_gap_collapse _

/-- There is nothing in a text for stripping to take. -/
structure IsStripped (text : List Char) : Prop where
  no_opener : ¬ openMark.toList <:+: text
  no_line_comment : ∀ line ∈ lines text, ¬ Line.Meets lineMark line
  trimmed : ∀ line ∈ lines text, ∀ c ∈ line.getLast?, Text.isBlank c = false
  no_gap : ¬ gap <:+: text

private theorem lines_strip_clean {text line : List Char} (h : line ∈ lines (strip text)) : Line.Clean line := by
  obtain ⟨carry, before, -, rfl⟩ := exists_of_mem_lines_strip h
  exact Line.strip_clean carry before

private theorem strip_eq_self_iff (text : List Char) : strip text = text ↔ IsStripped text := by
  have hm : '\n' ∉ openMark.toList := by decide
  have hn (line) (hl : line ∈ lines text) : '\n' ∉ line := not_mem_of_mem_lines hl
  constructor
  · intro h
    have hclean (line) (hl : line ∈ lines text) : Line.Clean line := lines_strip_clean (h.symm ▸ hl)
    refine ⟨fun hi => ?_, fun line hl => (hclean line hl).no_line_comment,
      fun line hl => (hclean line hl).trimmed, h ▸ no_gap_strip text⟩
    obtain ⟨line, hl, hi⟩ := (infix_iff_exists_mem_lines hm).1 hi
    have hc := no_opener_of_stripFrom_eq_self hn (stripLines_eq_of_strip_eq_self h) line hl
    exact Mark.cut?_eq_none_iff.1 hc hi
  · intro h
    have hs : stripFrom .code (lines text) = (lines text, .code) := by
      -- an opener is looked for in strings too, so it must not be on the line at all
      refine stripFrom_eq_self fun line hl => ?_
      have ho : ¬ openMark.toList <:+: line :=
        fun hi => h.no_opener ((infix_iff_exists_mem_lines hm).2 ⟨line, hl, hi⟩)
      have hscan := (Line.scan_eq_self_iff_not_meets line).2
        ⟨h.no_line_comment line hl, fun hmeet => ho hmeet.infix⟩
      exact ⟨Mark.cut?_eq_none_iff.2 ho, hscan, (Text.trimEnd_eq_self_iff line).2 (h.trimmed line hl)⟩
    rw [strip_eq, stripLines, hs, unlines_lines]
    exact (collapse_eq_self_iff text).2 h.no_gap

end Source

/-- Every line that stripping gives is clean, whatever comes before it: it ends in no blank, and a scan
gives it back, meets no mark of a comment in code and leaves no comment open. So is every line of a
stripped text, in which moreover no three line feeds stand together. -/
theorem stripComments_clean :
    (∀ carry line, Line.Clean (Line.strip carry line).1) ∧
    ∀ text, (∀ line ∈ Source.lines (stripComments text).toList, Line.Clean line) ∧
      ¬ Source.gap <:+: (stripComments text).toList := by
  refine ⟨Line.strip_clean, fun text => ?_⟩
  rw [stripComments, String.toList_ofList]
  exact ⟨fun line => Source.lines_strip_clean, Source.no_gap_strip _⟩

/-- A comment within a string, slashes that come together when one is taken out, and a comment over
empty lines. -/
theorem stripComments_clean_string :
    let text := "'/*a*//*b*/'/*c*/ x//*d*//y \n/*\n\n*/\nz"
    "'/*b*/' x".toList ∈ Source.lines (stripComments text).toList ∧ Line.Clean "'/*b*/' x".toList ∧
      ¬ Source.gap <:+: (stripComments text).toList := by
  intro text
  obtain ⟨hlines, hgap⟩ := stripComments_clean.2 text
  have hm : "'/*b*/' x".toList ∈ Source.lines (stripComments text).toList := by decide
  exact ⟨hm, hlines _ hm, hgap⟩

private theorem stripComments_eq_self {text : String} :
    stripComments text = text ↔ Source.IsStripped text.toList := by
  rw [← Source.strip_eq_self_iff, ← String.toList_inj, stripComments, String.toList_ofList]

/-- Stripping leaves a text alone just when it has no block opener, no line on which a scan meets a line
comment in code, no blank tails and no gaps. So these are the contents of the files that are reported as
not changed. -/
theorem stripComments_eq_self_iff :
    (∀ text, stripComments text = text ↔ Source.IsStripped text.toList) ∧
    ∀ (d : Disk) path r, (d.process path).1 = .ok r →
      ∃ p f text, d.LeadsToText path p f text ∧ (r.changed = false ↔ Source.IsStripped text.toList) := by
  refine ⟨fun text => stripComments_eq_self, fun d path r h => ?_⟩
  obtain ⟨p, f, text, hl, -, rfl⟩ := Disk.process_ok_iff.1 h
  refine ⟨p, f, text, hl, ?_⟩
  rw [Processed.changed_ofTexts, stripComments_eq_self]

/-- A file with openers is reported as changed. -/
theorem Threefold.stripComments_eq_self_iff_opener :
    ∃ r, (disk.process "/lib/b.dart").1 = .ok r ∧ r.changed = true := by
  have hr := Disk.process_ok_iff.2 ⟨_, _, _, leadsToText, isOpen.refusal?_eq_none leadsToText (by decide), rfl⟩
  obtain ⟨p, f, text, hl, hiff⟩ := stripComments_eq_self_iff.2 disk _ _ hr
  obtain ⟨rfl, rfl, rfl⟩ := leadsToText.unique hl
  have hopener : openMark.toList <:+: "'/*x*//*y*/' // z".toList := ⟨['\''], "x*//*y*/' // z".toList, rfl⟩
  have hchanged := mt hiff.1 fun hs => hs.no_opener hopener
  exact ⟨_, hr, by simpa using hchanged⟩

end CommentStrip
