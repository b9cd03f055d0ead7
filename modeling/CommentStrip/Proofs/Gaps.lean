import CommentStrip.Proofs.Clean

/-! The gaps between lines. Collapsing is the replacement of every gap by two line feeds, and what it does
to a text is told line by line: which empty lines stay, and that nothing else changes. -/
namespace CommentStrip.Source

private theorem collapseFrom_of_head {text : List Char} (h : text.head? ≠ some '\n') (run : Nat) :
    collapseFrom run text = collapse text := by
  cases text with
  | nil => rfl
  | cons c text =>
    have hc : c ≠ '\n' := fun e => h (congrArg some e)
    rw [collapse, collapseFrom, if_neg hc, collapseFrom, if_neg hc]

/-- Of line feeds in a row as many are kept as there is room for. -/
theorem collapseFrom_line_feeds {run : Nat} (hr : run ≤ 2) (k : Nat) (rest : List Char) :
    collapseFrom run (List.replicate k '\n' ++ rest) =
      List.replicate (min k (2 - run)) '\n' ++ collapseFrom (min (run + k) 2) rest := by
  induction k generalizing run with
  | zero =>
    rw [Nat.add_zero, Nat.min_eq_left hr, Nat.zero_min]
    rfl
  | succ k ih =>
    rw [List.replicate_succ, List.cons_append, collapseFrom, if_pos rfl]
    by_cases h2 : run < 2
    · have hmin : min (k + 1) (2 - run) = min k (2 - (run + 1)) + 1 := by omega
      rw [if_pos h2, ih h2, hmin, List.replicate_succ, Nat.succ_add_eq_add_succ]
      rfl
    · obtain rfl : run = 2 := by omega
      rw [if_neg h2, ih (Nat.le_refl 2), Nat.sub_self, Nat.min_zero, Nat.min_zero]
      congr 2
      omega

private theorem collapse_line_feeds (k : Nat) :
    collapse (List.replicate k '\n') = List.replicate (min k 2) '\n' := by
  have h := collapseFrom_line_feeds (Nat.zero_le 2) k []
  rwa [List.append_nil, collapseFrom, List.append_nil, Nat.sub_zero] at h

/-- A line without line feeds is kept, and the line feeds before it are forgotten. -/
theorem collapseFrom_line {line : List Char} (hne : line ≠ []) (h : '\n' ∉ line) (run : Nat)
    (rest : List Char) : collapseFrom run (line ++ rest) = line ++ collapse rest := by
  induction line generalizing run with
  | nil => exact absurd rfl hne
  | cons c line ih =>
    obtain ⟨hc, hl⟩ := not_or.1 (List.mem_cons.not.1 h)
    rw [List.cons_append, collapseFrom, if_neg (Ne.symm hc)]
    cases line with
    | nil => rfl
    | cons d line =>
      rw [ih (List.cons_ne_nil d line) hl]
      rfl

/-- How a text is collapsed depends on what stands before it through a number alone. -/
theorem exists_collapseFrom_append (run : Nat) (text : List Char) :
    ∃ next, ∀ rest, collapseFrom run (text ++ rest) = collapseFrom run text ++ collapseFrom next rest := by
  induction text generalizing run with
  | nil => exact ⟨run, fun rest => rfl⟩
  | cons c text ih =>
    by_cases hc : c = '\n'
    · by_cases h2 : run < 2
      · obtain ⟨next, hnext⟩ := ih (run + 1)
        refine ⟨next, fun rest => ?_⟩
        simp only [List.cons_append, collapseFrom, hc, h2, if_true, hnext]
      · obtain ⟨next, hnext⟩ := ih run
        refine ⟨next, fun rest => ?_⟩
        simp only [List.cons_append, collapseFrom, hc, h2, if_true, if_false, hnext]
    · obtain ⟨next, hnext⟩ := ih 0
      refine ⟨next, fun rest => ?_⟩
      simp only [List.cons_append, collapseFrom, hc, if_false, hnext]

/-- Every gap gives way to two line feeds, from left to right. A gap begins as far left as it can: up to its
second line feed there is none. It takes all the line feeds that follow. -/
inductive Replaces : List Char → List Char → Prop where
  | done {text : List Char} (h : ¬ gap <:+: text) : Replaces text text
  | step {before rest result : List Char} {run : Nat} (hrun : 3 ≤ run)
      (leftmost : ¬ gap <:+: before ++ ['\n', '\n']) (greedy : rest.head? ≠ some '\n')
      (h : Replaces rest result) :
      Replaces (before ++ (List.replicate run '\n' ++ rest)) (before ++ '\n' :: '\n' :: result)

theorem Replaces.cons {c : Char} {text result : List Char} (hc : ¬ gap <+: c :: text)
    (h : Replaces text result) : Replaces (c :: text) (c :: result) := by
  cases h with
  | done h => exact .done fun hi => (List.infix_cons_iff.1 hi).elim hc h
  | @step before rest result run hrun leftmost greedy h =>
    have leftmost' : ¬ gap <:+: c :: (before ++ ['\n', '\n']) := by
      intro hi
      rcases List.infix_cons_iff.1 hi with hp | hi
      · obtain ⟨more, rfl⟩ := Nat.exists_eq_add_of_le' (Nat.le_of_succ_le hrun)
        have hfront : before ++ ['\n', '\n'] <+: before ++ (List.replicate (more + 2) '\n' ++ rest) :=
          ⟨List.replicate more '\n' ++ rest, by simp [List.replicate_succ]⟩
        exact hc (hp.trans (List.cons_prefix_cons.2 ⟨rfl, hfront⟩))
      · exact leftmost hi
    exact @Replaces.step (c :: before) rest result run hrun leftmost' greedy h

/-- A text begins with some line feeds, and then something else. -/
theorem exists_line_feeds (text : List Char) :
    ∃ k rest, text = List.replicate k '\n' ++ rest ∧ rest.head? ≠ some '\n' := by
  induction text with
  | nil => exact ⟨0, [], rfl, by simp⟩
  | cons c text ih =>
    by_cases hc : c = '\n'
    · obtain ⟨k, rest, rfl, hrest⟩ := ih
      exact ⟨k + 1, rest, by rw [hc, List.replicate_succ, List.cons_append], hrest⟩
    · exact ⟨0, c :: text, rfl, fun h => hc (Option.some.inj h)⟩

private theorem no_gap_at_front {k : Nat} (hk : k ≤ 2) {rest : List Char} (h : rest.head? ≠ some '\n') :
    ¬ gap <+: List.replicate k '\n' ++ rest := by
  rintro ⟨t, ht⟩
  apply h
  have hk' : (gap ++ t)[k]? = some '\n' := by
    obtain rfl | rfl | rfl : k = 0 ∨ k = 1 ∨ k = 2 := by omega
    all_goals rfl
  rwa [ht, List.getElem?_append_right (by simp), List.length_replicate, Nat.sub_self,
    ← List.head?_eq_getElem?] at hk'

private theorem Replaces.line_feeds {rest result : List Char} (hrest : rest.head? ≠ some '\n')
    (h : Replaces rest result) (k : Nat) : ∃ all, Replaces (List.replicate k '\n' ++ rest) all := by
  by_cases hk : 3 ≤ k
  · exact ⟨_, @Replaces.step [] rest result k hk (fun hi => by simpa [gap] using hi.length_le) hrest h⟩
  · obtain rfl | rfl | rfl : k = 0 ∨ k = 1 ∨ k = 2 := by omega
    · exact ⟨result, h⟩
    · exact ⟨_, h.cons (@no_gap_at_front 1 (by omega) rest hrest)⟩
    · have hone := h.cons (@no_gap_at_front 1 (by omega) rest hrest)
      exact ⟨_, hone.cons (@no_gap_at_front 2 (by omega) rest hrest)⟩

private theorem exists_replaces (text : List Char) : ∃ result, Replaces text result := by
  induction hn : text.length using Nat.strongRecOn generalizing text with
  | ind n ih =>
    obtain ⟨k, rest, rfl, hrest⟩ := exists_line_feeds text
    cases rest with
    | nil => exact Replaces.line_feeds hrest (.done (by simp [gap])) k
    | cons c rest =>
      obtain ⟨result, h⟩ := ih rest.length (by simp at hn; omega) rest rfl
      have hc : ¬ gap <+: c :: rest := @no_gap_at_front 0 (by omega) (c :: rest) hrest
      exact Replaces.line_feeds hrest (h.cons hc) k

private theorem collapse_of_replaces {text result : List Char} (h : Replaces text result) : collapse text = result := by
  induction h with
  | done h => exact (collapse_eq_self_iff _).2 h
  | @step before rest result run hrun leftmost greedy h ih =>
    obtain ⟨next, hnext⟩ := exists_collapseFrom_append 0 before
    have hwhole := (collapse_eq_self_iff _).2 leftmost
    have hbefore : collapse before = before := by
      apply (collapse_eq_self_iff before).2
      exact fun hi => leftmost (hi.trans (List.prefix_append ..).isInfix)
    -- both line feeds are kept, so none were counted before them
    have hzero : next = 0 := by
      rw [collapse, hnext, ← collapse, hbefore] at hwhole
      have hfeeds := List.append_cancel_left hwhole
      by_contra hne
      have hl := congrArg List.length hfeeds
      by_cases h2 : next < 2
      · obtain rfl : next = 1 := by omega
        exact absurd hl (by decide)
      · simp [collapseFrom, h2] at hl
    rw [collapse, hnext, hzero, ← collapse, hbefore, collapseFrom_line_feeds (Nat.zero_le 2),
      collapseFrom_of_head greedy, ih, Nat.sub_zero, Nat.min_eq_right (by omega)]
    rfl

private theorem replaces_iff {text result : List Char} : Replaces text result ↔ result = collapse text := by
  constructor
  · intro h
    exact (collapse_of_replaces h).symm
  · rintro rfl
    obtain ⟨result, h⟩ := exists_replaces text
    rwa [collapse_of_replaces h]

/-- A line with something on it, and the number of empty lines below it. -/
structure Row where
  text : List Char
  below : Nat
  nonempty : text ≠ []
  no_line_feed : '\n' ∉ text

/-- The lines of a text: empty ones above, then the rows. -/
structure Layout where
  above : Nat
  rows : List Row

def Row.lines (row : Row) : List (List Char) := row.text :: List.replicate row.below []

def Layout.lines (layout : Layout) : List (List Char) :=
  List.replicate layout.above [] ++ layout.rows.flatMap Row.lines

/-- The same row with `most` empty lines below it, or fewer if it had fewer. -/
def Row.atMost (most : Nat) (row : Row) : Row := { row with below := min row.below most }

/-- At most one empty line is left between two rows, and at most two after the last. -/
def closeUp : List Row → List Row
  | [] => []
  | [row] => [row.atMost 2]
  | row :: next :: rest => row.atMost 1 :: closeUp (next :: rest)

/-- Above the first row at most two empty lines are left. Where there is no row, at most three are. -/
def Layout.closedUp (layout : Layout) : Layout :=
  ⟨min layout.above (if layout.rows = [] then 3 else 2), closeUp layout.rows⟩

private theorem exists_layout {ls : List (List Char)} (h : ∀ line ∈ ls, '\n' ∉ line) :
    ∃ layout : Layout, layout.lines = ls := by
  induction ls with
  | nil => exact ⟨⟨0, []⟩, rfl⟩
  | cons line others ih =>
    obtain ⟨layout, rfl⟩ := ih fun l hm => h l (by simp [hm])
    by_cases hl : line = []
    · exact ⟨⟨layout.above + 1, layout.rows⟩, by rw [hl]; rfl⟩
    · have hline : '\n' ∉ line := h line (by simp)
      exact ⟨⟨0, ⟨line, layout.above, hl, hline⟩ :: layout.rows⟩, by simp [Layout.lines, Row.lines]⟩

theorem Layout.not_mem_of_mem_lines (layout : Layout) {line : List Char} (h : line ∈ layout.lines) :
    '\n' ∉ line := by
  simp only [Layout.lines, Row.lines, List.mem_append, List.mem_replicate, List.mem_flatMap,
    List.mem_cons] at h
  rcases h with ⟨-, rfl⟩ | ⟨row, -, rfl | ⟨-, rfl⟩⟩
  · simp
  · exact row.no_line_feed
  · simp

private theorem closeUp_ne_nil {rows : List Row} (h : rows ≠ []) : closeUp rows ≠ [] := by
  fun_cases closeUp rows <;> simp_all

private theorem flatMap_lines_ne_nil {rows : List Row} (h : rows ≠ []) : rows.flatMap Row.lines ≠ [] := by
  obtain ⟨row, rest, rfl⟩ := List.exists_cons_of_ne_nil h
  simp [Row.lines]

private theorem Layout.closedUp_ne_nil {layout : Layout} (h : layout.lines ≠ []) : layout.closedUp.lines ≠ [] := by
  by_cases hr : layout.rows = []
  · have ha : layout.above ≠ 0 := by
      intro ha
      simp [Layout.lines, hr, ha] at h
    simp [Layout.lines, Layout.closedUp, hr, ha, closeUp]
  · exact List.append_ne_nil_of_right_ne_nil _ (flatMap_lines_ne_nil (closeUp_ne_nil hr))

private theorem unlines_replicate_append {ls : List (List Char)} (h : ls ≠ []) (k : Nat) :
    unlines (List.replicate k [] ++ ls) = List.replicate k '\n' ++ unlines ls := by
  induction k with
  | zero => rfl
  | succ k ih =>
    rw [List.replicate_succ, List.cons_append, unlines_cons (by simp [h]), ih]
    rfl

private theorem unlines_replicate (k : Nat) : unlines (List.replicate k []) = List.replicate (k - 1) '\n' := by
  cases k with
  | zero => rfl
  | succ k =>
    rw [List.replicate_succ', unlines_replicate_append (by simp)]
    simp [unlines]

private theorem unlines_row (row : Row) : unlines row.lines = row.text ++ List.replicate row.below '\n' := by
  cases hb : row.below with
  | zero => simp [Row.lines, hb, unlines]
  | succ k =>
    rw [Row.lines, hb, unlines_cons (by simp), unlines_replicate]
    rfl

private theorem unlines_row_append (row : Row) {ls : List (List Char)} (h : ls ≠ []) :
    unlines (row.lines ++ ls) = row.text ++ (List.replicate (row.below + 1) '\n' ++ unlines ls) := by
  rw [Row.lines, List.cons_append, unlines_cons (by simp [h]), unlines_replicate_append h]
  rfl

private theorem collapseFrom_rows {rows : List Row} (run : Nat) :
    collapseFrom run (unlines (rows.flatMap Row.lines)) = unlines ((closeUp rows).flatMap Row.lines) := by
  induction rows generalizing run with
  | nil => rfl
  | cons row rows ih =>
    cases rows with
    | nil =>
      rw [closeUp, List.flatMap_singleton, List.flatMap_singleton, unlines_row, unlines_row,
        collapseFrom_line row.nonempty row.no_line_feed, collapse_line_feeds]
      rfl
    | cons next rest =>
      have hrest := flatMap_lines_ne_nil (List.cons_ne_nil next rest)
      have hclosed := flatMap_lines_ne_nil (closeUp_ne_nil (List.cons_ne_nil next rest))
      -- one line feed more than there are empty lines stands between two rows
      have hmin : min (row.below + 1) 2 = min row.below 1 + 1 := by omega
      have hleft := unlines_row_append row hrest
      have hright := unlines_row_append (row.atMost 1) hclosed
      rw [← List.flatMap_cons] at hleft hright
      rw [closeUp, hleft, hright, collapseFrom_line row.nonempty row.no_line_feed, collapse,
        collapseFrom_line_feeds (Nat.zero_le 2), ih, Nat.sub_zero, hmin]
      rfl

private theorem Layout.collapse_unlines (layout : Layout) :
    collapse (unlines layout.lines) = unlines layout.closedUp.lines := by
  by_cases hr : layout.rows = []
  · -- with no row below it the last empty line is ended by no line feed
    have hmin : min layout.above 3 - 1 = min (layout.above - 1) 2 := by omega
    simp [Layout.lines, Layout.closedUp, hr, closeUp, unlines_replicate, collapse_line_feeds, hmin]
  · rw [Layout.lines, Layout.lines, unlines_replicate_append (flatMap_lines_ne_nil hr), collapse,
      collapseFrom_line_feeds (Nat.zero_le 2), collapseFrom_rows]
    rw [Layout.closedUp, if_neg hr, unlines_replicate_append (flatMap_lines_ne_nil (closeUp_ne_nil hr))]

private theorem Layout.lines_collapse {layout : Layout} {text : List Char} (h : layout.lines = Source.lines text) :
    layout.closedUp.lines = Source.lines (collapse text) := by
  have hne : layout.closedUp.lines ≠ [] := Layout.closedUp_ne_nil (h ▸ lines_ne_nil text)
  rw [← unlines_lines text, ← h, layout.collapse_unlines,
    lines_unlines hne fun line hl => layout.closedUp.not_mem_of_mem_lines hl]

/-- Closing gaps keeps every row as it is. Of the empty lines between two rows it leaves one at most, of those
above the first row and below the last one two at most, and of a text with no row three. To do it again
changes nothing. The result is what the replacement of all gaps gives, and no other. The text itself is given
back just when it has no gap. -/
theorem closeGaps_closes_up (text : List Char) :
    (∃ layout : Layout, layout.lines = lines text ∧
      layout.closedUp.lines = lines (closeGaps text).text) ∧
    (closeGaps (closeGaps text).text).text = (closeGaps text).text ∧
    (∀ result, Replaces text result ↔ result = (closeGaps text).text) ∧
    ((closeGaps text).isBorrowed = true ↔ ¬ gap <:+: text) ∧
    ((closeGaps text).isBorrowed = true → closeGaps text = .borrowed text) := by
  obtain ⟨layout, hl⟩ := exists_layout fun line (hm : line ∈ lines text) => not_mem_of_mem_lines hm
  simp only [text_closeGaps]
  refine ⟨⟨layout, hl, Layout.lines_collapse hl⟩, collapseFrom_collapseFrom 0 text, fun _ => replaces_iff,
    isBorrowed_closeGaps_iff text, fun h => ?_⟩
  rw [isBorrowed_closeGaps_iff, ← hasGap_iff] at h
  rw [closeGaps, if_neg h]

example : closeGaps "\n\n\na\n\n\nb\n\n\n".toList = .owned "\n\na\n\nb\n\n".toList := by decide

end CommentStrip.Source
