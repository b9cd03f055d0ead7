import CommentStrip.Proofs.Clean

/-! What a line comment hides. The first block comment of a line is taken out before line comments are
looked for, so an opener behind the two slashes still counts. -/
namespace CommentStrip

open Reader

/-- A cut passes over a text in which the mark neither stands nor begins. -/
theorem Mark.cut?_append {m : Mark} {before : List Char} {c : Char} (h : ¬ m.toList <:+: before ++ [c])
    (rest : List Char) :
    m.cut? (before ++ c :: rest) = (m.cut? (c :: rest)).map fun cut => (before ++ cut.1, cut.2) := by
  induction before with
  | nil => simp
  | cons a before ih =>
    have htail : ¬ m.toList <:+: before ++ [c] := fun hi => h (List.infix_cons hi)
    obtain ⟨b, more, hb⟩ : ∃ b more, before ++ [c] = b :: more :=
      List.exists_cons_of_ne_nil (by simp)
    have hmark : ¬ (a = m.first ∧ b = m.second) := by
      rintro ⟨rfl, rfl⟩
      apply h
      rw [List.cons_append, hb]
      exact ⟨[], more, rfl⟩
    have hrest : before ++ c :: rest = b :: (more ++ rest) := by
      rw [← List.cons_append, ← hb, List.append_assoc, List.singleton_append]
    rw [List.cons_append, hrest, cut?, if_neg hmark, ← hrest, ih htail, Option.map_map]
    rfl

private theorem Text.trimEnd_concat {c : Char} (h : isBlank c = false) (text : List Char) :
    trimEnd (text ++ [c]) = text ++ [c] := by
  rw [trimEnd_eq_self_iff, List.getLast?_concat]
  rintro d ⟨⟩
  exact h

namespace Line

namespace Cursor

private theorem eq_of_reaches_of_length_le {c d : Cursor} (h : Reaches c d) (hl : c.rest.length ≤ d.rest.length) :
    c = d := by
  rcases h.cases_head with rfl | ⟨next, ⟨kept, hstep⟩, hnext⟩
  · rfl
  · have hlt := (length_lt_of_step hstep).2
    have hle := (Reaches.suffix hnext).length_le
    omega

theorem Reaches.keep {escaped : Bool} {s : ScanState} {ch : Char} {rest : List Char} {c : Cursor}
    (hs : s ≠ .inBlockComment) (hb : s = .code → Bare ch rest)
    (h : Reaches ⟨s.isInString && ch == escapeMark, s.after escaped ch, rest⟩ c) :
    Reaches ⟨escaped, s, ch :: rest⟩ c :=
  .head ⟨[ch], .keep hs hb⟩ h

/-- Up to a line comment that is met in code all is kept, whatever stands in its place: the slash there is
why the character before it can begin no mark. -/
theorem scan_append_of_reaches {escaped escaped' : Bool} {s : ScanState} {before tail : List Char}
    (hs : s ≠ .inBlockComment) (hn : ¬ openMark.toList <:+: before)
    (h : Reaches ⟨escaped, s, before ++ (lineMark.toList ++ tail)⟩ ⟨escaped', .code, lineMark.toList ++ tail⟩)
    (rest : List Char) :
    scan ⟨escaped, s, before ++ rest⟩ = (before ++ (Line.scan rest).1, (Line.scan rest).2) := by
  induction before generalizing escaped s with
  | nil =>
    obtain ⟨rfl, rfl, -⟩ := Cursor.mk.inj (eq_of_reaches_of_length_le h (Nat.le_refl _))
    exact scan_code _ false rest
  | cons ch before ih =>
    have hn' : ¬ openMark.toList <:+: before := fun hi => hn (List.infix_cons hi)
    rw [List.cons_append] at h ⊢
    rcases h.cases_head with he | ⟨next, ⟨kept, hstep⟩, hnext⟩
    · have hl := congrArg (fun c : Cursor => c.rest.length) he
      simp at hl
      omega
    · generalize hline : ch :: (before ++ (lineMark.toList ++ tail)) = line at hstep
      cases hstep with
      | @keep escaped s ch' line hs' hb =>
        obtain ⟨rfl, rfl⟩ := List.cons.inj hline
        have hb' (hc : s = .code) : Bare ch (before ++ rest) := by
          have hbare := hb hc
          cases before with
          | nil => exact bare_of_ne fun e => (bare_iff.1 hbare e '/' rfl).1 rfl
          | cons d before => rwa [bare_append _ (by simp)] at hbare ⊢
        rw [scan_of_step (.keep hs hb'), ih (ScanState.after_ne_comment hs _ _) hn' hnext]
        rfl
      | @enter escaped line =>
        -- an opener cannot begin here: it would stand before the line comment
        exfalso
        obtain ⟨rfl, hstar⟩ := List.cons.inj hline
        cases before with
        | nil => simp [lineMark, openMark, Mark.toList] at hstar
        | cons d before =>
          obtain ⟨rfl, -⟩ := List.cons.inj hstar
          exact hn ⟨[], before, rfl⟩
      | leave => exact absurd rfl hs
      | skip hc => exact absurd rfl hs

end Cursor

/-- The scan of a line comes in code to a line comment: `before` stands before it, with no block opener
anywhere, and `tail` after its two slashes. -/
structure HasLineComment (before tail : List Char) : Prop where
  reached : ∃ escaped, Cursor.Reaches ⟨false, .code, before ++ (lineMark.toList ++ tail)⟩
    ⟨escaped, .code, lineMark.toList ++ tail⟩
  no_opener : ¬ openMark.toList <:+: before

namespace HasLineComment

variable {before tail : List Char}

private theorem scan_append (h : HasLineComment before tail) (rest : List Char) :
    scan (before ++ rest) = (before ++ (scan rest).1, (scan rest).2) := by
  obtain ⟨escaped, hreached⟩ := h.reached
  exact Cursor.scan_append_of_reaches (by simp) h.no_opener hreached rest

/-- Two slashes end the line, whatever follows them. -/
theorem scan_slashes (h : HasLineComment before tail) (rest : List Char) :
    scan (before ++ '/' :: '/' :: rest) = (before, .code) := by
  rw [h.scan_append, show scan ('/' :: '/' :: rest) = ([], .code) from rfl, List.append_nil]

/-- The first block opener of the line is looked for from the second slash on. -/
theorem cut?_line (h : HasLineComment before tail) :
    openMark.cut? (before ++ (lineMark.toList ++ tail)) =
      (openMark.cut? ('/' :: tail)).map fun cut => (before ++ '/' :: cut.1, cut.2) := by
  have hslash : ¬ openMark.toList <:+: before ++ ['/'] := by
    intro hi
    rcases List.infix_concat_iff.1 hi with hs | hi
    · obtain ⟨front, hf⟩ := hs
      have hlast := congrArg List.getLast? hf
      simp [openMark, Mark.toList] at hlast
    · exact h.no_opener hi
  have hskip : openMark.cut? ('/' :: '/' :: tail) =
      (openMark.cut? ('/' :: tail)).map fun cut => ('/' :: cut.1, cut.2) := by
    rw [Mark.cut?, if_neg (by decide)]
  have hline := Mark.cut?_append hslash ('/' :: tail)
  rw [hskip, Option.map_map] at hline
  exact hline

/-- An opener further on takes nothing from what stands before the two slashes. -/
theorem dropFirstBlock_apart (h : HasLineComment before tail) (hstar : tail.head? ≠ some '*') :
    dropFirstBlock (before ++ (lineMark.toList ++ tail)) =
      (before ++ '/' :: '/' :: (dropFirstBlock tail).1, (dropFirstBlock tail).2) := by
  have hslash : openMark.cut? ('/' :: tail) = (openMark.cut? tail).map fun cut => ('/' :: cut.1, cut.2) := by
    cases tail with
    | nil => rfl
    | cons c tail =>
      have hmark : ¬ ('/' = openMark.first ∧ c = openMark.second) := fun hm => hstar (congrArg some hm.2)
      rw [Mark.cut?, if_neg hmark]
  have hline := h.cut?_line
  rw [hslash, Option.map_map] at hline
  cases ho : openMark.cut? tail with
  | none =>
    rw [ho] at hline
    rw [dropFirstBlock_of_no_opener ho, dropFirstBlock_of_no_opener hline]
    rfl
  | some cut =>
    rw [ho] at hline
    rw [dropFirstBlock, hline, dropFirstBlock, ho]
    cases hc : closeMark.cut? cut.2 with
    | none => simp [hc]
    | some inner => simp [hc]

/-- With a star right behind it the second slash opens a block comment. -/
theorem dropFirstBlock_star {body : List Char} (h : HasLineComment before ('*' :: body)) :
    dropFirstBlock (before ++ (lineMark.toList ++ '*' :: body)) =
      ((closeMark.cut? body).elim (before ++ ['/']) fun cut => before ++ '/' :: cut.2,
        if closeMark.cut? body = none then .comment else .code) := by
  have hcut : openMark.cut? ('/' :: '*' :: body) = some ([], body) := by
    rw [Mark.cut?, if_pos ⟨rfl, rfl⟩]
  have hline := h.cut?_line
  rw [hcut] at hline
  rw [dropFirstBlock, hline]
  cases hc : closeMark.cut? body with
  | none => simp [hc]
  | some cut => simp [hc]

end HasLineComment

/-- A block comment is left open just when the first opener has no closer behind it. -/
theorem dropFirstBlock_snd_eq_comment_iff (line : List Char) :
    (dropFirstBlock line).2 = .comment ↔
      ∃ cut, openMark.cut? line = some cut ∧ ¬ closeMark.toList <:+: cut.2 := by
  cases ho : openMark.cut? line with
  | none => simp [dropFirstBlock_of_no_opener ho]
  | some cut =>
    simp only [Option.some.injEq, exists_eq_left', ← Mark.cut?_eq_none_iff]
    cases hc : closeMark.cut? cut.2 with
    | none => simp [dropFirstBlock, ho, hc]
    | some inner => simp [dropFirstBlock, ho, hc]

/-- What is kept of a line with a line comment is what stands before it, unless a star comes right behind
the two slashes; and yet the first block opener behind them counts, and leaves its comment open if nothing
closes it. A star right behind them makes an opener of the second slash: the first slash is then code, and
so is all that follows the block comment. -/
theorem strip_line_comment {before tail : List Char} (h : HasLineComment before tail) :
    let line := before ++ (lineMark.toList ++ tail)
    (tail.head? ≠ some '*' → (strip .code line).1 = Text.trimEnd before ∧
      ((strip .code line).2 = .comment ↔
        ∃ cut, openMark.cut? tail = some cut ∧ ¬ closeMark.toList <:+: cut.2)) ∧
    ∀ body, tail = '*' :: body →
      (¬ closeMark.toList <:+: body → strip .code line = (before ++ ['/'], .comment)) ∧
      ∀ cut, closeMark.cut? body = some cut →
        strip .code line =
          (Text.trimEnd (before ++ (scan ('/' :: cut.2)).1), (scan ('/' :: cut.2)).2) := by
  intro line
  have hstrip : strip .code line = (Text.trimEnd (scan (dropFirstBlock line).1).1,
      (dropFirstBlock line).2.or (scan (dropFirstBlock line).1).2) := rfl
  constructor
  · intro hstar
    have hor (carry : Carry) : carry.or .code = carry := by cases carry <;> rfl
    rw [hstrip, h.dropFirstBlock_apart hstar, h.scan_slashes, hor]
    exact ⟨rfl, dropFirstBlock_snd_eq_comment_iff tail⟩
  · rintro body rfl
    rw [hstrip, h.dropFirstBlock_star]
    constructor
    · intro hopen
      rw [Mark.cut?_eq_none_iff.2 hopen]
      simp only [Option.elim_none, if_true, h.scan_append]
      exact Prod.ext (Text.trimEnd_concat (by decide) before) rfl
    · intro cut hcut
      rw [hcut]
      simp only [Option.elim_some, reduceCtorEq, if_false, h.scan_append]
      rfl

/-- A string that holds slashes, and then a comment with an opener in it. -/
theorem hasLineComment_after_string : HasLineComment ['\'', '/', '/', '\'', ' '] " a/*b".toList := by
  refine ⟨⟨false, ?_⟩, Mark.cut?_eq_none_iff.1 rfl⟩
  apply Cursor.Reaches.keep (by simp) fun _ => bare_of_ne (by decide)
  apply Cursor.Reaches.keep (by decide) fun h => by cases h
  apply Cursor.Reaches.keep (by decide) fun h => by cases h
  apply Cursor.Reaches.keep (by decide) fun h => by cases h
  apply Cursor.Reaches.keep (by decide) fun _ => bare_of_ne (by decide)
  exact .refl

private theorem hasLineComment_at_start (tail : List Char) : HasLineComment [] tail :=
  ⟨⟨false, .refl⟩, by simp [Mark.toList]⟩

/-- Slashes in a string are passed over, and those behind it hide the rest; but the block comment that is
opened there goes on. Behind `//*` and its closer the line goes on. -/
theorem strip_line_comment_after_string :
    (HasLineComment ['\'', '/', '/', '\'', ' '] " a/*b".toList ∧
      strip .code "'//' // a/*b".toList = ("'//'".toList, .comment)) ∧
    HasLineComment [] "*x*/y".toList ∧ strip .code "//*x*/y".toList = ("/y".toList, .code) := by
  refine ⟨⟨hasLineComment_after_string, ?_⟩, hasLineComment_at_start _, ?_⟩
  · obtain ⟨hkept, hcarry⟩ := (strip_line_comment hasLineComment_after_string).1 (by decide)
    exact Prod.ext hkept (hcarry.2 ⟨([' ', 'a'], ['b']), rfl, Mark.cut?_eq_none_iff.1 rfl⟩)
  · obtain ⟨-, hclosed⟩ := (strip_line_comment (hasLineComment_at_start "*x*/y".toList)).2 "x*/y".toList rfl
    exact hclosed (['x'], ['y']) rfl

/-- What is behind a line comment is not always hidden: a pattern in it opens a block comment, and a row of
stars leaves a slash as well. -/
theorem line_comment_opens_block :
    (HasLineComment [] " lib/*.dart".toList ∧
      strip .code "// lib/*.dart".toList ≠ (Text.trimEnd [], .code)) ∧
    (HasLineComment [] "**".toList ∧ (strip .code "//**".toList).1 ≠ Text.trimEnd []) := by
  exact ⟨⟨hasLineComment_at_start _, by decide⟩, hasLineComment_at_start _, by decide⟩

end Line

end CommentStrip
