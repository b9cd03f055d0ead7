import CommentStrip.Source
import Mathlib.Data.List.Basic

/-! Splitting a text at its line feeds, and joining the lines again. -/
namespace CommentStrip.Source

theorem lines_ne_nil (text : List Char) : lines text ≠ [] := by
  fun_cases lines text <;> simp

theorem lines_cons_of_ne {c : Char} (h : c ≠ '\n') {text first : List Char} {others : List (List Char)}
    (he : lines text = first :: others) : lines (c :: text) = (c :: first) :: others := by
  rw [lines, if_neg h, he]

theorem lines_of_not_mem {line : List Char} (h : '\n' ∉ line) : lines line = [line] := by
  induction line with
  | nil => rfl
  | cons c line ih =>
    obtain ⟨hc, hl⟩ := not_or.1 (List.mem_cons.not.1 h)
    exact lines_cons_of_ne (Ne.symm hc) (ih hl)

theorem lines_append_line_feed {line : List Char} (h : '\n' ∉ line) (rest : List Char) :
    lines (line ++ '\n' :: rest) = line :: lines rest := by
  induction line with
  | nil => rfl
  | cons c line ih =>
    obtain ⟨hc, hl⟩ := not_or.1 (List.mem_cons.not.1 h)
    exact lines_cons_of_ne (Ne.symm hc) (ih hl)

/-- No line holds a line feed. -/
theorem not_mem_of_mem_lines {text line : List Char} (h : line ∈ lines text) : '\n' ∉ line := by
  induction text generalizing line with
  | nil =>
    obtain rfl : line = [] := by simpa [lines] using h
    simp
  | cons c text ih =>
    by_cases hc : c = '\n'
    · rw [lines, if_pos hc] at h
      rcases List.mem_cons.1 h with rfl | h
      · simp
      · exact ih h
    · obtain ⟨first, others, he⟩ := List.exists_cons_of_ne_nil (lines_ne_nil text)
      rw [lines_cons_of_ne hc he] at h
      rcases List.mem_cons.1 h with rfl | h
      · have hf : '\n' ∉ first := ih (by simp [he])
        simp [hf, Ne.symm hc]
      · exact ih (by simp [he, h])

theorem unlines_cons {line : List Char} {others : List (List Char)} (h : others ≠ []) :
    unlines (line :: others) = line ++ '\n' :: unlines others := by
  obtain ⟨first, rest, rfl⟩ := List.exists_cons_of_ne_nil h
  rfl

theorem unlines_lines (text : List Char) : unlines (lines text) = text := by
  induction text with
  | nil => rfl
  | cons c text ih =>
    by_cases hc : c = '\n'
    · rw [lines, if_pos hc, unlines_cons (lines_ne_nil text), ih, hc]
      rfl
    · obtain ⟨first, others, he⟩ := List.exists_cons_of_ne_nil (lines_ne_nil text)
      rw [lines_cons_of_ne hc he]
      rw [he] at ih
      cases others with
      | nil => exact congrArg (c :: ·) ih
      | cons next others => exact congrArg (c :: ·) ih

theorem lines_unlines {ls : List (List Char)} (hne : ls ≠ []) (h : ∀ line ∈ ls, '\n' ∉ line) :
    lines (unlines ls) = ls := by
  induction ls with
  | nil => exact absurd rfl hne
  | cons line others ih =>
    have hl : '\n' ∉ line := h line (by simp)
    by_cases ho : others = []
    · subst ho
      exact lines_of_not_mem hl
    · rw [unlines_cons ho, lines_append_line_feed hl]
      exact congrArg (line :: ·) (ih ho fun l hm => h l (by simp [hm]))

private theorem lines_append_of_not_mem {piece : List Char} (h : '\n' ∉ piece) {text first : List Char}
    {others : List (List Char)} (he : lines text = first :: others) :
    lines (piece ++ text) = (piece ++ first) :: others := by
  induction piece with
  | nil => exact he
  | cons c piece ih =>
    obtain ⟨hc, hp⟩ := not_or.1 (List.mem_cons.not.1 h)
    exact lines_cons_of_ne (Ne.symm hc) (ih hp)

theorem infix_of_mem_lines {text line : List Char} (h : line ∈ lines text) : line <:+: text := by
  induction text generalizing line with
  | nil =>
    obtain rfl : line = [] := by simpa [lines] using h
    exact List.nil_infix
  | cons c text ih =>
    by_cases hc : c = '\n'
    · rw [lines, if_pos hc] at h
      rcases List.mem_cons.1 h with rfl | h
      · exact List.nil_infix
      · exact List.infix_cons (ih h)
    · obtain ⟨first, others, he⟩ := List.exists_cons_of_ne_nil (lines_ne_nil text)
      rw [lines_cons_of_ne hc he] at h
      rcases List.mem_cons.1 h with rfl | h
      · have hf : first <+: text := by
          rw [← unlines_lines text, he]
          cases others with
          | nil => exact List.prefix_rfl
          | cons next others => exact List.prefix_append first ('\n' :: unlines (next :: others))
        exact (List.cons_prefix_cons.2 ⟨rfl, hf⟩).isInfix
      · exact List.infix_cons (ih (by simp [he, h]))

/-- A piece without line feeds stands in a text just when it stands in one of its lines. -/
theorem infix_iff_exists_mem_lines {piece text : List Char} (h : '\n' ∉ piece) :
    piece <:+: text ↔ ∃ line ∈ lines text, piece <:+: line := by
  constructor
  · rintro ⟨before, after, rfl⟩
    obtain ⟨first, others, he⟩ := List.exists_cons_of_ne_nil (lines_ne_nil after)
    have hp := lines_append_of_not_mem h he
    induction before with
    | nil => exact ⟨piece ++ first, by simp [hp], (List.prefix_append piece first).isInfix⟩
    | cons c before ih =>
      obtain ⟨line, hm, hi⟩ := ih
      by_cases hc : c = '\n'
      · exact ⟨line, by simp_all [lines], hi⟩
      · obtain ⟨top, below, ht⟩ := List.exists_cons_of_ne_nil (lines_ne_nil (before ++ piece ++ after))
        have hl : lines (c :: before ++ piece ++ after) = (c :: top) :: below := lines_cons_of_ne hc ht
        rw [ht] at hm
        rcases List.mem_cons.1 hm with rfl | hm
        · exact ⟨c :: line, hl ▸ .head _, List.infix_cons hi⟩
        · exact ⟨line, hl ▸ .tail _ hm, hi⟩
  · rintro ⟨line, hm, hi⟩
    exact hi.trans (infix_of_mem_lines hm)

end CommentStrip.Source
