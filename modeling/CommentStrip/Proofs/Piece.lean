import CommentStrip.Proofs.LineComment
import CommentStrip.Proofs.LineEnd

/-! Lines put together from pieces: text in which nothing begins, and whole strings. What stripping leaves of
such lines, alone and with a comment. -/
namespace CommentStrip

open Reader

theorem Text.trimEnd_append_of_eq {last : List Char} (hne : last ≠ []) (h : trimEnd last = last)
    (front : List Char) : trimEnd (front ++ last) = front ++ last := by
  rw [trimEnd_eq_self_iff] at h ⊢
  rwa [List.getLast?_append_of_ne_nil front hne]

/-- A cut is at a mark before which nothing can end one. -/
theorem Mark.cut?_append_mark {m : Mark} {front : List Char} (hm : m.second ≠ m.first)
    (h : m.second ∉ front) (rest : List Char) :
    m.cut? (front ++ (m.toList ++ rest)) = some (front, rest) := by
  have hnone : ¬ m.toList <:+: front ++ [m.first] :=
    cut?_eq_none_iff.1 (cut?_eq_none_of_not_mem (.inr (by simp [h, hm])))
  have hcut := cut?_append hnone (m.second :: rest)
  rw [cut?, if_pos ⟨rfl, rfl⟩, Option.map_some, List.append_nil] at hcut
  exact hcut

namespace Line

/-- No string and no comment begins in the piece. -/
structure Plain (piece : List Char) : Prop where
  no_slash : '/' ∉ piece
  no_quotes : ∀ q ∈ quotes, q ∉ piece

instance (piece : List Char) : Decidable (Plain piece) :=
  let _ : Decidable (∀ q ∈ quotes, q ∉ piece) := List.decidableBAll (fun q => q ∉ piece) quotes
  decidable_of_iff ('/' ∉ piece ∧ ∀ q ∈ quotes, q ∉ piece)
    ⟨fun h => ⟨h.1, h.2⟩, fun h => ⟨h.no_slash, h.no_quotes⟩⟩

theorem plain_append_iff {a b : List Char} : Plain (a ++ b) ↔ Plain a ∧ Plain b := by
  constructor
  · intro h
    have hslash := h.no_slash
    have hquotes := h.no_quotes
    simp only [List.mem_append, not_or] at hslash hquotes
    exact ⟨⟨hslash.1, fun q hq => (hquotes q hq).1⟩, ⟨hslash.2, fun q hq => (hquotes q hq).2⟩⟩
  · rintro ⟨ha, hb⟩
    refine ⟨?_, fun q hq => ?_⟩
    · simp [ha.no_slash, hb.no_slash]
    · simp [ha.no_quotes q hq, hb.no_quotes q hq]

/-- The scan keeps the piece and is in code behind it as before it, whatever follows. -/
def Passes (piece : List Char) : Prop :=
  ∀ rest, scan (piece ++ rest) = (piece ++ (scan rest).1, (scan rest).2)

theorem Passes.append {a b : List Char} (ha : Passes a) (hb : Passes b) : Passes (a ++ b) := by
  intro rest
  rw [List.append_assoc, ha, hb, List.append_assoc]

theorem Passes.scan_eq {line : List Char} (h : Passes line) : scan line = (line, .code) := by
  have hnil := h []
  rwa [List.append_nil, show scan [] = ([], .code) from rfl, List.append_nil] at hnil

theorem Plain.passes {piece : List Char} (h : Plain piece) : Passes piece := by
  intro rest
  induction piece with
  | nil => rfl
  | cons c piece ih =>
    obtain ⟨hc, hpiece⟩ := plain_append_iff.1 (show Plain ([c] ++ piece) from h)
    have hbare : Bare c (piece ++ rest) := bare_of_ne fun e => hc.no_slash (by simp [e])
    have hcode : ScanState.code.after false c = .code := if_neg fun hq => hc.no_quotes c hq (by simp)
    have hstep := Cursor.scan_of_step (@Cursor.Step.keep false .code c _ (by simp) fun _ => hbare)
    rw [hcode] at hstep
    calc
      scan (c :: (piece ++ rest)) = (c :: (scan (piece ++ rest)).1, (scan (piece ++ rest)).2) := hstep
      _ = (c :: piece ++ (scan rest).1, (scan rest).2) := by rw [ih hpiece]; rfl

/-- What stands in a string is kept, up to its end, and there is code behind it. -/
theorem scan_inString {q : Char} {body : List Char} (hquote : q ∉ body) (hescape : escapeMark ∉ body)
    (rest : List Char) :
    Cursor.scan ⟨false, .inString q, body ++ q :: rest⟩ = (body ++ q :: (scan rest).1, (scan rest).2) := by
  induction body with
  | nil =>
    have hstep := Cursor.scan_of_step (@Cursor.Step.keep false (.inString q) q rest (by simp) (by simp))
    have hcode : (ScanState.inString q).after false q = .code := if_pos ⟨rfl, rfl⟩
    rw [hcode, Cursor.scan_code _ false] at hstep
    exact hstep
  | cons c body ih =>
    obtain ⟨hq, hquote⟩ := not_or.1 (List.mem_cons.not.1 hquote)
    obtain ⟨he, hescape⟩ := not_or.1 (List.mem_cons.not.1 hescape)
    have hstep := Cursor.scan_of_step
      (@Cursor.Step.keep false (.inString q) c (body ++ q :: rest) (by simp) (by simp))
    have hstate : (ScanState.inString q).after false c = .inString q := if_neg fun hc => hq hc.1.symm
    have hplain : ((ScanState.inString q).isInString && c == escapeMark) = false := by
      simp [Ne.symm he]
    rw [hstate, hplain, ih hquote hescape] at hstep
    exact hstep

theorem passes_string {q : Char} {body : List Char} (hq : q ∈ quotes) (hquote : q ∉ body)
    (hescape : escapeMark ∉ body) : Passes (q :: (body ++ [q])) := by
  intro rest
  have hslash : q ≠ '/' := by
    rintro rfl
    exact absurd hq (by decide)
  have hstate : ScanState.code.after false q = .inString q := if_pos hq
  have hstep := Cursor.scan_of_step
    (@Cursor.Step.keep false .code q (body ++ q :: rest) (by simp) fun _ => bare_of_ne hslash)
  rw [hstate] at hstep
  have hline : q :: (body ++ [q]) ++ rest = q :: (body ++ q :: rest) := by simp
  have hkept : q :: (body ++ q :: (scan rest).1) = q :: (body ++ [q]) ++ (scan rest).1 := by simp
  calc
    scan (q :: (body ++ [q]) ++ rest) = scan (q :: (body ++ q :: rest)) := by rw [hline]
    _ = (q :: (Cursor.scan ⟨false, .inString q, body ++ q :: rest⟩).1,
          (Cursor.scan ⟨false, .inString q, body ++ q :: rest⟩).2) := hstep
    _ = (q :: (body ++ [q]) ++ (scan rest).1, (scan rest).2) := by
      rw [scan_inString hquote hescape, hkept]

theorem strip_of_passes {line : List Char} (h : Passes line) (hopen : openMark.cut? line = none)
    (htrim : Text.trimEnd line = line) : strip .code line = (line, .code) := by
  rw [strip, stripCode, dropFirstBlock_of_no_opener hopen]
  simp only [h.scan_eq, htrim, Carry.or]

theorem strip_of_plain {front last : List Char} (h : Plain (front ++ last)) (hne : last ≠ [])
    (htrim : Text.trimEnd last = last) : strip .code (front ++ last) = (front ++ last, .code) := by
  apply strip_of_passes h.passes
  · exact Mark.cut?_eq_none_of_not_mem (.inl h.no_slash)
  · exact Text.trimEnd_append_of_eq hne htrim front

/-- What stands behind the slashes of a line comment is lost, if no block comment is opened there. -/
theorem strip_line_comment_of_passes {front tail : List Char} (h : Passes front)
    (hopen : openMark.cut? (front ++ (lineMark.toList ++ tail)) = none) :
    strip .code (front ++ (lineMark.toList ++ tail)) = (Text.trimEnd front, .code) := by
  have hscan : scan (lineMark.toList ++ tail) = ([], .code) := rfl
  rw [strip, stripCode, dropFirstBlock_of_no_opener hopen]
  simp only [h _, hscan, List.append_nil, Carry.or]

private theorem dropFirstBlock_closed {front inner rest : List Char} (hfront : '*' ∉ front) (hinner : '/' ∉ inner) :
    dropFirstBlock (front ++ (openMark.toList ++ (inner ++ (closeMark.toList ++ rest)))) =
      (front ++ rest, .code) := by
  have hopen := @Mark.cut?_append_mark openMark front (by decide) hfront
    (inner ++ (closeMark.toList ++ rest))
  have hclose := @Mark.cut?_append_mark closeMark inner (by decide) hinner rest
  rw [dropFirstBlock, hopen]
  simp only [hclose]

theorem strip_block_comment {front inner rest : List Char} (hfront : '*' ∉ front) (hinner : '/' ∉ inner)
    (h : Plain (front ++ rest)) (htrim : Text.trimEnd (front ++ rest) = front ++ rest) :
    strip .code (front ++ (openMark.toList ++ (inner ++ (closeMark.toList ++ rest)))) =
      (front ++ rest, .code) := by
  rw [strip, stripCode, dropFirstBlock_closed hfront hinner]
  simp only [h.passes.scan_eq, htrim, Carry.or]

end Line

end CommentStrip
