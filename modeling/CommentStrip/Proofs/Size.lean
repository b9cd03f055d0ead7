import CommentStrip.Proofs.Idempotence
import CommentStrip.Proofs.Run
import Mathlib.Data.String.Basic

/-! Stripping takes characters away and does nothing else, so no file grows, and one that keeps its size is
one that did not change. -/
namespace CommentStrip

namespace Text

/-- Every character takes room, so a part that takes as much room as the whole is the whole. -/
theorem eq_of_sublist_of_utf8Len_eq {part whole : List Char} (h : part.Sublist whole)
    (hl : String.utf8Len part = String.utf8Len whole) : part = whole := by
  induction h with
  | slnil => rfl
  | @cons part whole c h ih =>
    have hle := String.utf8Len_le_of_sublist h
    have hc := Char.utf8Size_pos c
    rw [String.utf8Len_cons] at hl
    omega
  | @cons_cons part whole c h ih =>
    rw [String.utf8Len_cons, String.utf8Len_cons] at hl
    rw [ih (by omega)]

end Text

namespace Source

/-- A text is split at its line feeds and nowhere else. -/
theorem lines_eq_splitOn (text : List Char) : lines text = text.splitOn '\n' := by
  induction text with
  | nil => rfl
  | cons c text ih =>
    rw [List.splitOn_cons_eq_if_modifyHead, ← ih]
    by_cases hc : c = '\n'
    · simp [lines, hc]
    · obtain ⟨first, others, he⟩ := List.exists_cons_of_ne_nil (lines_ne_nil text)
      rw [lines_cons_of_ne hc he, he]
      simp [hc]

private theorem stripLines_sublists (text : List Char) :
    List.Forall₂ List.Sublist (stripLines text) (text.splitOn '\n') := by
  rw [← lines_eq_splitOn]
  exact stripFrom_sublists .code fun _ => not_mem_of_mem_lines

end Source

private theorem stripComments_sublist (text : String) : (stripComments text).toList.Sublist text.toList := by
  rw [stripComments, String.toList_ofList]
  exact Source.strip_sublist text.toList

private theorem utf8ByteSize_stripComments_le (text : String) :
    (stripComments text).utf8ByteSize ≤ text.utf8ByteSize := by
  rw [← String.utf8Len_toList, ← String.utf8Len_toList]
  exact String.utf8Len_le_of_sublist (stripComments_sublist text)

private theorem utf8ByteSize_stripComments_eq_iff (text : String) :
    (stripComments text).utf8ByteSize = text.utf8ByteSize ↔ stripComments text = text := by
  refine ⟨fun h => ?_, fun h => by rw [h]⟩
  rw [← String.utf8Len_toList, ← String.utf8Len_toList] at h
  exact String.toList_inj.1 (Text.eq_of_sublist_of_utf8Len_eq (stripComments_sublist text) h)

/-- Stripping only removes: each line between line feeds gives one line, which is a part of it in its
order, and so is a stripped text of the whole. So the file that a path leads to takes no more bytes
afterwards than before, and just as many only if it is reported as not changed. -/
theorem stripComments_only_removes :
    (∀ text : List Char, List.Forall₂ List.Sublist (Source.stripLines text) (text.splitOn '\n')) ∧
    (∀ text : String, (stripComments text).toList.Sublist text.toList) ∧
    ∀ (d : Disk) path r, (d.process path).1 = .ok r →
      (∃ p before after, d.resolve path = .ok p ∧ d.fileAt? p = some before ∧
        (d.process path).2.fileAt? p = some after ∧
        r.bytesBefore = before.bytes.size ∧ r.bytesAfter = after.bytes.size) ∧
      r.bytesAfter ≤ r.bytesBefore ∧ (r.bytesAfter = r.bytesBefore ↔ r.changed = false) := by
  refine ⟨Source.stripLines_sublists, stripComments_sublist, fun d path r h => ?_⟩
  obtain ⟨p, f, text, hl, -, rfl⟩ := Disk.process_ok_iff.1 h
  obtain ⟨p', f', text', hl', -, hd⟩ := Disk.process_ok h
  obtain ⟨rfl, rfl, rfl⟩ := hl.unique hl'
  have hf := Disk.node?_eq_file_iff.1 hl.isFile
  refine ⟨⟨p, f, { f with bytes := (stripComments text).toUTF8 }, hl.resolves, hf, ?_, ?_, rfl⟩,
    utf8ByteSize_stripComments_le text, ?_⟩
  · rw [← Disk.node?_eq_file_iff, hd, Disk.node?_insertFile d (Disk.ne_nil_of_fileAt? hf), if_pos rfl]
  · rw [← File.toUTF8_of_text? hl.isText]
    rfl
  · rw [Processed.changed_ofTexts]
    exact utf8ByteSize_stripComments_eq_iff text

/-- Through the link a file of seventeen bytes becomes one of seven, and so it has changed. -/
theorem Threefold.stripComments_only_removes_link :
    ∃ r, (disk.process "/lib/b.dart").1 = .ok r ∧ r.bytesBefore = 17 ∧ r.bytesAfter = 7 ∧
      r.changed = true := by
  have hr := Disk.process_ok_iff.2 ⟨_, _, _, leadsToText, isOpen.refusal?_eq_none leadsToText (by decide), rfl⟩
  obtain ⟨-, -, hiff⟩ := stripComments_only_removes.2.2 disk _ _ hr
  have hchanged := mt hiff.2 (by decide)
  exact ⟨_, hr, by decide, by decide, by simpa using hchanged⟩

end CommentStrip
