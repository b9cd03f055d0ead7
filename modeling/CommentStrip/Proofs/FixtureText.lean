import CommentStrip.Proofs.Fixture
import CommentStrip.Proofs.Piece

/-! Made-up source files without their comments: what stripping leaves of each kind of line, and that every
block in such a file is closed. -/
namespace CommentStrip

/-- Lines that are all ended by a line feed. -/
theorem Source.lines_ended {ls : List (List Char)} (h : ∀ line ∈ ls, '\n' ∉ line) (rest : List Char) :
    lines (ls.flatMap (· ++ ['\n']) ++ rest) = ls ++ lines rest := by
  induction ls with
  | nil => rfl
  | cons line ls ih =>
    rw [List.flatMap_cons, List.append_assoc, List.append_assoc, List.singleton_append,
      lines_append_line_feed (h line (by simp)), ih fun l hl => h l (by simp [hl]), List.cons_append]

namespace Fixture

open Line

private theorem not_mem_toString {c : Char} (hc : c.isDigit = false) (n : Nat) : c ∉ (toString n).toList := by
  intro hm
  rw [isDigit_of_mem_toString hm] at hc
  cases hc

private theorem plain_toString (n : Nat) : Plain (toString n).toList := by
  refine ⟨not_mem_toString (by decide) n, fun q hq => ?_⟩
  have hdigits : quotes.all (fun q => !q.isDigit) = true := by decide
  have hdigit : q.isDigit = false := by simpa using List.all_eq_true.1 hdigits q hq
  exact not_mem_toString hdigit n

private theorem passes_numbered_string {q : Char} (hq : q ∈ quotes) {body : List Char} (hquote : q ∉ body)
    (hescape : escapeMark ∉ body) (n : Nat) : Passes (q :: (body ++ (toString n).toList ++ [q])) := by
  refine passes_string hq ?_ ?_
  · rw [List.mem_append, not_or]
    exact ⟨hquote, (plain_toString n).no_quotes q hq⟩
  · rw [List.mem_append, not_or]
    exact ⟨hescape, not_mem_toString (by decide) n⟩

private theorem toString_ne_nil (n : Nat) : (toString n).toList ≠ [] := by
  rw [Nat.toString_eq_repr, Nat.toList_repr]
  exact Nat.toDigits_ne_nil

private theorem trimEnd_toString (n : Nat) : Text.trimEnd (toString n).toList = (toString n).toList := by
  rw [Text.trimEnd_eq_self_iff]
  intro c hc
  have hdigit := isDigit_of_mem_toString (List.mem_of_mem_getLast? hc)
  simp only [Char.isDigit, Bool.and_eq_true, decide_eq_true_eq, ge_iff_le, UInt32.le_iff_toNat_le] at hdigit
  have hrange : 48 ≤ c.toNat ∧ c.toNat ≤ 57 := hdigit
  simp only [Text.isBlank, Bool.or_eq_false_iff, Bool.and_eq_false_iff, decide_eq_false_iff_not,
    beq_eq_false_iff_ne]
  omega

namespace LineKind

/-- The text of line `n` without its comments, where no block is open. -/
def bare (kind : LineKind) (n : Nat) : String :=
  match kind with
  | label => "  final label" ++ toString n ++ " = 'item // " ++ toString n ++ "';"
  | doc => ""
  | note => ""
  | total => "  int total" ++ toString n ++ " = a" ++ toString n ++ "  + b" ++ toString n ++ ";"
  | blockOpen => ""
  | kind => kind.text n

section Characters

variable {c : Char} (hc : c.isDigit = false) (kind : LineKind) (n : Nat)

include hc

/-- Lines of one kind differ in their digits only. -/
theorem mem_text_iff : c ∈ (kind.text n).toList ↔ c ∈ (kind.text 0).toList := by
  -- the equations of `text` take too long to make
  delta text
  cases kind
  all_goals simp only [String.toList_append, List.mem_append, not_mem_toString hc]

private theorem mem_bare_iff : c ∈ (kind.bare n).toList ↔ c ∈ (kind.bare 0).toList := by
  cases kind with
  | label =>
    delta bare
    simp only [String.toList_append, List.mem_append, not_mem_toString hc]
  | total =>
    delta bare
    simp only [String.toList_append, List.mem_append, not_mem_toString hc]
  | doc => rfl
  | note => rfl
  | blockOpen => rfl
  | _ => exact mem_text_iff hc _ n

end Characters

private theorem line_feed_not_mem_text (kind : LineKind) (n : Nat) : '\n' ∉ (kind.text n).toList := by
  rw [mem_text_iff (by decide)]
  cases kind <;> decide

/-- Of the lines without comments only the closer of a block has both a slash and a star, which stand the
other way round. -/
theorem no_opener_bare (kind : LineKind) (n : Nat) : ¬ openMark.toList <:+: (kind.bare n).toList := by
  rw [← Mark.cut?_eq_none_iff]
  cases kind with
  | blockClose =>
    change openMark.cut? "   */".toList = none
    decide
  | blockBody => exact Mark.cut?_eq_none_of_not_mem (.inl ((mem_bare_iff (by decide) _ n).not.2 (by decide)))
  | _ => exact Mark.cut?_eq_none_of_not_mem (.inr ((mem_bare_iff (by decide) _ n).not.2 (by decide)))

private theorem strip_call (n : Nat) :
    Line.strip .code (text call n).toList = ((text call n).toList, .code) := by
  have htext : (text call n).toList =
      "  final value".toList ++ (toString n).toList ++ " = compute(".toList ++ (toString n).toList ++
        ");".toList := by
    delta text
    simp only [String.toList_append]
  have hplain : Plain (text call n).toList := by
    simp only [htext, plain_append_iff, plain_toString]
    decide
  rw [htext] at hplain ⊢
  exact strip_of_plain hplain (by decide) (by decide)

private theorem strip_blockBody (n : Nat) :
    Line.strip .code (text blockBody n).toList = ((text blockBody n).toList, .code) := by
  have htext : (text blockBody n).toList = "   * block body ".toList ++ (toString n).toList := by
    delta text
    simp only [String.toList_append]
  have hplain : Plain (text blockBody n).toList := by
    simp only [htext, plain_append_iff, plain_toString]
    decide
  rw [htext] at hplain ⊢
  exact strip_of_plain hplain (toString_ne_nil n) (trimEnd_toString n)

private theorem strip_label (n : Nat) : Line.strip .code (text label n).toList = ((bare label n).toList, .code) := by
  have hquote : " = 'item // ".toList = " = ".toList ++ '\'' :: "item // ".toList := rfl
  have hslashes : "'; // label for ".toList =
      '\'' :: (";".toList ++ (" ".toList ++ (lineMark.toList ++ " label for ".toList))) := rfl
  have hend : "';".toList = '\'' :: ";".toList := rfl
  have htext : (text label n).toList =
      "  final label".toList ++ (toString n).toList ++ " = ".toList ++
        ('\'' :: ("item // ".toList ++ (toString n).toList ++ ['\''])) ++ ";".toList ++ " ".toList ++
          (lineMark.toList ++ (" label for ".toList ++ (toString n).toList)) := by
    delta text
    simp only [String.toList_append, hquote, hslashes, List.append_assoc, List.cons_append, List.nil_append]
  have hbare : (bare label n).toList =
      "  final label".toList ++ (toString n).toList ++ " = ".toList ++
        ('\'' :: ("item // ".toList ++ (toString n).toList ++ ['\''])) ++ ";".toList := by
    delta bare
    simp only [String.toList_append, hquote, hend, List.append_assoc, List.cons_append, List.nil_append]
  have hfront : Plain ("  final label".toList ++ (toString n).toList ++ " = ".toList) := by
    simp only [plain_append_iff, plain_toString]
    decide
  have hitem : Passes ('\'' :: ("item // ".toList ++ (toString n).toList ++ ['\''])) :=
    passes_numbered_string (by decide) (by decide) (by decide) n
  have hrest : Plain ";".toList ∧ Plain " ".toList := by decide
  -- the slashes of the item are in a string, so the first that are not stand behind it
  have hpasses := ((hfront.passes.append hitem).append hrest.1.passes).append hrest.2.passes
  have hopen : openMark.cut? (text label n).toList = none :=
    Mark.cut?_eq_none_of_not_mem (.inr ((mem_text_iff (by decide) label n).not.2 (by decide)))
  rw [htext] at hopen ⊢
  rw [strip_line_comment_of_passes hpasses hopen, hbare, Text.trimEnd_append_blanks (by decide),
    Text.trimEnd_append_of_eq (by decide) (by decide)]

private theorem strip_url (n : Nat) : Line.strip .code (text url n).toList = ((text url n).toList, .code) := by
  have hquote : " = \"https://example.com/".toList =
      " = ".toList ++ '"' :: "https://example.com/".toList := rfl
  have hend : "\";".toList = '"' :: ";".toList := rfl
  have htext : (text url n).toList =
      "  final url".toList ++ (toString n).toList ++ " = ".toList ++
        ('"' :: ("https://example.com/".toList ++ (toString n).toList ++ ['"'])) ++ ";".toList := by
    delta text
    simp only [String.toList_append, hquote, hend, List.append_assoc, List.cons_append, List.nil_append]
  have hfront : Plain ("  final url".toList ++ (toString n).toList ++ " = ".toList) := by
    simp only [plain_append_iff, plain_toString]
    decide
  have haddress : Passes ('"' :: ("https://example.com/".toList ++ (toString n).toList ++ ['"'])) :=
    passes_numbered_string (by decide) (by decide) (by decide) n
  have hrest : Plain ";".toList := by decide
  have hpasses : Passes (text url n).toList := by
    rw [htext]
    exact (hfront.passes.append haddress).append hrest.passes
  have hopen : openMark.cut? (text url n).toList = none :=
    Mark.cut?_eq_none_of_not_mem (.inr ((mem_text_iff (by decide) url n).not.2 (by decide)))
  have htrim : Text.trimEnd (text url n).toList = (text url n).toList := by
    rw [htext]
    exact Text.trimEnd_append_of_eq (by decide) (by decide) _
  exact strip_of_passes hpasses hopen htrim

private theorem strip_total (n : Nat) : Line.strip .code (text total n).toList = ((bare total n).toList, .code) := by
  have hinline : " /* inline */ + b".toList =
      " ".toList ++ (openMark.toList ++ (" inline ".toList ++ (closeMark.toList ++ " + b".toList))) := rfl
  have hgap : "  + b".toList = " ".toList ++ " + b".toList := rfl
  have htext : (text total n).toList =
      "  int total".toList ++ (toString n).toList ++ " = a".toList ++ (toString n).toList ++ " ".toList ++
        (openMark.toList ++ (" inline ".toList ++ (closeMark.toList ++
          (" + b".toList ++ (toString n).toList ++ ";".toList)))) := by
    delta text
    simp only [String.toList_append, hinline, List.append_assoc]
  have hbare : (bare total n).toList =
      "  int total".toList ++ (toString n).toList ++ " = a".toList ++ (toString n).toList ++ " ".toList ++
        (" + b".toList ++ (toString n).toList ++ ";".toList) := by
    delta bare
    simp only [String.toList_append, hgap, List.append_assoc]
  have hplain : Plain (bare total n).toList := by
    simp only [hbare, plain_append_iff, plain_toString]
    decide
  have htrim : Text.trimEnd (bare total n).toList = (bare total n).toList := by
    rw [hbare, ← List.append_assoc]
    exact Text.trimEnd_append_of_eq (by decide) (by decide) _
  have hstar : '*' ∉ (bare total n).toList := (mem_bare_iff (by decide) total n).not.2 (by decide)
  rw [hbare] at hplain htrim hstar ⊢
  rw [htext]
  exact strip_block_comment (fun hm => hstar (List.mem_append_left _ hm)) (by decide) hplain htrim

/-- A line that is all comment, but for the blanks before it, leaves nothing. -/
theorem strip_comment_line {kind : LineKind} {n : Nat} {tail : List Char}
    (htext : (kind.text n).toList = "  ".toList ++ (lineMark.toList ++ tail))
    (hstar : '*' ∉ (kind.text 0).toList) : Line.strip .code (kind.text n).toList = ([], .code) := by
  have hopen : openMark.cut? (kind.text n).toList = none :=
    Mark.cut?_eq_none_of_not_mem (.inr ((mem_text_iff (by decide) kind n).not.2 hstar))
  rw [htext] at hopen ⊢
  exact strip_line_comment_of_passes (Plain.passes (by decide)) hopen

private theorem strip_doc (n : Nat) : Line.strip .code (text doc n).toList = ([], .code) := by
  have hslashes : "  /// Returns the ".toList = "  ".toList ++ (lineMark.toList ++ "/ Returns the ".toList) := rfl
  have htext : (text doc n).toList = "  ".toList ++
      (lineMark.toList ++ ("/ Returns the ".toList ++ (toString n).toList ++ "th entry.".toList)) := by
    delta text
    simp only [String.toList_append, hslashes, List.append_assoc]
  exact strip_comment_line htext (by decide)

private theorem strip_note (n : Nat) : Line.strip .code (text note n).toList = ([], .code) := by
  have hslashes : "  // plain note ".toList = "  ".toList ++ (lineMark.toList ++ " plain note ".toList) := rfl
  have htext : (text note n).toList =
      "  ".toList ++ (lineMark.toList ++ (" plain note ".toList ++ (toString n).toList)) := by
    delta text
    simp only [String.toList_append, hslashes, List.append_assoc]
  exact strip_comment_line htext (by decide)

/-- A line that opens no block leaves its text without comments, and none open. -/
theorem strip_text {kind : LineKind} (h : kind ≠ blockOpen) (n : Nat) :
    Line.strip .code (kind.text n).toList = ((kind.bare n).toList, .code) := by
  cases kind with
  | call => exact strip_call n
  | label => exact strip_label n
  | doc => exact strip_doc n
  | note => exact strip_note n
  | total => exact strip_total n
  | url => exact strip_url n
  | blockOpen => exact absurd rfl h
  | blockBody => exact strip_blockBody n
  | blockClose =>
    change Line.strip .code "   */".toList = ("   */".toList, .code)
    decide
  | blank => rfl

/-- An open block takes its body. -/
theorem strip_blockBody_comment (n : Nat) : Line.strip .comment (text blockBody n).toList = ([], .comment) := by
  have hslash : '/' ∉ (text blockBody n).toList := (mem_text_iff (by decide) blockBody n).not.2 (by decide)
  rw [Line.strip, Mark.cut?_eq_none_of_not_mem (.inr hslash)]

end LineKind

/-- The lines of a draw without their comments. The three lines of a block are all comment; a body or a
closer that stands alone is not. -/
def bareLines : List (LineKind × Nat) → List String
  | (.blockOpen, _) :: (.blockBody, _) :: (.blockClose, _) :: rest => "" :: "" :: "" :: bareLines rest
  | (kind, n) :: rest => kind.bare n :: bareLines rest
  | [] => []

/-- Every opener is followed by the body and the closer of its block. -/
inductive Whole : List (LineKind × Nat) → Prop where
  | nil : Whole []
  | line {kind : LineKind} {n : Nat} {rest : List (LineKind × Nat)} (h : kind ≠ .blockOpen)
      (hrest : Whole rest) : Whole ((kind, n) :: rest)
  | block {n : Nat} {rest : List (LineKind × Nat)} (hrest : Whole rest) :
      Whole ((.blockOpen, n) :: (.blockBody, n) :: (.blockClose, n) :: rest)

/-- One step of a draw: a whole block, or one line that opens none, or the end. -/
theorem drawFrom_succ (total fuel n : Nat) (r : Random) :
    (n < total ∧ drawFrom total (fuel + 1) n r = (.blockOpen, n) :: (.blockBody, n) :: (.blockClose, n) ::
      drawFrom total fuel (n + 3) r.next.2) ∨
    (n < total ∧ ∃ kind ≠ .blockOpen,
      drawFrom total (fuel + 1) n r = (kind, n) :: drawFrom total fuel (n + 1) r.next.2) ∨
    (total ≤ n ∧ drawFrom total (fuel + 1) n r = []) := by
  by_cases hn : n < total
  · rw [drawFrom, if_pos hn]
    generalize hkind : LineKind.ofNumber r.next.1 = kind
    simp only [hkind]
    split
    · exact .inl ⟨hn, rfl⟩
    · next hopen => exact .inr (.inl ⟨hn, kind, hopen, rfl⟩)
  · rw [drawFrom, if_neg hn]
    exact .inr (.inr ⟨Nat.le_of_not_lt hn, rfl⟩)

private theorem whole_drawFrom (total fuel n : Nat) (r : Random) : Whole (drawFrom total fuel n r) := by
  induction fuel generalizing n r with
  | zero => exact .nil
  | succ fuel ih =>
    rcases drawFrom_succ total fuel n r with ⟨-, hdraw⟩ | ⟨-, kind, hkind, hdraw⟩ | ⟨-, hdraw⟩
    · rw [hdraw]
      exact .block (ih _ _)
    · rw [hdraw]
      exact .line hkind (ih _ _)
    · rw [hdraw]
      exact .nil

/-- A draw goes on to the last line, and only a block that begins before it goes past it. -/
theorem length_drawFrom {total fuel n : Nat} (h : total ≤ n + fuel) (r : Random) :
    total ≤ n + (drawFrom total fuel n r).length ∧ (drawFrom total fuel n r).length ≤ total + 2 - n := by
  induction fuel generalizing n r with
  | zero => exact ⟨h, Nat.zero_le _⟩
  | succ fuel ih =>
    rcases drawFrom_succ total fuel n r with ⟨hn, hdraw⟩ | ⟨hn, kind, -, hdraw⟩ | ⟨hn, hdraw⟩
    · have hrest := @ih (n + 3) (by omega) r.next.2
      simp only [hdraw, List.length_cons]
      omega
    · have hrest := @ih (n + 1) (by omega) r.next.2
      simp only [hdraw, List.length_cons]
      omega
    · rw [hdraw]
      exact ⟨hn, Nat.zero_le _⟩

private theorem bareLines_cons {kind : LineKind} (h : kind ≠ .blockOpen) (n : Nat) (rest : List (LineKind × Nat)) :
    bareLines ((kind, n) :: rest) = kind.bare n :: bareLines rest := by
  cases kind with
  | blockOpen => exact absurd rfl h
  | _ => rfl

private theorem stripFrom_drawn {drawn : List (LineKind × Nat)} (h : Whole drawn) :
    Source.stripFrom .code (drawn.map fun d => (d.1.text d.2).toList) =
      ((bareLines drawn).map String.toList, .code) := by
  induction h with
  | nil => rfl
  | @line kind n rest hkind hrest ih =>
    rw [List.map_cons, Source.stripFrom_cons, LineKind.strip_text hkind, ih, bareLines_cons hkind,
      List.map_cons]
  | @block n rest hrest ih =>
    -- the comment is carried from the opener over the body to the closer, and no further
    have hopen : Line.strip .code (LineKind.text .blockOpen n).toList = ([], .comment) := by
      change Line.strip .code "  /*".toList = ([], .comment)
      decide
    have hclose : Line.strip .comment (LineKind.text .blockClose n).toList = ([], .code) := by
      change Line.strip .comment "   */".toList = ([], .code)
      decide
    simp only [List.map_cons, Source.stripFrom_cons, hopen, LineKind.strip_blockBody_comment, hclose, ih,
      bareLines]
    rfl

private theorem no_opener_of_mem_bareLines {drawn : List (LineKind × Nat)} (h : Whole drawn) :
    ∀ line ∈ bareLines drawn, ¬ openMark.toList <:+: line.toList := by
  induction h with
  | nil => simp [bareLines]
  | line hkind hrest ih =>
    rw [bareLines_cons hkind, List.forall_mem_cons]
    exact ⟨LineKind.no_opener_bare _ _, ih⟩
  | block hrest ih =>
    have hempty : ¬ openMark.toList <:+: "".toList := by decide
    simp only [bareLines, List.forall_mem_cons]
    exact ⟨hempty, hempty, hempty, ih⟩

private theorem toList_foldl {f : String → LineKind × Nat → String}
    (hf : ∀ text d, f text d = text ++ d.1.text d.2 ++ "\n") (drawn : List (LineKind × Nat))
    (start : String) :
    (drawn.foldl f start).toList =
      start.toList ++ (drawn.map fun d => (d.1.text d.2).toList).flatMap (· ++ ['\n']) := by
  induction drawn generalizing start with
  | nil => simp
  | cons d drawn ih =>
    rw [List.foldl_cons, ih, hf, List.map_cons, List.flatMap_cons]
    simp

private theorem lines_source (total : Nat) (seed : UInt64) :
    Source.lines (source total seed).toList =
      ["/// Generated admin fixture.".toList, "class Fixture \x7b".toList] ++
        (draw total seed).map (fun d => (d.1.text d.2).toList) ++ ["\x7d".toList, []] := by
  have hopening : "/// Generated admin fixture.\nclass Fixture \x7b\n".toList =
      ["/// Generated admin fixture.".toList, "class Fixture \x7b".toList].flatMap (· ++ ['\n']) := by decide
  have hclosing : "\x7d\n".toList = ["\x7d".toList].flatMap (· ++ ['\n']) ++ [] := by decide
  have hfeed : ∀ l ∈ ["/// Generated admin fixture.".toList, "class Fixture \x7b".toList], '\n' ∉ l := by
    decide
  have hdrawn (l) (hl : l ∈ (draw total seed).map fun d => (d.1.text d.2).toList) : '\n' ∉ l := by
    obtain ⟨d, -, rfl⟩ := List.mem_map.1 hl
    exact LineKind.line_feed_not_mem_text d.1 d.2
  rw [source, String.toList_append, toList_foldl fun _ _ => rfl, hopening, List.append_assoc,
    Source.lines_ended hfeed, Source.lines_ended hdrawn, hclosing, Source.lines_ended (by decide),
    List.append_assoc]
  rfl

private theorem stripFrom_source (total : Nat) (seed : UInt64) :
    Source.stripFrom .code (Source.lines (source total seed).toList) =
      ((["", "class Fixture \x7b"] ++ bareLines (draw total seed) ++ ["\x7d", ""]).map String.toList,
        .code) := by
  have hopening : Source.stripFrom .code
      ["/// Generated admin fixture.".toList, "class Fixture \x7b".toList] =
        ([[], "class Fixture \x7b".toList], .code) := by decide
  have hclosing : Source.stripFrom .code ["\x7d".toList, []] = (["\x7d".toList, []], .code) := by decide
  have hdrawn := stripFrom_drawn (whole_drawFrom total total 0 (Random.ofSeed seed))
  rw [← draw] at hdrawn
  rw [lines_source, Source.stripFrom_append, Source.stripFrom_append, hopening]
  simp only [hdrawn, hclosing, List.map_append]
  rfl

private theorem no_opener_strip_source (total : Nat) (seed : UInt64) :
    ¬ openMark.toList <:+: Source.strip (source total seed).toList := by
  have hm : '\n' ∉ openMark.toList := by decide
  have hfirst : ∀ text ∈ ["", "class Fixture \x7b"], ¬ openMark.toList <:+: text.toList := by decide
  have hlast : ∀ text ∈ ["\x7d", ""], ¬ openMark.toList <:+: text.toList := by decide
  rw [Source.infix_iff_exists_mem_lines hm]
  rintro ⟨line, hl, hi⟩
  have hline := Source.mem_lines_of_mem_strip hl
  rw [Source.stripLines, stripFrom_source] at hline
  obtain ⟨text, ht, rfl⟩ := List.mem_map.1 hline
  simp only [List.mem_append] at ht
  rcases ht with (ht | ht) | ht
  · exact hfirst text ht hi
  · exact no_opener_of_mem_bareLines (whole_drawFrom ..) text ht hi
  · exact hlast text ht hi

/-- Stripping leaves of a made-up file every line without its comments, line by line: the first line, the
comment lines and the blocks are empty then, and all else is kept, also what looks like a part of a block
and is none. No comment is open at the end. There is nothing left for a second pass to take. -/
theorem source_stripped (total : Nat) (seed : UInt64) :
    (Whole (draw total seed) ∧
      total ≤ (draw total seed).length ∧ (draw total seed).length ≤ total + 2) ∧
    Source.lines (source total seed).toList = (["/// Generated admin fixture.", "class Fixture \x7b"] ++
      (draw total seed).map (fun d => d.1.text d.2) ++ ["\x7d", ""]).map String.toList ∧
    Source.stripLines (source total seed).toList =
      (["", "class Fixture \x7b"] ++ bareLines (draw total seed) ++ ["\x7d", ""]).map String.toList ∧
    (Source.stripFrom .code (Source.lines (source total seed).toList)).2 = .code ∧
    ¬ openMark.toList <:+: (stripComments (source total seed)).toList ∧
    stripComments (stripComments (source total seed)) = stripComments (source total seed) := by
  have hlength := @length_drawFrom total total 0 (by omega) (Random.ofSeed seed)
  rw [Nat.zero_add, Nat.sub_zero] at hlength
  have hopener : ¬ openMark.toList <:+: (stripComments (source total seed)).toList := by
    rw [stripComments, String.toList_ofList]
    exact no_opener_strip_source total seed
  refine ⟨⟨whole_drawFrom .., hlength⟩, ?_, ?_, ?_, hopener, (stripComments_again_iff _).2 hopener⟩
  · rw [lines_source]
    simp [Function.comp_def]
  · rw [Source.stripLines, stripFrom_source]
  · rw [stripFrom_source]

end Fixture

end CommentStrip
