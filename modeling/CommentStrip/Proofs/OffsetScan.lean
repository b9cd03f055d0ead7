import CommentStrip.Proofs.Kept
import CommentStrip.Proofs.Offset

/-! Stripping by byte offsets and the reading of characters, side by side: one turn of the loop is a stretch of
the scan. -/
namespace CommentStrip

namespace Line.Cursor

/-- A comment that is open is read up to its closer. -/
theorem scan_comment_closed {escaped : Bool} {body inner after : List Char}
    (h : closeMark.cut? body = some (inner, after)) :
    scan ⟨escaped, .inBlockComment, body⟩ = scan ⟨false, .code, after⟩ := by
  induction body using Mark.cut?.induct closeMark generalizing escaped inner with
  | case1 a b rest hab =>
    obtain ⟨rfl, rfl⟩ := hab
    rw [Mark.cut?, if_pos ⟨rfl, rfl⟩] at h
    obtain ⟨rfl, rfl⟩ : [] = inner ∧ rest = after := by simpa using h
    exact scan_of_step .leave
  | case2 a b rest hab ih =>
    rw [Mark.cut?, if_neg hab] at h
    obtain ⟨⟨x, y⟩, hxy, he⟩ := Option.map_eq_some_iff.1 h
    obtain ⟨-, rfl⟩ : a :: x = inner ∧ y = after := by simpa using he
    have hskip : ¬ closeMark.toList <+: a :: b :: rest := by simpa [Mark.toList, eq_comm] using hab
    rw [scan_of_step (.skip hskip), ih hxy]
    rfl
  | case3 body hx =>
    rw [Mark.cut?] at h
    · cases h
    · exact hx

theorem scan_comment_open {escaped : Bool} {body : List Char} (h : closeMark.cut? body = none) :
    scan ⟨escaped, .inBlockComment, body⟩ = ([], .comment) := by
  rw [Mark.cut?_eq_none_iff] at h
  induction body generalizing escaped with
  | nil => rfl
  | cons c body ih =>
    have hskip : ¬ closeMark.toList <+: c :: body := fun hp => h hp.isInfix
    rw [scan_of_step (.skip hskip), ih fun hi => h (List.infix_cons hi)]
    rfl

end Line.Cursor

namespace Offset

open Line (Cursor)
open Reader

section Loop

variable {line : String} {l : Loop}

private theorem loop_of_leave {last : Loop} (h : turn line l = .ok (.leave last)) : loop line l = .ok last := by
  rw [loop]
  split <;> simp_all

private theorem loop_of_again {next : Loop} (h : turn line l = .ok (.again next)) : loop line l = loop line next := by
  rw [loop]
  split <;> simp_all

end Loop

/-- The loop stands where the scan of the characters stands: what the scan has still to read begins at the
loop's offset, the states are the same, and in a string the scan knows whether the character before that
offset is an escape mark. -/
structure Loop.At (line : String) (l : Loop) (c : Cursor) : Prop where
  place : ∃ front : String, line = front ++ String.ofList c.rest ∧ l.pos = front.utf8ByteSize ∧
    (c.state.isInString = true → c.escaped = decide (front.toList.getLast? = some escapeMark))
  state : l.state = c.state
  outside : c.state ≠ .inBlockComment

section Turn

variable {line : String} {l : Loop}

private theorem at_start (line : String) : Loop.At line .start ⟨false, .code, line.toList⟩ where
  place := ⟨"", by simp [String.ofList_toList], rfl, by simp [ScanState.isInString]⟩
  state := rfl
  outside := by simp

variable {front : String} (hpos : l.pos = front.utf8ByteSize)

include hpos

private theorem turn_at_end : turn (front ++ String.ofList []) l = .ok (.leave l) := by
  rw [turn, hpos, onward_append]
  simp only [bind, Except.bind, String.front?_eq, String.toList_ofList]
  rfl

private theorem turn_in_code (hs : l.state = .code) (c : Char) (cs : List Char) :
    turn (front ++ String.ofList (c :: cs)) l = turnInCode l (String.ofList (c :: cs)) c := by
  rw [turn, hpos, onward_append]
  simp only [bind, Except.bind, String.front?_eq, String.toList_ofList, List.head?_cons, hs]

private theorem turn_in_string {q : Char} (hs : l.state = .inString q) (c : Char) (cs : List Char) :
    turn (front ++ String.ofList (c :: cs)) l = turnInString (front ++ String.ofList (c :: cs)) l q c := by
  rw [turn, hpos, onward_append]
  simp only [bind, Except.bind, String.front?_eq, String.toList_ofList, List.head?_cons, hs]

omit hpos

private theorem turnInCode_line_comment {left : String} {c : Char} (h : lineMark.toList <+: left.toList) :
    turnInCode l left c = .ok (.leave l) := by
  rw [turnInCode, if_pos ((startsWith_iff isAscii_lineMark).2 h)]
  rfl

section Opener

variable (l) (c : Char) {body : List Char}

private theorem turnInCode_opener : turnInCode l (String.ofList (openMark.toList ++ body)) c =
    .ok (((find? closeMark (String.ofList body)).map fun offset =>
      Turn.again { l with pos := l.pos + (markSize openMark + offset + markSize closeMark) }).getD
        (.leave { l with state := .inBlockComment })) := by
  have hline : ¬ lineMark.toList <+: openMark.toList ++ body := by
    simp [lineMark, openMark, Mark.toList]
  rw [turnInCode, if_neg, if_pos, onward_mark]
  · simp only [bind, Except.bind]
    cases find? closeMark (String.ofList body) <;> rfl
  · rw [startsWith_iff isAscii_openMark, String.toList_ofList]
    exact List.prefix_append ..
  · rwa [startsWith_iff isAscii_lineMark, String.toList_ofList]

private theorem turnInCode_closed {inner after : List Char} (h : closeMark.cut? body = some (inner, after)) :
    turnInCode l (String.ofList (openMark.toList ++ body)) c = .ok (.again { l with
      pos := l.pos + (markSize openMark + (String.ofList inner).utf8ByteSize + markSize closeMark) }) := by
  rw [turnInCode_opener, find?_eq isAscii_closeMark, String.toList_ofList, h]
  rfl

private theorem turnInCode_open (h : closeMark.cut? body = none) :
    turnInCode l (String.ofList (openMark.toList ++ body)) c =
      .ok (.leave { l with state := .inBlockComment }) := by
  rw [turnInCode_opener, find?_eq isAscii_closeMark, String.toList_ofList, h]
  rfl

end Opener

private theorem turnInCode_bare {c : Char} {cs : List Char} (h : Bare c cs) :
    turnInCode l (String.ofList (c :: cs)) c =
      .ok (.again (l.keep c (if c ∈ quotes then .inString c else .code))) := by
  obtain ⟨hl, ho⟩ := h
  rw [turnInCode, if_neg, if_neg]
  · rfl
  · rwa [startsWith_iff isAscii_openMark, String.toList_ofList]
  · rwa [startsWith_iff isAscii_lineMark, String.toList_ofList]

private theorem endsString_append (front rest : String) (q c : Char) :
    endsString (front ++ rest) front.utf8ByteSize q c =
      .ok (decide (c = q ∧ !decide (front.toList.getLast? = some escapeMark))) := by
  rw [endsString, followsEscape_append]
  by_cases hc : c = q
  · simp [hc, Functor.map, Except.map]
  · simp [hc, pure, Except.pure]

/-- Passing over a character that is kept. -/
theorem at_keep (hpos : l.pos = front.utf8ByteSize) (ch : Char) (rest : List Char) {escaped : Bool}
    {s : ScanState} (hs : s ≠ .inBlockComment) (hescape : s.isInString = true → escaped = (ch == escapeMark)) :
    (l.keep ch s).At (front ++ String.ofList (ch :: rest)) ⟨escaped, s, rest⟩ where
  place := by
    refine ⟨front.push ch, ?_, ?_, fun h => ?_⟩
    · apply String.toList_inj.1
      simp
    · rw [String.utf8ByteSize_push, Loop.keep, hpos]
    · rw [hescape h, String.toList_push, List.getLast?_concat]
      simp [beq_eq_decide]
  state := rfl
  outside := hs

/-- What one turn of the loop is to the scan: its end, or a stretch of it up to a later cursor. -/
inductive Loop.Follows (line : String) (l : Loop) (c : Cursor) : Prop
  | leave {last : Loop} (hturn : turn line l = .ok (.leave last)) (hkept : last.kept = l.kept)
      (hscan : c.scan = ([], last.carry))
  | again {next : Loop} {d : Cursor} {kept : List Char} (hturn : turn line l = .ok (.again next))
      (hat : next.At line d) (hkept : next.kept = l.kept ++ String.ofList kept)
      (hscan : c.scan = (kept ++ d.scan.1, d.scan.2))

private theorem push_eq (kept : String) (ch : Char) : kept.push ch = kept ++ String.ofList [ch] := by
  rw [String.push_eq_append, String.singleton_eq_ofList]

section Follows

variable (hpos : l.pos = front.utf8ByteSize)

include hpos

private theorem follows_in_code (hs : l.state = .code) (escaped : Bool) (ch : Char) (rest : List Char) :
    l.Follows (front ++ String.ofList (ch :: rest)) ⟨escaped, .code, ch :: rest⟩ := by
  have hturn := turn_in_code hpos hs ch rest
  have hcarry : l.carry = .code := by rw [Loop.carry, hs]; rfl
  have hcode : ScanState.code ≠ .inBlockComment := by simp
  by_cases hb : Bare ch rest
  · have hstep : Cursor.Step ⟨escaped, .code, ch :: rest⟩ [ch] _ := .keep hcode fun _ => hb
    refine .again (hturn.trans (turnInCode_bare hb)) ?_ (push_eq l.kept ch) (Cursor.scan_of_step hstep)
    apply at_keep hpos ch rest (ScanState.after_ne_comment hcode escaped ch)
    intro hin
    -- a string begins with its quote, which is no escape mark
    have hq : ch ∈ quotes := by
      by_contra hq
      simp [ScanState.after, hq, ScanState.isInString] at hin
    have hne : ch ≠ escapeMark := by
      rintro rfl
      exact absurd hq (by decide)
    simp [ScanState.isInString, hne]
  · obtain ⟨rfl, body, rfl | rfl⟩ := eq_slash_of_not_bare hb
    · have hmark : lineMark.toList <+: '/' :: '/' :: body := ⟨body, rfl⟩
      refine .leave (hturn.trans (turnInCode_line_comment (by rwa [String.toList_ofList]))) rfl ?_
      rw [Cursor.scan_of_stopped (.inr ⟨rfl, hmark⟩), if_neg hcode, hcarry]
    · have henter := Cursor.scan_of_step (@Cursor.Step.enter escaped body)
      cases hc : closeMark.cut? body with
      | none =>
        rw [Cursor.scan_comment_open hc] at henter
        exact .leave (hturn.trans (turnInCode_open l '/' hc)) rfl henter
      | some cut =>
        obtain ⟨inner, after⟩ := cut
        obtain ⟨rfl, -⟩ := Mark.cut?_eq_some hc
        rw [Cursor.scan_comment_closed hc] at henter
        refine .again (hturn.trans (turnInCode_closed l '/' hc)) ⟨?_, hs, hcode⟩ ?_ henter
        · let comment := openMark.toList ++ inner ++ closeMark.toList
          refine ⟨front ++ String.ofList comment, ?_, ?_, by simp [ScanState.isInString]⟩
          · apply String.toList_inj.1
            simp [comment, openMark, Mark.toList]
          · simp only [comment, hpos, String.ofList_append, String.utf8ByteSize_append, markSize_eq]
        · simp

private theorem follows_in_string {q : Char} (hs : l.state = .inString q) (ch : Char) (rest : List Char) :
    l.Follows (front ++ String.ofList (ch :: rest))
      ⟨decide (front.toList.getLast? = some escapeMark), .inString q, ch :: rest⟩ := by
  have hstring : ScanState.inString q ≠ .inBlockComment := by simp
  generalize hescaped : decide (front.toList.getLast? = some escapeMark) = escaped
  have hturn : turn (front ++ String.ofList (ch :: rest)) l =
      .ok (.again (l.keep ch ((ScanState.inString q).after escaped ch))) := by
    rw [turn_in_string hpos hs, turnInString, hpos, endsString_append, hescaped]
    simp only [bind, Except.bind, pure, Except.pure, ScanState.after, decide_eq_true_eq]
  have hstep : Cursor.Step ⟨escaped, .inString q, ch :: rest⟩ [ch] _ := .keep hstring (by simp)
  refine .again hturn ?_ (push_eq l.kept ch) (Cursor.scan_of_step hstep)
  apply at_keep hpos ch rest (ScanState.after_ne_comment hstring escaped ch)
  intro _
  rfl

end Follows

private theorem Loop.At.follows {c : Cursor} (h : l.At line c) : l.Follows line c := by
  obtain ⟨⟨front, hline, hpos, hescape⟩, hstate, houtside⟩ := h
  obtain ⟨escaped, s, rest⟩ := c
  simp only at hline hescape hstate houtside
  subst hline
  cases rest with
  | nil =>
    refine .leave (turn_at_end hpos) rfl ?_
    rw [Cursor.scan_of_stopped (.inl rfl), if_neg houtside, Loop.carry, hstate]
    cases s with
    | inBlockComment => exact absurd rfl houtside
    | _ => rfl
  | cons ch rest =>
    cases s with
    | code => exact follows_in_code hpos hstate escaped ch rest
    | inString q =>
      rw [hescape rfl]
      exact follows_in_string hpos hstate ch rest
    | inBlockComment => exact absurd rfl houtside

private theorem loop_of_at {c : Cursor} (h : l.At line c) :
    ∃ last, loop line l = .ok last ∧ last.kept = l.kept ++ String.ofList c.scan.1 ∧ last.carry = c.scan.2 := by
  induction hn : line.utf8ByteSize - l.pos using Nat.strongRecOn generalizing l c with
  | ind n ih =>
    cases h.follows with
    | @leave last hturn hkept hscan =>
      refine ⟨last, loop_of_leave hturn, ?_, ?_⟩
      · simp [hkept, hscan]
      · rw [hscan]
    | @again next d kept hturn hat hkept hscan =>
      have hlt := pos_lt_of_turn hturn
      obtain ⟨last, hloop, hlast, hcarry⟩ := ih _ (by omega) hat rfl
      refine ⟨last, (loop_of_again hturn).trans hloop, ?_, ?_⟩
      · rw [hlast, hkept, hscan, String.ofList_append, String.append_assoc]
      · rw [hcarry, hscan]

/-- The places that the loop over a line comes to. -/
inductive Loop.Reached (line : String) : Loop → Prop
  | start : Reached line .start
  | again {l next : Loop} (h : Reached line l) (hturn : turn line l = .ok (.again next)) : Reached line next

private theorem Loop.Reached.exists_at (h : Loop.Reached line l) : ∃ c, l.At line c := by
  induction h with
  | start => exact ⟨_, at_start line⟩
  | @again l next _ hturn ih =>
    obtain ⟨c, hc⟩ := ih
    cases hc.follows with
    | leave hturn' =>
      rw [hturn] at hturn'
      cases hturn'
    | again hturn' hat =>
      rw [hturn] at hturn'
      cases hturn'
      exact ⟨_, hat⟩

/-- Each turn begins between two characters of the line, and is no fault. -/
theorem Loop.Reached.exists_turn (h : Loop.Reached line l) :
    String.Pos.Raw.IsValid line ⟨l.pos⟩ ∧ ∃ t, turn line l = .ok t := by
  obtain ⟨c, hc⟩ := h.exists_at
  constructor
  · obtain ⟨front, rfl, hpos, -⟩ := hc.place
    rw [hpos]
    exact isValid_append front _
  · cases hc.follows with
    | leave hturn => exact ⟨_, hturn⟩
    | again hturn => exact ⟨_, hturn⟩

end Turn

theorem scan_eq (line : String) :
    scan line = .ok (String.ofList (Line.scan line.toList).1, (Line.scan line.toList).2) := by
  obtain ⟨last, hloop, hkept, hcarry⟩ := loop_of_at (at_start line)
  have hstart : Loop.start.kept = "" := rfl
  rw [hstart, String.empty_append] at hkept
  rw [scan, hloop]
  simp only [bind, Except.bind, pure, Except.pure, hkept, hcarry]
  rfl

private theorem dropFirstBlock_eq (line : String) :
    dropFirstBlock line =
      .ok (String.ofList (Line.dropFirstBlock line.toList).1, (Line.dropFirstBlock line.toList).2) := by
  obtain ⟨cs, rfl⟩ := line.exists_eq_ofList
  rw [dropFirstBlock, find?_eq isAscii_openMark, String.toList_ofList]
  cases ho : openMark.cut? cs with
  | none =>
    rw [Line.dropFirstBlock_of_no_opener ho]
    rfl
  | some cut =>
    obtain ⟨before, body⟩ := cut
    obtain ⟨rfl, -⟩ := Mark.cut?_eq_some ho
    have hbody := onward_ofList (before ++ openMark.toList) body
    have hbefore := upTo_ofList before (openMark.toList ++ body)
    rw [← List.append_assoc] at hbefore
    simp only [Option.map_some, bind, Except.bind, pure, Except.pure, utf8ByteSize_add_markSize, hbody, hbefore,
      find?_eq isAscii_closeMark, String.toList_ofList, Line.dropFirstBlock, ho]
    cases hc : closeMark.cut? body with
    | none => rfl
    | some cut =>
      obtain ⟨inner, after⟩ := cut
      obtain ⟨rfl, -⟩ := Mark.cut?_eq_some hc
      have hafter := onward_ofList (before ++ openMark.toList ++ inner ++ closeMark.toList) after
      rw [List.append_assoc _ closeMark.toList, List.append_assoc _ inner, ← List.append_assoc inner] at hafter
      simp only [Option.map_some, utf8ByteSize_add, utf8ByteSize_add_markSize, hafter]
      rw [String.ofList_append]

private theorem stripCode_eq (line : String) :
    stripCode line = .ok (String.ofList (Line.stripCode line.toList).1, (Line.stripCode line.toList).2) := by
  rw [stripCode, dropFirstBlock_eq]
  simp only [bind, Except.bind, scan_eq, pure, Except.pure, String.toList_ofList, Line.stripCode]

theorem strip_eq (carry : Carry) (line : String) :
    strip carry line = .ok (String.ofList (Line.strip carry line.toList).1, (Line.strip carry line.toList).2) := by
  cases carry with
  | code => exact stripCode_eq line
  | comment =>
    obtain ⟨cs, rfl⟩ := line.exists_eq_ofList
    rw [strip, find?_eq isAscii_closeMark, String.toList_ofList, Line.strip]
    cases hc : closeMark.cut? cs with
    | none => rfl
    | some cut =>
      obtain ⟨inner, after⟩ := cut
      obtain ⟨rfl, -⟩ := Mark.cut?_eq_some hc
      simp only [Option.map_some, utf8ByteSize_add_markSize, onward_ofList, bind, Except.bind, stripCode_eq,
        String.toList_ofList]

/-- Stripping by byte offsets is never at fault, whatever characters the line holds and however it begins. A
cut succeeds just between two characters, so all that are made there are. The loop stands between two
characters at every turn and comes further with each. The byte before such a place is an escape mark just when
the character before it is. What is left, and what is carried on, is what the reading of characters gives. -/
theorem strip_faultless :
    (∀ text offset, ((∃ part, upTo text offset = .ok part) ↔ String.Pos.Raw.IsValid text ⟨offset⟩) ∧
      ((∃ part, onward text offset = .ok part) ↔ String.Pos.Raw.IsValid text ⟨offset⟩)) ∧
    (∀ front rest : String, followsEscape (front ++ rest) front.utf8ByteSize =
      .ok (decide (front.toList.getLast? = some escapeMark))) ∧
    (∀ line l, Loop.Reached line l → String.Pos.Raw.IsValid line ⟨l.pos⟩ ∧ (∃ t, turn line l = .ok t) ∧
      ∀ next, turn line l = .ok (.again next) → l.pos < next.pos) ∧
    (∀ line, dropFirstBlock line =
        .ok (String.ofList (Line.dropFirstBlock line.toList).1, (Line.dropFirstBlock line.toList).2) ∧
      scan line = .ok (String.ofList (Line.scan line.toList).1, (Line.scan line.toList).2)) ∧
    ∀ carry line, strip carry line =
      .ok (String.ofList (Line.strip carry line.toList).1, (Line.strip carry line.toList).2) := by
  refine ⟨fun _ _ => exists_cut_iff, followsEscape_append, fun line l h => ?_,
    fun line => ⟨dropFirstBlock_eq line, scan_eq line⟩, strip_eq⟩
  obtain ⟨hvalid, hturn⟩ := h.exists_turn
  exact ⟨hvalid, hturn, fun next hnext => (pos_lt_of_turn hnext).1⟩

/-- A quote of one byte behind an escape mark, with a character of two bytes before them. -/
theorem strip_faultless_wide :
    Loop.Reached "é'\\'ü" ⟨5, .inString '\'', "é'\\'"⟩ ∧ String.Pos.Raw.IsValid "é'\\'ü" ⟨5⟩ ∧
      (∃ t, turn "é'\\'ü" ⟨5, .inString '\'', "é'\\'"⟩ = .ok t) ∧
      followsEscape "é'\\'ü" 4 = .ok true ∧ strip .comment "é*/ü'\\'/*'é'" = .ok ("ü'\\'", .comment) := by
  have hreached : Loop.Reached "é'\\'ü" ⟨5, .inString '\'', "é'\\'"⟩ := by
    refine .again (l := ⟨4, .inString '\'', "é'\\"⟩) ?_ rfl
    refine .again (l := ⟨3, .inString '\'', "é'"⟩) ?_ rfl
    refine .again (l := ⟨2, .code, "é"⟩) ?_ rfl
    exact .again .start rfl
  obtain ⟨-, hescape, hloop, -, hstrip⟩ := strip_faultless
  obtain ⟨hvalid, hturn, -⟩ := hloop _ _ hreached
  refine ⟨hreached, hvalid, hturn, hescape "é'\\" "'ü", ?_⟩
  rw [hstrip]
  rfl

end Offset

end CommentStrip
