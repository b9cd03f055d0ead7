import CommentStrip.Proofs.Reader

/-! Stripping line by line agrees with the reader, for texts in which every line's first block opener
stands in code. -/
namespace CommentStrip

open Reader

namespace Line

/-- On one line the scan is the reader: it stops where the reader skips a line comment. -/
theorem scanFrom_eq_readFrom (escaped : Bool) (s : ScanState) {line : List Char} (h : '\n' ∉ line) :
    scanFrom escaped s line =
      ((readFrom (.ofScan escaped s) line).1, (readFrom (.ofScan escaped s) line).2.carry) := by
  fun_induction scanFrom escaped s line with
  | case1 escaped line =>
    have hl : '\n' ∉ line := fun hm => h (by simp [hm])
    rw [State.ofScan, readFrom, readFrom_line_comment hl]
    rfl
  | case2 escaped line ih => exact ih fun hm => h (by simp [hm])
  | case3 escaped c line hl ho kept carry he ih =>
    have hr := he.symm.trans (ih fun hm => h (by simp [hm]))
    have hs : State.ofScan false (if c ∈ quotes then .inString c else .code) =
        State.code.after c := by
      simp only [State.after]
      split <;> rfl
    rw [hs, Prod.mk.injEq] at hr
    rw [State.ofScan, readFrom_code_cons (bare_of_forall hl ho), hr.1, hr.2]
  | case4 escaped q c line kept carry he ih =>
    have hr := he.symm.trans (ih fun hm => h (by simp [hm]))
    have hc : c ≠ '\n' := fun e => h (by simp [e])
    have hs : State.ofScan (c == escapeMark) (if c = q ∧ !escaped then .code else .inString q) =
        (State.inString q escaped).after c := by
      simp only [State.after, hc, false_or]
      split <;> rfl
    rw [hs, Prod.mk.injEq] at hr
    rw [State.ofScan, readFrom_string_cons, hr.1, hr.2]
  | case5 escaped line ih => exact ih fun hm => h (by simp [hm])
  | case6 escaped c line hm ih =>
    rw [State.ofScan, readFrom]
    · exact ih fun hm => h (by simp [hm])
    · exact hm
    · exact fun e => h (by simp [e])
  | case7 => rfl
  | case8 escaped s hs => cases s <;> simp_all [State.ofScan, State.carry]

theorem scan_eq_readFrom {line : List Char} (h : '\n' ∉ line) :
    scan line = ((readFrom .code line).1, (readFrom .code line).2.carry) :=
  scanFrom_eq_readFrom false .code h

end Line

namespace Reader

/-- What is emitted never opens a comment. -/
theorem after_ne_block_comment {s : State} (hs : s ≠ .blockComment) (c : Char) :
    s.after c ≠ .blockComment := by
  cases s with
  | code => simp only [State.after]; split <;> simp
  | inString q escaped => simp only [State.after]; split <;> simp
  | lineComment => exact hs
  | blockComment => exact hs

/-- Up to an opener that is met in code all is kept, whatever then follows. The opener's own slash is
why nothing before it can join with what follows. -/
theorem readFrom_before_opener {s : State} {before : List Char} (hn : '\n' ∉ before)
    (hf : openMark.cut? before = none) (hs : s ≠ .blockComment)
    (h : (readFrom s (before ++ openMark.toList)).2 = .blockComment) (rest : List Char) :
    readFrom s (before ++ rest) = (before ++ (readFrom .code rest).1, (readFrom .code rest).2) := by
  induction before generalizing s with
  | nil =>
    cases s with
    | code => rfl
    | inString q escaped =>
      simp only [List.nil_append, openMark, Mark.toList, readFrom_string_cons, State.after] at h
      split at h
      · cases h
      · simp only [readFrom_string_cons, readFrom_nil, State.after] at h
        split at h <;> cases h
    | lineComment => cases h
    | blockComment => exact absurd rfl hs
  | cons c before ih =>
    obtain ⟨hc, hb⟩ := not_or.1 (List.mem_cons.not.1 hn)
    have hf' : openMark.cut? before = none := by
      rw [Mark.cut?_eq_none_iff] at hf ⊢
      exact fun hi => hf (List.infix_cons hi)
    cases s with
    | code =>
      by_cases hd : Bare c (before ++ openMark.toList)
      · have hr : Bare c (before ++ rest) := by
          cases before with
          | nil => exact bare_of_ne fun e => (bare_iff.1 hd e '/' rfl).1 rfl
          | cons d before => rwa [bare_append _ (by simp)] at hd ⊢
        rw [List.cons_append, readFrom_code_cons hd] at h
        rw [List.cons_append, readFrom_code_cons hr, ih hb hf' (after_ne_block_comment (by simp) c) h]
        rfl
      · obtain ⟨rfl, t, ht | ht⟩ := eq_slash_of_not_bare hd
        · have hn : '\n' ∉ t := by
            have hm : '\n' ∉ before ++ openMark.toList := by simp [hb, openMark, Mark.toList]
            rw [ht] at hm
            exact fun ht => hm (by simp [ht])
          rw [List.cons_append, ht, readFrom, readFrom_line_comment hn] at h
          cases h
        · cases before with
          | nil => simp [openMark, Mark.toList] at ht
          | cons d before =>
            obtain rfl : d = '*' := by simpa using congrArg List.head? ht
            cases hf
    | inString q escaped =>
      rw [List.cons_append, readFrom_string_cons] at h ⊢
      rw [ih hb hf' (after_ne_block_comment (by simp) c) h]
      rfl
    | lineComment =>
      rw [readFrom_line_comment] at h
      · cases h
      · simp [hc, hb, openMark, Mark.toList]
    | blockComment => exact absurd rfl hs

/-- The part of a line that is read as code or string: what follows the carried comment, if that
ends on the line. -/
def live : State → List Char → Option (List Char)
  | .blockComment, line => (closeMark.cut? line).map Prod.snd
  | _, line => some line

/-- The first block opener, if there is one, is met in code: with it the reader is in a comment. In a
string, in a line comment, or with its slash taken for the second one of a line comment, it is not. -/
def opensInCode (part : List Char) : Bool :=
  match openMark.cut? part with
  | some (before, _) => (readFrom .code (before ++ openMark.toList)).2 == .blockComment
  | none => true

/-- To be met in code is to have all before it kept and code from there on, whatever follows. -/
theorem opensInCode_iff {part : List Char} (hn : '\n' ∉ part) :
    opensInCode part = true ↔ ∀ before body, openMark.cut? part = some (before, body) → ∀ rest,
      readFrom .code (before ++ rest) = (before ++ (readFrom .code rest).1, (readFrom .code rest).2) := by
  unfold opensInCode
  cases hc : openMark.cut? part with
  | none => simp
  | some cut =>
    obtain ⟨before, body⟩ := cut
    obtain ⟨rfl, hf⟩ := Mark.cut?_eq_some hc
    have hb : '\n' ∉ before := fun hm => hn (by simp [hm])
    simp only [beq_iff_eq]
    constructor
    · rintro h before' body' he
      obtain ⟨rfl, rfl⟩ : before = before' ∧ body = body' := by simpa using he
      exact readFrom_before_opener hb hf (by simp) h
    · intro h
      rw [h before body rfl]
      rfl

/-- On every line, the first block opener of the part that is live is met in code. -/
def allOpenInCode : State → List (List Char) → Bool
  | _, [] => true
  | s, line :: others =>
    (live s line).all opensInCode && allOpenInCode (readFrom s (line ++ ['\n'])).2 others

end Reader

namespace Line

private theorem stripCode_eq_readFrom {line : List Char} (hn : '\n' ∉ line) (h : opensInCode line = true) :
    stripCode line = (Text.trimEnd (readFrom .code line).1, (readFrom .code line).2.carry) := by
  have hcode := (opensInCode_iff hn).1 h
  cases hc : openMark.cut? line with
  | none => simp [stripCode, dropFirstBlock, hc, scan_eq_readFrom hn, Carry.or]
  | some cut =>
    obtain ⟨before, body⟩ := cut
    have hr := hcode before body hc
    obtain ⟨rfl, -⟩ := Mark.cut?_eq_some hc
    simp only [List.append_assoc, List.mem_append, not_or] at hn
    obtain ⟨hb, -, hm⟩ := hn
    have hblock : readFrom .code (openMark.toList ++ body) = readFrom .blockComment body := rfl
    rw [List.append_assoc] at hc
    rw [List.append_assoc, hr, hblock, readFrom_block_comment hm]
    cases hd : closeMark.cut? body with
    | none =>
      have hs : scan before = (before, .code) := by
        have hend := hr []
        rw [List.append_nil] at hend
        rw [scan_eq_readFrom hb, hend, readFrom_nil, List.append_nil]
        rfl
      simp [stripCode, dropFirstBlock, hc, hd, hs, Carry.or, State.carry]
    | some cut =>
      obtain ⟨inner, after⟩ := cut
      have ha : '\n' ∉ before ++ after := by
        obtain ⟨rfl, -⟩ := Mark.cut?_eq_some hd
        simp_all
      simp [stripCode, dropFirstBlock, hc, hd, scan_eq_readFrom ha, hr, Carry.or]

private theorem strip_eq_readFrom {carry : Carry} {line : List Char} (hn : '\n' ∉ line)
    (h : (live (.ofCarry carry) line).all opensInCode = true) :
    strip carry line =
      (Text.trimEnd (readFrom (.ofCarry carry) line).1, (readFrom (.ofCarry carry) line).2.carry) := by
  cases carry with
  | code => exact stripCode_eq_readFrom hn (by simpa [live, State.ofCarry] using h)
  | comment =>
    rw [State.ofCarry, readFrom_block_comment hn]
    cases hc : closeMark.cut? line with
    | none => simp [strip, hc, Text.trimEnd, State.carry]
    | some cut =>
      obtain ⟨inner, after⟩ := cut
      have ho : opensInCode after = true := by simpa [live, State.ofCarry, hc] using h
      have ha : '\n' ∉ after := by
        rw [(Mark.cut?_eq_some hc).1] at hn
        exact fun hm => hn (by simp [hm])
      simpa [strip, hc] using stripCode_eq_readFrom ha ho

end Line

namespace Reader

private theorem not_mem_readFrom (s : State) {line : List Char} (h : '\n' ∉ line) :
    '\n' ∉ (readFrom s line).1 := by
  fun_induction readFrom s line <;> simp_all

@[simp] theorem ofCarry_carry (s : State) : State.ofCarry s.carry = s.nextLine := by
  cases s <;> rfl

private theorem readFrom_whole_line (s : State) {line : List Char} (h : '\n' ∉ line) :
    (readFrom s (line ++ ['\n'])).2 = (readFrom s line).2.nextLine := by
  rw [readFrom_line_feed s [] h, readFrom_nil]

private theorem allOpenInCode_take {s : State} {ls : List (List Char)} (h : allOpenInCode s ls = true)
    (n : Nat) : allOpenInCode s (ls.take n) = true := by
  induction ls generalizing s n with
  | nil => simp [allOpenInCode]
  | cons line others ih =>
    cases n with
    | zero => rfl
    | succ n =>
      obtain ⟨hl, ho⟩ := Bool.and_eq_true_iff.1 h
      exact Bool.and_eq_true_iff.2 ⟨hl, ih ho n⟩

end Reader

namespace Source

/-- Each line hands on the state that the reader has at its end. -/
theorem stripFrom_eq_readFrom {carry : Carry} {ls : List (List Char)} (hne : ls ≠ [])
    (hn : ∀ line ∈ ls, '\n' ∉ line) (h : allOpenInCode (.ofCarry carry) ls = true) :
    stripFrom carry ls =
      ((lines (readFrom (.ofCarry carry) (unlines ls)).1).map Text.trimEnd,
        (readFrom (.ofCarry carry) (unlines ls)).2.carry) := by
  induction ls generalizing carry with
  | nil => exact absurd rfl hne
  | cons line others ih =>
    obtain ⟨hl, ho⟩ := Bool.and_eq_true_iff.1 h
    have hline : '\n' ∉ line := hn line (by simp)
    have hstrip := Line.strip_eq_readFrom hline hl
    have hkept := not_mem_readFrom (.ofCarry carry) hline
    by_cases hothers : others = []
    · subst hothers
      simp [stripFrom, hstrip, unlines, lines_of_not_mem hkept]
    · rw [readFrom_whole_line _ hline, ← ofCarry_carry] at ho
      have hrest := ih hothers (fun l hm => hn l (by simp [hm])) ho
      rw [unlines_cons hothers, readFrom_line_feed _ _ hline, lines_append_line_feed hkept,
        ← ofCarry_carry]
      simp [stripFrom, hstrip, hrest]

/-- Where every first opener of a line is met in code, stripping line by line gives the lines that the
reader emits, less their blank tails. After every line a comment is carried just when the reader is in
a block comment. -/
theorem stripLines_eq_reading (text : List Char) (h : allOpenInCode .code (lines text) = true) :
    stripLines text = (lines (readFrom .code text).1).map Text.trimEnd ∧
      ∀ n, (stripFrom .code ((lines text).take n)).2 =
        (readFrom .code (unlines ((lines text).take n))).2.carry := by
  have hn (line) (hm : line ∈ lines text) : '\n' ∉ line := not_mem_of_mem_lines hm
  constructor
  · have hs := @stripFrom_eq_readFrom .code _ (lines_ne_nil text) hn h
    rw [unlines_lines] at hs
    exact congrArg Prod.fst hs
  · intro n
    cases n with
    | zero => rfl
    | succ n =>
      have hne : (lines text).take (n + 1) ≠ [] := by simp [lines_ne_nil]
      have hs := @stripFrom_eq_readFrom .code _ hne (fun l hm => hn l (List.mem_of_mem_take hm))
        (allOpenInCode_take h (n + 1))
      exact congrArg Prod.snd hs

/-- Comments side by side, one that is carried over a quote, a string with an escaped quote and a line
mark in it, and an opener within a line comment. -/
theorem stripLines_eq_reading_carried :
    let text := "a /*x*//*/ b */ '//' /* c\n \"d */ 'e\\'//' /* f */ g // /*\nh".toList
    allOpenInCode .code (lines text) = true ∧
      stripLines text = (lines (readFrom .code text).1).map Text.trimEnd ∧
        ∀ n, (stripFrom .code ((lines text).take n)).2 =
          (readFrom .code (unlines ((lines text).take n))).2.carry :=
  ⟨by decide, stripLines_eq_reading _ (by decide)⟩

end Source

end CommentStrip
