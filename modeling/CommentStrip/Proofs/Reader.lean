import CommentStrip.Proofs.Lines

/-! A reader of whole texts that knows nothing of lines: one pass, one state. It is the meaning that
stripping line by line is measured against. -/
namespace CommentStrip

namespace Mark

/-- A cut is at the first place where the mark stands. -/
theorem cut?_eq_some {m : Mark} {text before after : List Char}
    (h : m.cut? text = some (before, after)) :
    text = before ++ m.toList ++ after ∧ m.cut? before = none := by
  induction text using Mark.cut?.induct m generalizing before after with
  | case1 a b rest hm =>
    obtain ⟨rfl, rfl⟩ : [] = before ∧ rest = after := by simpa [cut?, hm] using h
    simp [toList, cut?, hm]
  | case2 a b rest hm ih =>
    rw [cut?, if_neg hm] at h
    obtain ⟨⟨x, y⟩, hxy, he⟩ := Option.map_eq_some_iff.1 h
    obtain ⟨rfl, rfl⟩ : a :: x = before ∧ y = after := by simpa using he
    obtain ⟨ht, hn⟩ := ih hxy
    refine ⟨by simp [ht], ?_⟩
    cases x with
    | nil => rfl
    | cons c x =>
      obtain rfl : b = c := by simpa using congrArg List.head? ht
      simp [cut?, hm, hn]
  | case3 text hx =>
    rw [cut?] at h
    · cases h
    · exact hx

/-- Without a cut the mark stands nowhere. -/
theorem cut?_eq_none_iff {m : Mark} {text : List Char} :
    m.cut? text = none ↔ ¬ m.toList <:+: text := by
  induction text using Mark.cut?.induct m with
  | case1 a b rest hm =>
    obtain ⟨rfl, rfl⟩ := hm
    have hi : m.toList <:+: m.first :: m.second :: rest := ⟨[], rest, rfl⟩
    simp [cut?, hi]
  | case2 a b rest hm ih =>
    have hp : ¬ m.toList <+: a :: b :: rest := by simpa [toList, eq_comm] using hm
    have hi : m.toList <:+: a :: b :: rest ↔ m.toList <:+: b :: rest := by
      rw [List.infix_cons_iff]
      exact or_iff_right hp
    rw [cut?, if_neg hm, Option.map_eq_none_iff, ih, hi]
  | case3 text hx =>
    have hi : ¬ m.toList <:+: text := by
      intro h
      have hl := h.length_le
      match text, hx with
      | [], _ => simp [toList] at hl
      | [a], _ => simp [toList] at hl
      | a :: b :: rest, hx => exact hx a b rest rfl
    rw [cut?]
    · simp [hi]
    · exact hx

end Mark

namespace Reader

/-- What the reader is in the middle of. In a string it knows whether the character just read was an
escape mark. -/
inductive State where
  | code
  | inString (quote : Char) (escaped : Bool)
  | lineComment
  | blockComment
  deriving DecidableEq, Repr

/-- The state after a character that is emitted in code or in a string. A quote begins a string, and
ends it unless an escape mark stands right before it; a line feed ends it too. -/
def State.after : State → Char → State
  | .code, c => if c ∈ quotes then .inString c false else .code
  | .inString q escaped, c =>
    if c = '\n' ∨ c = q ∧ !escaped then .code else .inString q (c == escapeMark)
  | s, _ => s

/-- Reads a text from a state: what is emitted, and the state at the end. The opener and the closer of
a comment are read as one, so a comment does not end within its opener. -/
def readFrom : State → List Char → List Char × State
  | .code, '/' :: '/' :: rest => readFrom .lineComment rest
  | .code, '/' :: '*' :: rest => readFrom .blockComment rest
  | .code, c :: rest =>
    let (kept, final) := readFrom (State.code.after c) rest
    (c :: kept, final)
  | .inString q escaped, c :: rest =>
    let (kept, final) := readFrom ((State.inString q escaped).after c) rest
    (c :: kept, final)
  | .lineComment, '\n' :: rest =>
    let (kept, final) := readFrom .code rest
    ('\n' :: kept, final)
  | .lineComment, _ :: rest => readFrom .lineComment rest
  | .blockComment, '*' :: '/' :: rest => readFrom .code rest
  | .blockComment, '\n' :: rest =>
    let (kept, final) := readFrom .blockComment rest
    ('\n' :: kept, final)
  | .blockComment, _ :: rest => readFrom .blockComment rest
  | state, [] => ([], state)

/-- A line feed ends strings and line comments. -/
def State.nextLine : State → State
  | .blockComment => .blockComment
  | _ => .code

/-- What the state at the end of a line means to the next one. -/
def State.carry : State → Carry
  | .blockComment => .comment
  | _ => .code

/-- The state in which a line is read that begins as `carry` says. -/
def State.ofCarry : Carry → State
  | .code => .code
  | .comment => .blockComment

/-- The state of the scan of one line, which has no line comments. -/
def State.ofScan (escaped : Bool) : ScanState → State
  | .code => .code
  | .inString q => .inString q escaped
  | .inBlockComment => .blockComment

/-- No comment begins with `c` when `rest` follows. -/
def Bare (c : Char) (rest : List Char) : Prop :=
  ¬ lineMark.toList <+: c :: rest ∧ ¬ openMark.toList <+: c :: rest

theorem bare_iff {c : Char} {rest : List Char} :
    Bare c rest ↔ (c = '/' → ∀ d ∈ rest.head?, d ≠ '/' ∧ d ≠ '*') := by
  cases rest with
  | nil => simp [Bare, Mark.toList]
  | cons d rest =>
    simp only [Bare, Mark.toList, lineMark, openMark, List.cons_prefix_cons, List.nil_prefix,
      List.head?_cons, Option.mem_some_iff]
    grind

theorem bare_of_ne {c : Char} {rest : List Char} (h : c ≠ '/') : Bare c rest :=
  bare_iff.2 fun hc => absurd hc h

/-- Only the next character decides whether a comment begins. -/
theorem bare_append {c : Char} {text : List Char} (more : List Char) (h : text ≠ []) :
    Bare c (text ++ more) ↔ Bare c text := by
  cases text with
  | nil => exact absurd rfl h
  | cons d text => simp [bare_iff]

theorem bare_of_append {c : Char} {text more : List Char} (h : Bare c (text ++ more)) :
    Bare c text := by
  cases text with
  | nil => simp [bare_iff]
  | cons d text => exact (bare_append more (List.cons_ne_nil d text)).1 h

private theorem bare_line_feed {c : Char} {line : List Char} (rest : List Char) (h : Bare c line) :
    Bare c (line ++ '\n' :: rest) := by
  cases line with
  | nil => simp [bare_iff]
  | cons d line => exact (bare_append _ (List.cons_ne_nil d line)).2 h

/-- The form in which the cases of `readFrom` leave it. -/
theorem bare_of_forall {c : Char} {rest : List Char}
    (hl : ∀ t, c = '/' → rest = '/' :: t → False) (ho : ∀ t, c = '/' → rest = '*' :: t → False) :
    Bare c rest := by
  rw [bare_iff]
  intro hc d hd
  obtain ⟨t, rfl⟩ := List.head?_eq_some_iff.1 hd
  exact ⟨fun e => hl t hc (e ▸ rfl), fun e => ho t hc (e ▸ rfl)⟩

theorem eq_slash_of_not_bare {c : Char} {rest : List Char} (h : ¬ Bare c rest) :
    c = '/' ∧ ∃ t, rest = '/' :: t ∨ rest = '*' :: t := by
  have hc : c = '/' := by_contra fun hc => h (bare_of_ne hc)
  refine ⟨hc, by_contra fun ht => h ?_⟩
  exact bare_of_forall (fun t _ e => ht ⟨t, .inl e⟩) (fun t _ e => ht ⟨t, .inr e⟩)

theorem readFrom_code_cons {c : Char} {rest : List Char} (h : Bare c rest) :
    readFrom .code (c :: rest) =
      (c :: (readFrom (State.code.after c) rest).1, (readFrom (State.code.after c) rest).2) := by
  obtain ⟨hl, ho⟩ := h
  rw [readFrom]
  · rintro t rfl rfl
    exact hl ⟨t, rfl⟩
  · rintro t rfl rfl
    exact ho ⟨t, rfl⟩

theorem readFrom_string_cons (q : Char) (escaped : Bool) (c : Char) (rest : List Char) :
    readFrom (.inString q escaped) (c :: rest) =
      (c :: (readFrom ((State.inString q escaped).after c) rest).1,
        (readFrom ((State.inString q escaped).after c) rest).2) := rfl

@[simp] theorem readFrom_nil (s : State) : readFrom s [] = ([], s) := by
  cases s <;> rfl

theorem readFrom_line_comment {line : List Char} (h : '\n' ∉ line) :
    readFrom .lineComment line = ([], .lineComment) := by
  induction line with
  | nil => rfl
  | cons c line ih =>
    obtain ⟨hc, hl⟩ := not_or.1 (List.mem_cons.not.1 h)
    rw [readFrom]
    · exact ih hl
    · exact fun e => hc e.symm

/-- Within a line a block comment ends at its first closer. -/
theorem readFrom_block_comment {line : List Char} (h : '\n' ∉ line) :
    readFrom .blockComment line =
      match closeMark.cut? line with
      | some (_, after) => readFrom .code after
      | none => ([], .blockComment) := by
  induction line using Mark.cut?.induct closeMark with
  | case1 a b rest hm =>
    obtain ⟨rfl, rfl⟩ := hm
    rfl
  | case2 a b rest hm ih =>
    obtain ⟨ha, hr⟩ := not_or.1 (List.mem_cons.not.1 h)
    rw [Mark.cut?, if_neg hm, readFrom, ih hr]
    · cases closeMark.cut? (b :: rest) <;> rfl
    · rintro t rfl e
      exact hm ⟨rfl, (List.cons.inj e).1⟩
    · exact fun e => ha e.symm
  | case3 line hx =>
    match line, hx with
    | [], _ => rfl
    | [c], _ =>
      rw [readFrom]
      · rfl
      · simp
      · rintro rfl
        simp at h
    | a :: b :: rest, hx => exact absurd rfl (hx a b rest)

/-- Nothing but an open block comment crosses a line feed. -/
theorem readFrom_line_feed (s : State) {line : List Char} (rest : List Char) (h : '\n' ∉ line) :
    readFrom s (line ++ '\n' :: rest) =
      ((readFrom s line).1 ++ '\n' :: (readFrom (readFrom s line).2.nextLine rest).1,
        (readFrom (readFrom s line).2.nextLine rest).2) := by
  fun_induction readFrom s line with
  | case1 line ih => exact ih fun hm => h (by simp [hm])
  | case2 line ih => exact ih fun hm => h (by simp [hm])
  | case3 c line hl ho kept final he ih =>
    have hb := bare_line_feed rest (bare_of_forall hl ho)
    rw [List.cons_append, readFrom_code_cons hb, ih fun hm => h (by simp [hm]), he]
    rfl
  | case4 q escaped c line kept final he ih =>
    rw [List.cons_append, readFrom_string_cons, ih fun hm => h (by simp [hm]), he]
    rfl
  | case5 => simp at h
  | case6 c line hc ih =>
    rw [List.cons_append, readFrom]
    · exact ih fun hm => h (by simp [hm])
    · exact hc
  | case7 line ih => exact ih fun hm => h (by simp [hm])
  | case8 => simp at h
  | case9 c line hm hc ih =>
    rw [List.cons_append, readFrom]
    · exact ih fun hm => h (by simp [hm])
    · rintro t rfl e
      cases line with
      | nil => simp at e
      | cons d line => exact hm line rfl (by simp_all)
    · exact hc
  | case10 s =>
    cases s with
    | code => rfl
    | inString q escaped => simp [readFrom_string_cons, State.nextLine, State.after]
    | lineComment => rfl
    | blockComment => rfl

end Reader

end CommentStrip
