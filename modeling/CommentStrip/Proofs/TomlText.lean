import CommentStrip.Toml.Text
import Mathlib.Data.List.Basic

/-! Every string can be read back from the form in which it is written. -/
namespace CommentStrip.Toml.Text

/-- What stands for itself between double quotes ends neither the string nor the line. -/
theorem ne_of_isPlain {c : Char} (h : isPlain c = true) :
    c ≠ '"' ∧ c ≠ '\\' ∧ c ≠ '\n' ∧ c ≠ '\r' := by
  refine ⟨?_, ?_, ?_, ?_⟩ <;> rintro rfl <;> revert h <;> decide

private theorem isPrintable_of_not_isControl {c : Char} (hc : isControl c = false) (hn : c ≠ '\n') :
    isPrintable c = true := by
  by_cases ht : c = '\t'
  · simp [isPrintable, ht]
  · simp [isControl, ht, hn] at hc
    simp [isPrintable]
    omega

private theorem numbered?_of_isControl {c : Char} (h : isControl c = true) :
    numbered? ['0', '0', hexDigit (c.toNat / 16), hexDigit (c.toNat % 16)] = some c := by
  -- the numbers of control characters are few enough to try each
  have hall : ∀ n < 128,
      numbered? ['0', '0', hexDigit (n / 16), hexDigit (n % 16)] = some (Char.ofNat n) := by decide
  have hlt : c.toNat < 128 := by
    simp [isControl] at h
    omega
  rw [hall _ hlt, Char.ofNat_toNat]

/-- A character is written as a letter or a number after a backslash, or as it is. -/
theorem escape_cases {c : Char} (hq : c ≠ '"') (hn : c ≠ '\n') :
    (∃ letter, escape c = ['\\', letter] ∧ escaped? letter = some c) ∨
    (∃ a b, escape c = ['\\', 'u', '0', '0', a, b] ∧ numbered? ['0', '0', a, b] = some c) ∨
    escape c = [c] ∧ isPlain c = true := by
  unfold escape
  split_ifs with h1 h2 h3 h4 h5 h6
  · exact .inl ⟨'b', rfl, h1 ▸ rfl⟩
  · exact .inl ⟨'t', rfl, h2 ▸ rfl⟩
  · exact .inl ⟨'f', rfl, h3 ▸ rfl⟩
  · exact .inl ⟨'r', rfl, h4 ▸ rfl⟩
  · exact .inl ⟨'\\', rfl, by rw [h5]; rfl⟩
  · exact .inr (.inl ⟨_, _, rfl, numbered?_of_isControl h6⟩)
  · have hp := isPrintable_of_not_isControl (by simpa using h6) hn
    exact .inr (.inr ⟨rfl, by simp [isPlain, hp, hq, h5]⟩)

private theorem basic_escaped {letter c : Char} (h : escaped? letter = some c) (rest : List Char) :
    basic ('\\' :: letter :: rest) = push (some c) (basic rest) := by
  unfold escaped? at h
  split at h <;> cases h <;> rfl

/-- No letter that stands for a character is blank, so the backslash does not join lines. -/
theorem multiBasic_escaped {letter c : Char} (h : escaped? letter = some c) (rest : List Char) :
    multiBasic false ('\\' :: letter :: rest) = push (some c) (multiBasic false rest) := by
  unfold escaped? at h
  split at h <;> cases h <;> rfl

private theorem basic_escape {c : Char} (hq : c ≠ '"') (hn : c ≠ '\n') (rest : List Char) :
    basic (escape c ++ rest) = push (some c) (basic rest) := by
  rcases escape_cases hq hn with ⟨letter, he, hl⟩ | ⟨a, b, he, hu⟩ | ⟨he, hp⟩
  · rw [he]
    exact basic_escaped hl rest
  · rw [he, ← hu]
    rfl
  · obtain ⟨-, hb, -, -⟩ := ne_of_isPlain hp
    rw [he]
    simp [basic, hb, hp]

private theorem multiBasic_escape {c : Char} (hq : c ≠ '"') (hn : c ≠ '\n') (rest : List Char) :
    multiBasic false (escape c ++ rest) = push (some c) (multiBasic false rest) := by
  rcases escape_cases hq hn with ⟨letter, he, hl⟩ | ⟨a, b, he, hu⟩ | ⟨he, hp⟩
  · rw [he]
    exact multiBasic_escaped hl rest
  · rw [he, ← hu]
    rfl
  · obtain ⟨-, hb, -, hr⟩ := ne_of_isPlain hp
    rw [he]
    simp [multiBasic, hq, hb, hr, hp]

private theorem head?_escape_ne {c d : Char} (hq : c ≠ '"') (hn : c ≠ '\n') {rest : List Char}
    (h : d ∈ (escape c ++ rest).head?) : d ≠ '"' ∧ d ≠ '\n' ∧ d ≠ '\r' := by
  rcases escape_cases hq hn with ⟨letter, he, hl⟩ | ⟨a, b, he, hu⟩ | ⟨he, hp⟩
  · obtain rfl : '\\' = d := by simpa [he] using h
    decide
  · obtain rfl : '\\' = d := by simpa [he] using h
    decide
  · obtain rfl : c = d := by simpa [he] using h
    exact ⟨hq, hn, (ne_of_isPlain hp).2.2.2⟩

/-! Double quotes on one line. -/

private theorem basic_writeBasic (cs rest : List Char) :
    basic (writeBasic cs ++ '"' :: rest) = some (cs, rest) := by
  induction cs with
  | nil => rfl
  | cons c cs ih =>
    rw [writeBasic, List.append_assoc]
    have hunit : basic ((if c = '\n' then ['\\', 'n'] else if c = '"' then ['\\', '"'] else escape c) ++
        (writeBasic cs ++ '"' :: rest)) = push (some c) (basic (writeBasic cs ++ '"' :: rest)) := by
      split_ifs with hn hq
      · subst hn
        exact basic_escaped rfl _
      · subst hq
        exact basic_escaped rfl _
      · exact basic_escape hq hn _
    rw [hunit, ih]
    rfl

/-- Two double quotes at the start would be read as the opening of another form. -/
theorem not_prefix_writeBasic (cs : List Char) {rest : List Char} (h : '"' ∉ rest.head?) :
    ¬ ['"', '"'] <+: writeBasic cs ++ '"' :: rest := by
  cases cs with
  | nil =>
    rintro ⟨t, ht⟩
    obtain rfl : '"' :: t = rest := by simpa [writeBasic] using ht
    simp at h
  | cons c cs =>
    rintro ⟨t, ht⟩
    rw [writeBasic, List.append_assoc] at ht
    have hd := congrArg List.head? ht
    split_ifs at hd with hn hq
    · simp at hd
    · simp at hd
    · exact (head?_escape_ne hq hn hd.symm).1 rfl

private theorem read_basic (cs : List Char) {rest : List Char} (h : '"' ∉ rest.head?) :
    read (Form.basic.write cs ++ rest) = some (cs, rest) := by
  have hw : Form.basic.write cs ++ rest = '"' :: (writeBasic cs ++ '"' :: rest) := by simp [Form.write]
  rw [hw, read, basic_writeBasic]
  intro t ht
  exact not_prefix_writeBasic cs h ⟨t, ht.symm⟩

/-! Single quotes on one line. -/

private theorem le_longestRunFrom (q : Char) (run : Nat) (cs : List Char) : run ≤ longestRunFrom q run cs := by
  induction cs generalizing run with
  | nil => exact Nat.le_refl run
  | cons c cs ih =>
    rw [longestRunFrom]
    split
    · exact Nat.le_trans (Nat.le_succ run) (ih _)
    · exact Nat.le_max_left ..

private theorem not_mem_of_longestRun_eq_zero {q : Char} {cs : List Char} (h : longestRun q cs = 0) : q ∉ cs := by
  induction cs with
  | nil => simp
  | cons c cs ih =>
    rw [longestRun, longestRunFrom] at h
    split at h
    · have hle := le_longestRunFrom q (0 + 1) cs
      omega
    · next hc =>
      have hcs : longestRun q cs = 0 := by
        rw [longestRun]
        omega
      simp [Ne.symm hc, ih hcs]

private theorem literal_append {cs : List Char} (h : ∀ c ∈ cs, isVerbatim c = true) (rest : List Char) :
    literal (cs ++ '\'' :: rest) = some (cs, rest) := by
  induction cs with
  | nil => rfl
  | cons c cs ih =>
    obtain ⟨hc, hcs⟩ := List.forall_mem_cons.1 h
    have hq : c ≠ '\'' := by
      rintro rfl
      revert hc
      decide
    rw [List.cons_append, literal, if_pos hc, ih hcs]
    · rfl
    · exact hq

private theorem read_literal {cs : List Char} (hc : ∀ c ∈ cs, isControl c = false) (hq : '\'' ∉ cs)
    (hn : '\n' ∉ cs) {rest : List Char} (h : '\'' ∉ rest.head?) :
    read (Form.literal.write cs ++ rest) = some (cs, rest) := by
  have hv (c) (hm : c ∈ cs) : isVerbatim c = true := by
    have hp := isPrintable_of_not_isControl (hc c hm) fun e => hn (e ▸ hm)
    have hne : c ≠ '\'' := fun e => hq (e ▸ hm)
    simp [isVerbatim, hp, hne]
  have hw : Form.literal.write cs ++ rest = '\'' :: (cs ++ '\'' :: rest) := by simp [Form.write]
  rw [hw, read, literal_append hv]
  intro t ht
  cases cs with
  | nil =>
    obtain rfl : rest = '\'' :: t := by simpa using ht
    simp at h
  | cons c cs => exact hq (by simp [(List.cons.inj ht).1])

/-! Three quotes. -/

/-- What a reader does at a quote: three of them close the text, one or two more before those belong to it, and
any other quote is text. -/
def TakesQuotes (q : Char) (reader : List Char → Option (List Char × List Char)) : Prop :=
  ∀ cs, reader (q :: cs) =
    if [q, q, q, q] <+: cs then some ([q, q], cs.drop 4)
    else if [q, q, q] <+: cs then some ([q], cs.drop 3)
    else if [q, q] <+: cs then some ([], cs.drop 2)
    else push (some q) (reader cs)

section TakesQuotes

variable {q : Char} {reader : List Char → Option (List Char × List Char)} (hreader : TakesQuotes q reader)

include hreader

private theorem TakesQuotes.one {cs : List Char} (h : ¬ [q, q] <+: cs) : reader (q :: cs) = push (some q) (reader cs) := by
  have hfour : ¬ [q, q, q, q] <+: cs := fun hm => h ((List.prefix_append [q, q] [q, q]).trans hm)
  have hthree : ¬ [q, q, q] <+: cs := fun hm => h ((List.prefix_append [q, q] [q]).trans hm)
  rw [hreader, if_neg hfour, if_neg hthree, if_neg h]

/-- Up to two quotes before something else belong to the text. -/
theorem TakesQuotes.run {run : Nat} (hr : run ≤ 2) {cs text rest : List Char} (hq : q ∉ cs.head?)
    (h : reader cs = some (text, rest)) :
    reader (List.replicate run q ++ cs) = some (List.replicate run q ++ text, rest) := by
  have hone : ¬ [q, q] <+: cs := by
    rintro ⟨t, rfl⟩
    simp at hq
  have htwo : ¬ [q, q] <+: q :: cs := by
    rintro ⟨t, ht⟩
    obtain rfl : q :: t = cs := by simpa using ht
    simp at hq
  obtain rfl | rfl | rfl : run = 0 ∨ run = 1 ∨ run = 2 := by omega
  · exact h
  · simp [List.replicate_succ, hreader.one hone, h, push]
  · simp [List.replicate_succ, hreader.one htwo, hreader.one hone, h, push]

/-- Quotes right before the closing ones belong to the text. -/
theorem TakesQuotes.closing {run : Nat} (hr : run ≤ 2) {rest : List Char} (h : q ∉ rest.head?) :
    reader (List.replicate run q ++ q :: q :: q :: rest) = some (List.replicate run q, rest) := by
  have hrest (more : List Char) : ¬ q :: more <+: rest := by
    rintro ⟨t, rfl⟩
    simp at h
  obtain rfl | rfl | rfl : run = 0 ∨ run = 1 ∨ run = 2 := by omega
  all_goals simp [List.replicate_succ, hreader _, hrest]

end TakesQuotes

/-- What the equations of a reader say of one to five quotes. -/
private theorem TakesQuotes.of_equations {q : Char} {reader : List Char → Option (List Char × List Char)}
    (five : ∀ cs, reader (q :: q :: q :: q :: q :: cs) = some ([q, q], cs))
    (four : ∀ cs, (∀ t, cs = q :: t → False) → reader (q :: q :: q :: q :: cs) = some ([q], cs))
    (three : ∀ cs, (∀ t, cs = q :: q :: t → False) → (∀ t, cs = q :: t → False) →
      reader (q :: q :: q :: cs) = some ([], cs))
    (fewer : ∀ cs, (∀ t, cs = q :: q :: t → False) → reader (q :: cs) = push (some q) (reader cs)) :
    TakesQuotes q reader := by
  intro cs
  split_ifs with hfour hthree htwo
  · obtain ⟨t, rfl⟩ := hfour
    exact five t
  · obtain ⟨t, rfl⟩ := hthree
    refine four t ?_
    rintro t rfl
    exact hfour ⟨t, rfl⟩
  · obtain ⟨t, rfl⟩ := htwo
    refine three t ?_ ?_
    · rintro t rfl
      exact hfour ⟨t, rfl⟩
    · rintro t rfl
      exact hthree ⟨t, rfl⟩
  · refine fewer cs ?_
    rintro t rfl
    exact htwo ⟨t, rfl⟩

private theorem takesQuotes_multiLiteral : TakesQuotes '\'' multiLiteral := by
  refine .of_equations (fun _ => rfl) (fun cs hone => ?_) (fun cs htwo hone => ?_) (fun cs htwo => ?_)
  · rw [multiLiteral]
    exact hone
  · rw [multiLiteral]
    · exact htwo
    · exact hone
  · rw [multiLiteral]
    all_goals exact fun t ht => htwo _ ht

private theorem takesQuotes_multiBasic : TakesQuotes '"' (multiBasic false) := by
  refine .of_equations (fun _ => rfl) (fun cs hone => ?_) (fun cs htwo hone => ?_) (fun cs htwo => ?_)
  · rw [multiBasic]
    exact hone
  · rw [multiBasic]
    · exact htwo
    · exact hone
  · rw [multiBasic]
    all_goals exact fun t ht => htwo _ ht

private theorem replicate_append_cons (run : Nat) (q : Char) (cs : List Char) :
    List.replicate run q ++ q :: cs = List.replicate (run + 1) q ++ cs := by
  rw [List.replicate_succ', List.append_assoc, List.singleton_append]

/-- The induction is on the text with the quotes that stand before it, which are read with it. -/
theorem multiLiteral_append {run : Nat} {cs : List Char} (hc : ∀ c ∈ cs, isControl c = false)
    (hr : longestRunFrom '\'' run cs ≤ 2) {rest : List Char} (h : '\'' ∉ rest.head?) :
    multiLiteral (List.replicate run '\'' ++ (cs ++ '\'' :: '\'' :: '\'' :: rest)) =
      some (List.replicate run '\'' ++ cs, rest) := by
  induction cs generalizing run with
  | nil =>
    rw [longestRunFrom] at hr
    simpa using takesQuotes_multiLiteral.closing hr h
  | cons c cs ih =>
    obtain ⟨hhead, htail⟩ := List.forall_mem_cons.1 hc
    rw [longestRunFrom] at hr
    split at hr
    · next hq =>
      subst hq
      rw [List.cons_append, replicate_append_cons, ih htail hr, replicate_append_cons]
    · next hq =>
      -- the run of quotes ends here, and the next one is counted from nothing
      refine takesQuotes_multiLiteral.run (by omega) (by simpa using hq) ?_
      have hrest : multiLiteral (cs ++ '\'' :: '\'' :: '\'' :: rest) = some (cs, rest) :=
        @ih 0 htail (by omega)
      by_cases hn : c = '\n'
      · subst hn
        rw [List.cons_append, multiLiteral, hrest]
        rfl
      · have hp := isPrintable_of_not_isControl hhead hn
        have hcr : c ≠ '\r' := by
          rintro rfl
          revert hhead
          decide
        simp [multiLiteral, hcr, hq, isVerbatim, hp, hrest, push]

/-- As many quotes as the writer has counted stand before what it writes, and the escaped one starts the
count again. -/
theorem multiBasic_writeMultiBasic {run : Nat} (hr : run ≤ 2) (cs : List Char) {rest : List Char}
    (h : '"' ∉ rest.head?) :
    multiBasic false (List.replicate run '"' ++ (writeMultiBasic run cs ++ '"' :: '"' :: '"' :: rest)) =
      some (List.replicate run '"' ++ cs, rest) := by
  induction cs generalizing run with
  | nil => simpa [writeMultiBasic] using takesQuotes_multiBasic.closing hr h
  | cons c cs ih =>
    have hrest : multiBasic false (writeMultiBasic 0 cs ++ '"' :: '"' :: '"' :: rest) = some (cs, rest) :=
      @ih 0 (by omega)
    rw [writeMultiBasic]
    split_ifs with hq h2 hn
    · subst hq
      subst h2
      refine takesQuotes_multiBasic.run (by omega) (by simp) ?_
      rw [List.cons_append, List.cons_append, multiBasic_escaped rfl, hrest]
      rfl
    · subst hq
      rw [List.cons_append, replicate_append_cons, ih (by omega), replicate_append_cons]
    · subst hn
      refine takesQuotes_multiBasic.run hr (by simp) ?_
      rw [List.cons_append, multiBasic, hrest]
      rfl
    · refine takesQuotes_multiBasic.run hr (fun hd => ?_) ?_
      · rw [List.append_assoc] at hd
        exact (head?_escape_ne hq hn hd).1 rfl
      · rw [List.append_assoc, multiBasic_escape hq hn, hrest]
        rfl

private theorem opening_append (quotes cs text : List Char) :
    opening quotes cs ++ text = quotes ++ (opening [] cs ++ text) := by
  unfold opening
  split <;> simp

/-- The line end that opens a text of several lines is left out again, and there is none to leave out in
front of any other. -/
theorem afterOpening_opening {cs text : List Char}
    (h : '\n' ∉ cs → ∀ c ∈ text.head?, c ≠ '\n' ∧ c ≠ '\r') :
    afterOpening (opening [] cs ++ text) = text := by
  by_cases hn : '\n' ∈ cs
  · simp [opening, hn, afterOpening, lineBreak?]
  · cases text with
    | nil => simp [opening, hn, afterOpening, lineBreak?]
    | cons c text =>
      obtain ⟨hline, hreturn⟩ := h hn c rfl
      simp [opening, hn, afterOpening, lineBreak?, hline, hreturn]

private theorem read_multiLiteral {cs : List Char} (hc : ∀ c ∈ cs, isControl c = false)
    (hr : longestRun '\'' cs ≤ 2) {rest : List Char} (h : '\'' ∉ rest.head?) :
    read (Form.multiLiteral.write cs ++ rest) = some (cs, rest) := by
  have hwritten : Form.multiLiteral.write cs ++ rest =
      '\'' :: '\'' :: '\'' :: (opening [] cs ++ (cs ++ '\'' :: '\'' :: '\'' :: rest)) := by
    simp [Form.write, opening_append ['\'', '\'', '\'']]
  have hhead (hn : '\n' ∉ cs) (d) (hd : d ∈ (cs ++ '\'' :: '\'' :: '\'' :: rest).head?) :
      d ≠ '\n' ∧ d ≠ '\r' := by
    cases cs with
    | nil =>
      obtain rfl : '\'' = d := by simpa using hd
      decide
    | cons c cs =>
      obtain rfl : c = d := by simpa using hd
      refine ⟨fun e => hn (by simp [e]), ?_⟩
      rintro rfl
      exact absurd (hc _ List.mem_cons_self) (by decide)
  have hread : multiLiteral (cs ++ '\'' :: '\'' :: '\'' :: rest) = some (cs, rest) :=
    @multiLiteral_append 0 cs hc hr rest h
  rw [hwritten, read, afterOpening_opening hhead, hread]

private theorem head?_writeMultiBasic {run : Nat} {cs : List Char} (hn : '\n' ∉ cs) {d : Char} {rest : List Char}
    (h : d ∈ (writeMultiBasic run cs ++ '"' :: rest).head?) : d ≠ '\n' ∧ d ≠ '\r' := by
  cases cs with
  | nil =>
    obtain rfl : '"' = d := by simpa [writeMultiBasic] using h
    decide
  | cons c cs =>
    have hcn : c ≠ '\n' := fun e => hn (by simp [e])
    rw [writeMultiBasic] at h
    split_ifs at h with hq h2
    · obtain rfl : '\\' = d := by simpa using h
      decide
    · obtain rfl : '"' = d := by simpa using h
      decide
    · rw [List.append_assoc] at h
      exact (head?_escape_ne hq hcn h).2

private theorem read_multiBasic (cs : List Char) {rest : List Char} (h : '"' ∉ rest.head?) :
    read (Form.multiBasic.write cs ++ rest) = some (cs, rest) := by
  have hwritten : Form.multiBasic.write cs ++ rest =
      '"' :: '"' :: '"' :: (opening [] cs ++ (writeMultiBasic 0 cs ++ '"' :: '"' :: '"' :: rest)) := by
    simp [Form.write, opening_append ['"', '"', '"']]
  have hread : multiBasic false (writeMultiBasic 0 cs ++ '"' :: '"' :: '"' :: rest) = some (cs, rest) :=
    @multiBasic_writeMultiBasic 0 (by omega) cs rest h
  rw [hwritten, read, afterOpening_opening fun hn _ => head?_writeMultiBasic hn, hread]

/-! All forms. -/

/-- The forms without escapes are chosen for texts that need none. -/
theorem of_choose_eq_literal {cs : List Char} (h : Form.choose cs = .literal) :
    (∀ c ∈ cs, isControl c = false) ∧ '\'' ∉ cs ∧ '\n' ∉ cs := by
  have hfits : cs.any isControl = false ∧ longestRun '\'' cs = 0 ∧ cs.contains '\n' = false := by
    grind [Form.choose]
  obtain ⟨hc, hq, hn⟩ := hfits
  exact ⟨by simpa using hc, not_mem_of_longestRun_eq_zero hq, by simpa using hn⟩

private theorem of_choose_eq_multiLiteral {cs : List Char} (h : Form.choose cs = .multiLiteral) :
    (∀ c ∈ cs, isControl c = false) ∧ longestRun '\'' cs ≤ 2 := by
  have hfits : cs.any isControl = false ∧ longestRun '\'' cs ≤ 2 := by grind [Form.choose]
  exact ⟨by simpa using hfits.1, hfits.2⟩

/-- A written text reads back, whatever follows it but a quote. -/
theorem read_write (cs : List Char) {rest : List Char} (hd : '"' ∉ rest.head?) (hs : '\'' ∉ rest.head?) :
    read (write cs ++ rest) = some (cs, rest) := by
  rw [write]
  cases hform : Form.choose cs with
  | basic => exact read_basic cs hd
  | literal =>
    obtain ⟨hc, hq, hn⟩ := of_choose_eq_literal hform
    exact read_literal hc hq hn hs
  | multiBasic => exact read_multiBasic cs hd
  | multiLiteral =>
    obtain ⟨hc, hr⟩ := of_choose_eq_multiLiteral hform
    exact read_multiLiteral hc hr hs

end CommentStrip.Toml.Text
