import CommentStrip.Proofs.Reader
import Mathlib.Logic.Relation

/-! The scan of a line step by step: where it comes to, and which marks it meets in code. Here a line
feed is a character like any other. -/
namespace CommentStrip

open Reader

namespace ScanState

/-- The state after a character that is kept. -/
def after (escaped : Bool) : ScanState → Char → ScanState
  | .code, c => if c ∈ quotes then .inString c else .code
  | .inString q, c => if c = q ∧ !escaped then .code else .inString q
  | .inBlockComment, _ => .inBlockComment

/-- Comments leave code behind. -/
def outside : ScanState → ScanState
  | .inBlockComment => .code
  | s => s

theorem after_ne_comment {s : ScanState} (hs : s ≠ .inBlockComment) (escaped : Bool) (c : Char) :
    s.after escaped c ≠ .inBlockComment := by
  cases s with
  | code => simp only [after]; split <;> simp
  | inString q => simp only [after]; split <;> simp
  | inBlockComment => exact hs

private theorem outside_of_ne_comment {s : ScanState} (hs : s ≠ .inBlockComment) : s.outside = s := by
  cases s with
  | code => rfl
  | inString q => rfl
  | inBlockComment => exact absurd rfl hs

end ScanState

namespace Line

/-- Where a scan stands: whether the character just read in a string was an escape mark, the state, and
what is still to be read. -/
structure Cursor where
  escaped : Bool
  state : ScanState
  rest : List Char

namespace Cursor

def scan (c : Cursor) : List Char × Carry := scanFrom c.escaped c.state c.rest

/-- One step of a scan, with what is kept of the characters read. -/
inductive Step : Cursor → List Char → Cursor → Prop
  | keep {escaped : Bool} {s : ScanState} {ch : Char} {rest : List Char} (hs : s ≠ .inBlockComment)
      (hb : s = .code → Bare ch rest) :
      Step ⟨escaped, s, ch :: rest⟩ [ch] ⟨s.isInString && ch == escapeMark, s.after escaped ch, rest⟩
  | enter {escaped : Bool} {rest : List Char} :
      Step ⟨escaped, .code, openMark.toList ++ rest⟩ [] ⟨false, .inBlockComment, rest⟩
  | leave {escaped : Bool} {rest : List Char} :
      Step ⟨escaped, .inBlockComment, closeMark.toList ++ rest⟩ [] ⟨false, .code, rest⟩
  | skip {escaped : Bool} {ch : Char} {rest : List Char} (hc : ¬ closeMark.toList <+: ch :: rest) :
      Step ⟨escaped, .inBlockComment, ch :: rest⟩ [] ⟨false, .inBlockComment, rest⟩

/-- The scan ends with the line, and at a line comment. -/
def Stopped (c : Cursor) : Prop := c.rest = [] ∨ c.state = .code ∧ lineMark.toList <+: c.rest

theorem scan_of_step {c d : Cursor} {kept : List Char} (h : Step c kept d) :
    c.scan = (kept ++ d.scan.1, d.scan.2) := by
  cases h with
  | @keep escaped s ch rest hs hb =>
    cases s with
    | code =>
      obtain ⟨hl, ho⟩ := hb rfl
      simp only [scan]
      rw [scanFrom]
      · rfl
      · rintro t rfl rfl
        exact hl ⟨t, rfl⟩
      · rintro t rfl rfl
        exact ho ⟨t, rfl⟩
    | inString q => rfl
    | inBlockComment => exact absurd rfl hs
  | enter => rfl
  | leave => rfl
  | @skip escaped ch rest hc =>
    simp only [scan]
    rw [scanFrom]
    · rfl
    · rintro t rfl rfl
      exact hc ⟨t, rfl⟩

theorem scan_of_stopped {c : Cursor} (h : c.Stopped) :
    c.scan = ([], if c.state = .inBlockComment then .comment else .code) := by
  obtain ⟨escaped, s, rest⟩ := c
  rcases h with rfl | ⟨rfl, rest, rfl⟩
  · cases s <;> rfl
  · rfl

private theorem exists_step (c : Cursor) : c.Stopped ∨ ∃ kept d, Step c kept d := by
  obtain ⟨escaped, s, _ | ⟨ch, rest⟩⟩ := c
  · exact .inl (.inl rfl)
  · cases s with
    | code =>
      by_cases hb : Bare ch rest
      · exact .inr ⟨_, _, .keep (by simp) fun _ => hb⟩
      · obtain ⟨rfl, t, rfl | rfl⟩ := eq_slash_of_not_bare hb
        · exact .inl (.inr ⟨rfl, t, rfl⟩)
        · exact .inr ⟨_, _, .enter⟩
    | inString q => exact .inr ⟨_, _, .keep (by simp) (by simp)⟩
    | inBlockComment =>
      by_cases hc : closeMark.toList <+: ch :: rest
      · obtain ⟨t, ht⟩ := hc
        rw [← ht]
        exact .inr ⟨_, _, .leave⟩
      · exact .inr ⟨_, _, .skip hc⟩

theorem length_lt_of_step {c d : Cursor} {kept : List Char} (h : Step c kept d) :
    kept.length + d.rest.length ≤ c.rest.length ∧ d.rest.length < c.rest.length := by
  cases h <;> simp [Mark.toList] <;> omega

/-- A scan stops: what holds where it stops and is passed on backwards by a step holds everywhere. -/
theorem induction {motive : Cursor → Prop} (stop : ∀ c, c.Stopped → motive c)
    (step : ∀ c kept d, Step c kept d → motive d → motive c) (c : Cursor) : motive c := by
  induction hn : c.rest.length using Nat.strongRecOn generalizing c with
  | ind n ih =>
    rcases exists_step c with hc | ⟨kept, d, hd⟩
    · exact stop c hc
    · exact step c kept d hd (ih _ (hn ▸ (length_lt_of_step hd).2) d rfl)

theorem Step.unique {c d d' : Cursor} {kept kept' : List Char} (h : Step c kept d)
    (h' : Step c kept' d') : d = d' := by
  cases h with
  | keep hs hb =>
    cases h' with
    | keep => rfl
    | enter => exact absurd ⟨_, rfl⟩ (hb rfl).2
    | leave => exact absurd rfl hs
    | skip => exact absurd rfl hs
  | enter =>
    cases h' with
    | keep hs hb => exact absurd ⟨_, rfl⟩ (hb rfl).2
    | enter => rfl
  | leave =>
    cases h' with
    | keep hs hb => exact absurd rfl hs
    | leave => rfl
    | skip hc => exact absurd ⟨_, rfl⟩ hc
  | skip hc =>
    cases h' with
    | keep hs hb => exact absurd rfl hs
    | leave => exact absurd ⟨_, rfl⟩ hc
    | skip => rfl

private theorem length_scan_le (c : Cursor) : c.scan.1.length ≤ c.rest.length := by
  induction c using induction with
  | stop c h => simp [scan_of_stopped h]
  | step c kept d h ih =>
    have hl := (length_lt_of_step h).1
    rw [scan_of_step h, List.length_append]
    omega

/-- A scan comes from one cursor to another. -/
def Reaches : Cursor → Cursor → Prop := Relation.ReflTransGen fun c d => ∃ kept, Step c kept d

theorem Reaches.suffix {c d : Cursor} (h : Reaches c d) : d.rest <:+ c.rest := by
  induction h with
  | refl => exact List.suffix_rfl
  | tail _ hstep ih =>
    obtain ⟨kept, hstep⟩ := hstep
    refine List.IsSuffix.trans ?_ ih
    cases hstep with
    | keep hs hb => exact List.suffix_cons ..
    | enter => exact List.suffix_append ..
    | leave => exact List.suffix_append ..
    | skip hc => exact List.suffix_cons ..

/-- Neither at the cursor nor further on does a comment begin. -/
def Undisturbed (c : Cursor) : Prop :=
  ∀ d, Reaches c d → d.state = .code → ¬ lineMark.toList <+: d.rest ∧ ¬ openMark.toList <+: d.rest

private theorem undisturbed_iff_of_step {c d : Cursor} {kept : List Char} (h : Step c kept d) :
    c.Undisturbed ↔ (c.state = .code → ¬ lineMark.toList <+: c.rest ∧ ¬ openMark.toList <+: c.rest) ∧
      d.Undisturbed := by
  constructor
  · intro hc
    exact ⟨hc c .refl, fun e he => hc e (.head ⟨kept, h⟩ he)⟩
  · rintro ⟨hc, hd⟩ e he
    rcases he.cases_head with rfl | ⟨d', ⟨kept', h'⟩, he'⟩
    · exact hc
    · obtain rfl := h.unique h'
      exact hd e he'

private theorem undisturbed_nil (escaped : Bool) (s : ScanState) : Undisturbed ⟨escaped, s, []⟩ := by
  intro d hd _
  rcases hd.cases_head with rfl | ⟨d', ⟨kept, h⟩, -⟩
  · simp [Mark.toList]
  · cases h

/-- The scan gives back what it reads just when no comment begins there. -/
theorem scan_eq_self_iff {c : Cursor} (hc : c.state ≠ .inBlockComment) :
    c.scan = (c.rest, .code) ↔ c.Undisturbed := by
  induction c using induction with
  | stop c h =>
    rw [scan_of_stopped h, if_neg hc]
    obtain ⟨escaped, s, rest⟩ := c
    rcases h with rfl | ⟨hs, hl⟩
    · exact iff_of_true rfl (undisturbed_nil escaped s)
    · refine iff_of_false (fun h => ?_) fun h => (h _ .refl hs).1 hl
      obtain rfl : [] = rest := (Prod.mk.inj h).1
      simp [Mark.toList] at hl
  | step c kept d h ih =>
    rw [undisturbed_iff_of_step h, scan_of_step h]
    cases h with
    | keep hs hb =>
      rw [← ih (ScanState.after_ne_comment hs _ _)]
      refine Iff.trans ?_ (and_iff_right hb).symm
      simp [Prod.ext_iff]
    | @enter escaped rest =>
      -- the opener itself is lost, and nothing can be put in its place
      refine iff_of_false (fun h => ?_) fun h => (h.1 rfl).2 ⟨_, rfl⟩
      have hl := length_scan_le ⟨false, .inBlockComment, rest⟩
      have he := congrArg List.length (Prod.mk.inj h).1
      simp [Mark.toList] at hl he
      omega
    | leave => exact absurd rfl hc
    | skip => exact absurd rfl hc

private theorem undisturbed_of_append {escaped : Bool} {s : ScanState} {a b : List Char}
    (hs : s ≠ .inBlockComment) (h : Undisturbed ⟨escaped, s, a ++ b⟩) :
    Undisturbed ⟨escaped, s, a⟩ := by
  induction a generalizing escaped s with
  | nil => exact undisturbed_nil escaped s
  | cons ch a ih =>
    have hb : s = .code → Bare ch (a ++ b) := h _ .refl
    have hstep : Step ⟨escaped, s, ch :: (a ++ b)⟩ [ch] _ := .keep hs hb
    have hrest := ih (ScanState.after_ne_comment hs _ _) ((undisturbed_iff_of_step hstep).1 h).2
    have hb' (hc : s = .code) : Bare ch a := bare_of_append (hb hc)
    exact (undisturbed_iff_of_step (.keep hs hb')).2 ⟨hb', hrest⟩

/-- In code no character is escaped. -/
theorem scan_code (escaped escaped' : Bool) (line : List Char) :
    scan ⟨escaped, .code, line⟩ = scan ⟨escaped', .code, line⟩ := by
  rcases exists_step ⟨escaped, .code, line⟩ with h | ⟨kept, d, h⟩
  · have h' : Stopped ⟨escaped', .code, line⟩ := h
    rw [scan_of_stopped h, scan_of_stopped h']
  · have h' : Step ⟨escaped', .code, line⟩ kept d := by
      cases h with
      | keep hs hb => exact .keep hs hb
      | enter => exact .enter
    rw [scan_of_step h, scan_of_step h']

theorem head?_scan_code {escaped : Bool} {line : List Char} (h : ∀ ch ∈ line.head?, ch ≠ '/') :
    (scan ⟨escaped, .code, line⟩).1.head? = line.head? := by
  cases line with
  | nil => rfl
  | cons ch line =>
    rw [scan_of_step (.keep (by simp) fun _ => bare_of_ne (h ch rfl))]
    rfl

/-- What a scan keeps is given back by a second scan, which goes through the same states. A slash that is
kept is followed by the character that followed it before, so no mark is made. -/
theorem scan_scan (c : Cursor) :
    scan ⟨c.escaped, c.state.outside, c.scan.1⟩ = (c.scan.1, .code) := by
  induction c using induction with
  | stop c h =>
    rw [scan_of_stopped h]
    cases c.state <;> rfl
  | step c kept d h ih =>
    rw [scan_of_step h]
    cases h with
    | @keep escaped s ch rest hs hb =>
      rw [ScanState.outside_of_ne_comment (ScanState.after_ne_comment hs _ _)] at ih
      have hb' (hc : s = .code) :
          Bare ch (scan ⟨s.isInString && ch == escapeMark, s.after escaped ch, rest⟩).1 := by
        rw [bare_iff]
        rintro rfl
        subst hc
        have hd := bare_iff.1 (hb rfl) rfl
        rw [show ScanState.code.after escaped '/' = .code from rfl, head?_scan_code fun d hm => (hd d hm).1]
        exact hd
      rw [ScanState.outside_of_ne_comment hs, List.singleton_append, scan_of_step (.keep hs hb'), ih]
      rfl
    -- within a comment nothing is kept, and after it the scan goes on as in code
    | enter => exact (scan_code _ false _).trans ih
    | leave => exact (scan_code _ false _).trans ih
    | skip => exact (scan_code _ false _).trans ih

end Cursor

/-- The scan of a line comes, in code, to a place where the mark stands. -/
def Meets (m : Mark) (line : List Char) : Prop :=
  ∃ c, Cursor.Reaches ⟨false, .code, line⟩ c ∧ c.state = .code ∧ m.toList <+: c.rest

theorem Meets.infix {m : Mark} {line : List Char} (h : Meets m line) : m.toList <:+: line := by
  obtain ⟨c, hc, -, hm⟩ := h
  exact hm.isInfix.trans hc.suffix.isInfix

theorem scan_eq_self_iff_not_meets (line : List Char) :
    scan line = (line, .code) ↔ ¬ Meets lineMark line ∧ ¬ Meets openMark line := by
  have h := @Cursor.scan_eq_self_iff ⟨false, .code, line⟩ (by simp)
  refine h.trans ?_
  constructor
  · intro hu
    exact ⟨fun ⟨c, hc, hs, hm⟩ => (hu c hc hs).1 hm, fun ⟨c, hc, hs, hm⟩ => (hu c hc hs).2 hm⟩
  · rintro ⟨hl, ho⟩ c hc hs
    exact ⟨fun hm => hl ⟨c, hc, hs, hm⟩, fun hm => ho ⟨c, hc, hs, hm⟩⟩

theorem scan_scan (line : List Char) : scan (scan line).1 = ((scan line).1, .code) :=
  Cursor.scan_scan ⟨false, .code, line⟩

/-- What stands before the end of a line that is kept whole is kept whole too. -/
theorem scan_of_append {a b : List Char} (h : scan (a ++ b) = (a ++ b, .code)) :
    scan a = (a, .code) := by
  have hc : ScanState.code ≠ .inBlockComment := by simp
  have hu := (@Cursor.scan_eq_self_iff ⟨false, .code, a ++ b⟩ hc).1 h
  exact (@Cursor.scan_eq_self_iff ⟨false, .code, a⟩ hc).2 (Cursor.undisturbed_of_append hc hu)

end Line

end CommentStrip
