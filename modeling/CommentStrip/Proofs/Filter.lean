import CommentStrip.Proofs.Directive
import Mathlib.Data.List.Induction
import Mathlib.Data.List.Nodup

/-! The directives of a filter: one order, at most one for each target, and for each target the last that was asked
for. -/
namespace CommentStrip.Log

namespace Directive

private theorem ne_target_of_precedes {a b : Directive} (h : a.precedes b = true) : a.target ≠ b.target := by
  intro heq
  unfold precedes at h
  rw [← heq] at h
  cases ha : a.target with
  | none => simp [ha] at h
  | some s =>
    have hself : Text.isBefore s s = false := by
      cases hs : Text.isBefore s s with
      | false => rfl
      | true => exact hs.symm.trans (Text.isBefore_asymm hs)
    simp [ha, hself] at h

private theorem precedes_trans {a b c : Directive} (hab : a.precedes b = true) (hbc : b.precedes c = true) :
    a.precedes c = true := by
  unfold precedes at *
  cases ha : a.target with
  | none => simp [ha] at hab
  | some s =>
    cases hb : b.target with
    | none => simp [hb] at hbc
    | some t =>
      cases hc : c.target with
      | none => rfl
      | some u =>
        simp only [ha, hb, hc, Bool.or_eq_true, Bool.and_eq_true, decide_eq_true_eq, beq_iff_eq] at hab hbc ⊢
        rcases hab with hab | ⟨hab, hts⟩
        · left
          omega
        · rcases hbc with hbc | ⟨hbc, hut⟩
          · left
            omega
          · exact Or.inr ⟨hab.trans hbc, Text.isBefore_trans hut hts⟩

private theorem precedes_of_not_precedes {a b : Directive} (hne : a.target ≠ b.target) (h : ¬ a.precedes b = true) :
    b.precedes a = true := by
  unfold precedes at *
  cases ha : a.target with
  | none =>
    cases hb : b.target with
    | none => exact absurd (ha.trans hb.symm) hne
    | some t => rfl
  | some s =>
    cases hb : b.target with
    | none => simp [ha, hb] at h
    | some t =>
      simp only [ha, hb, Bool.or_eq_true, Bool.and_eq_true, decide_eq_true_eq, beq_iff_eq] at h ⊢
      by_cases hsize : t.utf8ByteSize > s.utf8ByteSize
      · exact Or.inl hsize
      · have hsame : t.utf8ByteSize = s.utf8ByteSize := by omega
        refine Or.inr ⟨hsame, ?_⟩
        by_contra hst
        have hts : Text.isBefore t s = false := by
          rw [← Bool.not_eq_true]
          exact fun hts => h (Or.inr ⟨hsame.symm, hts⟩)
        have heq := Text.eq_of_not_isBefore (Bool.not_eq_true _ ▸ hst) hts
        exact hne (by rw [ha, hb, heq])

/-- The directives in the order in which a filter keeps them. -/
def Ordered (ds : List Directive) : Prop := ds.Pairwise fun a b => a.precedes b = true

/-- The one among some directives that decides for a target: the last that names it. -/
def lastFor (ds : List Directive) (target : Option String) : Option Directive :=
  (ds.filter fun d => decide (d.target = target)).getLast?

private theorem lastFor_append (ds es : List Directive) (target : Option String) :
    lastFor (ds ++ es) target = (lastFor es target).or (lastFor ds target) := by
  rw [lastFor, List.filter_append, List.getLast?_append]
  rfl

private theorem lastFor_singleton (d : Directive) (target : Option String) :
    lastFor [d] target = if d.target = target then some d else none := by
  by_cases h : d.target = target <;> simp [lastFor, h]

theorem target_of_lastFor {ds : List Directive} {target : Option String} {d : Directive}
    (h : lastFor ds target = some d) : d ∈ ds ∧ d.target = target := by
  simpa using List.mem_filter.1 (List.mem_of_getLast? h)

private theorem exists_lastFor {ds : List Directive} {d : Directive} (h : d ∈ ds) : ∃ e, lastFor ds d.target = some e := by
  cases hlast : lastFor ds d.target with
  | some e => exact ⟨e, rfl⟩
  | none =>
    rw [lastFor, List.getLast?_eq_none_iff, List.filter_eq_nil_iff] at hlast
    exact absurd (decide_eq_true rfl) (hlast d h)

/-- A directive that a later one replaces decides nothing. -/
theorem lastFor_of_replaced {before after : List Directive} {d e : Directive} (he : e ∈ after)
    (hsame : e.target = d.target) (target : Option String) :
    lastFor (before ++ d :: after) target = lastFor (before ++ after) target := by
  rw [← List.singleton_append, lastFor_append, lastFor_append, lastFor_append, lastFor_singleton]
  split
  · rename_i htarget
    obtain ⟨last, hlast⟩ := exists_lastFor he
    rw [hsame, htarget] at hlast
    rw [hlast]
    rfl
  · rw [Option.or_none]

private theorem Ordered.nodup_targets {ds : List Directive} (h : Ordered ds) : (ds.map target).Nodup := by
  rw [List.Nodup, List.pairwise_map]
  exact h.imp ne_target_of_precedes

theorem Ordered.mem_iff {ds : List Directive} (h : Ordered ds) {d : Directive} :
    d ∈ ds ↔ lastFor ds d.target = some d := by
  constructor
  · intro hd
    obtain ⟨e, he⟩ := exists_lastFor hd
    obtain ⟨hmem, htarget⟩ := target_of_lastFor he
    rw [he, List.inj_on_of_nodup_map h.nodup_targets hmem hd htarget]
  · intro hd
    exact (target_of_lastFor hd).1

/-- There is one order for the same directives. -/
theorem Ordered.eq_of_mem_iff {ds es : List Directive} (hd : Ordered ds) (he : Ordered es)
    (hmem : ∀ d, d ∈ ds ↔ d ∈ es) : ds = es := by
  have hperm := (List.perm_ext_iff_of_nodup (List.Nodup.of_map _ hd.nodup_targets)
    (List.Nodup.of_map _ he.nodup_targets)).2 hmem
  refine hperm.eq_of_pairwise (fun a b _ _ hab hba => ?_) hd he
  exact absurd rfl (ne_target_of_precedes (precedes_trans hab hba))

end Directive

namespace Filter

open Directive (Ordered lastFor)

/-- A directive that is put in its place replaces the one for its target and no other. -/
theorem mem_insertInto {d e : Directive} {placed : List Directive} (h : Ordered placed) :
    e ∈ insertInto d placed ↔ e = d ∨ e ∈ placed ∧ e.target ≠ d.target := by
  induction placed with
  | nil => simp [insertInto]
  | cons a rest ih =>
    obtain ⟨hfirst, hrest⟩ := List.pairwise_cons.1 h
    rw [insertInto]
    split
    · rename_i heq
      have hother : ∀ b ∈ rest, b.target ≠ d.target := by
        intro b hb
        rw [← heq]
        exact (Directive.ne_target_of_precedes (hfirst b hb)).symm
      grind
    · split
      · rename_i hne hbefore
        have hother : ∀ b ∈ rest, b.target ≠ d.target := by
          intro b hb
          exact (Directive.ne_target_of_precedes (Directive.precedes_trans hbefore (hfirst b hb))).symm
        grind
      · rw [List.mem_cons, ih hrest]
        grind

private theorem ordered_insertInto {d : Directive} {placed : List Directive} (h : Ordered placed) :
    Ordered (insertInto d placed) := by
  induction placed with
  | nil => exact List.pairwise_singleton _ _
  | cons a rest ih =>
    obtain ⟨hfirst, hrest⟩ := List.pairwise_cons.1 h
    rw [insertInto]
    split
    · -- The order looks at targets only, and the new directive has the old one's.
      rename_i heq
      refine List.pairwise_cons.2 ⟨fun b hb => ?_, hrest⟩
      have hb := hfirst b hb
      rwa [Directive.precedes, heq] at hb
    · rename_i hne
      split
      · rename_i hbefore
        refine List.pairwise_cons.2 ⟨fun b hb => ?_, h⟩
        rcases List.mem_cons.1 hb with rfl | hb
        · exact hbefore
        · exact Directive.precedes_trans hbefore (hfirst b hb)
      · rename_i hafter
        refine List.pairwise_cons.2 ⟨fun b hb => ?_, ih hrest⟩
        rcases (mem_insertInto hrest).1 hb with rfl | ⟨hb, -⟩
        · exact Directive.precedes_of_not_precedes (Ne.symm hne) hafter
        · exact hfirst b hb

private theorem directives_concat (ds : List Directive) (d : Directive) :
    (ofDirectives (ds ++ [d])).directives = insertInto d (ofDirectives ds).directives := by
  rw [ofDirectives, List.foldl_append]
  rfl

theorem ordered_ofDirectives (ds : List Directive) : Ordered (ofDirectives ds).directives := by
  induction ds using List.reverseRecOn with
  | nil => exact List.Pairwise.nil
  | append_singleton ds d ih =>
    rw [directives_concat]
    exact ordered_insertInto ih

/-- A filter holds, for each target, the last directive asked for it. -/
theorem mem_ofDirectives {ds : List Directive} {e : Directive} :
    e ∈ (ofDirectives ds).directives ↔ lastFor ds e.target = some e := by
  induction ds using List.reverseRecOn with
  | nil => simp [ofDirectives, lastFor]
  | append_singleton ds d ih =>
    rw [directives_concat, mem_insertInto (ordered_ofDirectives ds), ih, Directive.lastFor_append,
      Directive.lastFor_singleton]
    by_cases h : d.target = e.target
    · simp only [h, if_true, Option.some_or, Option.some.injEq, ne_eq, not_true_eq_false, and_false, or_false]
      exact eq_comm
    · have hne : e ≠ d := fun heq => h (by rw [heq])
      simp [h, hne, Ne.symm h]

theorem directives_eq_nil_iff {ds : List Directive} : (ofDirectives ds).directives = [] ↔ ds = [] := by
  constructor
  · intro h
    refine List.eq_nil_iff_forall_not_mem.2 fun d hd => ?_
    obtain ⟨e, he⟩ := Directive.exists_lastFor hd
    have hmem := mem_ofDirectives.2 ((Directive.target_of_lastFor he).2 ▸ he)
    rw [h] at hmem
    cases hmem
  · rintro rfl
    rfl

theorem ofDirectives_congr {ds es : List Directive} (h : ∀ target, lastFor ds target = lastFor es target) :
    ofDirectives ds = ofDirectives es := by
  have hmem (d : Directive) : d ∈ (ofDirectives ds).directives ↔ d ∈ (ofDirectives es).directives := by
    rw [mem_ofDirectives, mem_ofDirectives, h]
  have heq := (ordered_ofDirectives ds).eq_of_mem_iff (ordered_ofDirectives es) hmem
  cases hf : ofDirectives ds
  cases hg : ofDirectives es
  simpa [hf, hg] using heq

theorem ofDirectives_of_ordered {f : Filter} (h : Ordered f.directives) : ofDirectives f.directives = f := by
  have hmem (d : Directive) : d ∈ (ofDirectives f.directives).directives ↔ d ∈ f.directives := by
    rw [mem_ofDirectives, h.mem_iff]
  have heq := (ordered_ofDirectives f.directives).eq_of_mem_iff h hmem
  cases hf : ofDirectives f.directives
  cases f
  simpa [hf] using heq

end Filter

end CommentStrip.Log
