import CommentStrip.Proofs.Filter

/-! The text of a filter. A filter prints what reads back as itself, and the text depends neither on the order in which
directives for different targets are asked for nor on those that later ones replace. Commas alone make the one filter
whose text is not read back: it is empty, and an empty text asks for the standard filter. -/
namespace CommentStrip.Log

private theorem mapM_eq_some_iff {α β : Type} {f : α → Option β} {xs : List α} {ys : List β} :
    xs.mapM f = some ys ↔ xs.map f = ys.map some := by
  induction xs generalizing ys with
  | nil => cases ys <;> simp
  | cons x xs ih =>
    simp only [List.mapM_cons, bind, Option.bind_eq_some_iff, pure, Option.some.injEq, List.map_cons]
    constructor
    · rintro ⟨y, hy, zs, hzs, rfl⟩
      rw [List.map_cons, hy, ih.1 hzs]
    · intro h
      cases ys with
      | nil => cases h
      | cons y ys =>
        rw [List.map_cons, List.cons.injEq] at h
        exact ⟨y, h.1, ys, ih.2 h.2, rfl⟩

private theorem not_mem_of_mem_splitOn {c : Char} {cs piece : List Char} (h : piece ∈ cs.splitOn c) : c ∉ piece := by
  induction cs generalizing piece with
  | nil =>
    rw [List.splitOn_nil, List.mem_singleton] at h
    simp [h]
  | cons a cs ih =>
    rw [List.splitOn_cons_eq_if_modifyHead] at h
    split at h
    · rcases List.mem_cons.1 h with rfl | h
      · exact List.not_mem_nil
      · exact ih h
    · rename_i hac
      obtain ⟨first, others, hsplit⟩ := List.exists_cons_of_ne_nil (List.splitOn_ne_nil c cs)
      rw [hsplit, List.modifyHead_cons] at h
      rw [hsplit] at ih
      rcases List.mem_cons.1 h with rfl | h
      · have hfirst := ih List.mem_cons_self
        grind
      · exact ih (List.mem_cons_of_mem _ h)

namespace Filter

open Directive (Ordered lastFor)

/-- What stands between the commas of a variable. -/
def pieces (raw : String) : List (List Char) := ((Text.trim raw.toList).splitOn ',').filter (!·.isEmpty)

private theorem comma_not_mem_piece {raw : String} {piece : List Char} (h : piece ∈ pieces raw) : ',' ∉ piece :=
  not_mem_of_mem_splitOn (List.mem_filter.1 h).1

private theorem pieces_eq_nil_iff {raw : String} : pieces raw = [] ↔ ∀ c ∈ Text.trim raw.toList, c = ',' := by
  rw [pieces, List.filter_eq_nil_iff]
  induction Text.trim raw.toList with
  | nil => simp
  | cons a cs ih =>
    rw [List.splitOn_cons_eq_if_modifyHead, List.forall_mem_cons]
    split
    · rename_i hcomma
      rw [List.forall_mem_cons, ih]
      simpa using fun _ => hcomma
    · rename_i hcomma
      obtain ⟨first, others, hsplit⟩ := List.exists_cons_of_ne_nil (List.splitOn_ne_nil ',' cs)
      rw [hsplit]
      simpa using fun hcs => absurd hcs (by simpa using hcomma)

/-- A variable that is not blank and whose pieces are directives. -/
structure Valid (raw : String) : Prop where
  filled : Text.trim raw.toList ≠ []
  read : ∀ piece ∈ pieces raw, ¬ Directive.Refused piece

instance (raw : String) : Decidable (Valid raw) :=
  decidable_of_iff (Text.trim raw.toList ≠ [] ∧ ∀ piece ∈ pieces raw, ¬ Directive.Refused piece)
    ⟨fun h => ⟨h.1, h.2⟩, fun h => ⟨h.filled, h.read⟩⟩

/-- A variable that holds commas and nothing else. -/
def OnlyCommas (raw : Option String) : Prop :=
  ∃ text, raw = some text ∧ Text.trim text.toList ≠ [] ∧ ∀ c ∈ Text.trim text.toList, c = ','

private theorem ofVariable_of_blank {raw : String} (h : Text.trim raw.toList = []) : ofVariable (some raw) = standard := by
  simp [ofVariable, h]

private theorem ofVariable_of_filled {raw : String} (h : Text.trim raw.toList ≠ []) :
    ofVariable (some raw) = (((pieces raw).mapM Directive.ofText?).map ofDirectives).getD standard := by
  rw [ofVariable, Option.getD_some, if_neg (by simpa using h)]
  rfl

private theorem ofVariable_of_refused {raw : String} {piece : List Char} (hmem : piece ∈ pieces raw)
    (h : Directive.Refused piece) : ofVariable (some raw) = standard := by
  by_cases hblank : Text.trim raw.toList = []
  · exact ofVariable_of_blank hblank
  · have hnone : (pieces raw).mapM Directive.ofText? = none := by
      rw [Option.eq_none_iff_forall_ne_some]
      intro ds hds
      rw [mapM_eq_some_iff] at hds
      have hpiece := List.mem_map_of_mem (f := Directive.ofText?) hmem
      rw [hds, Directive.ofText?_of_refused h] at hpiece
      simp at hpiece
    rw [ofVariable_of_filled hblank, hnone]
    rfl

private theorem Valid.exists_directive {raw : String} (h : Valid raw) {piece : List Char} (hmem : piece ∈ pieces raw) :
    ∃ d, Directive.ofText? piece = some d :=
  Option.ne_none_iff_exists'.1 fun hnone => h.read piece hmem (Directive.refused_of_ofText? hnone)

private theorem Valid.mapM_pieces {raw : String} (h : Valid raw) :
    (pieces raw).mapM Directive.ofText? = some ((pieces raw).filterMap Directive.ofText?) := by
  rw [mapM_eq_some_iff, List.map_filterMap_some_eq_filter_map_isSome]
  refine (List.filter_eq_self.2 fun d hd => ?_).symm
  obtain ⟨piece, hmem, rfl⟩ := List.mem_map.1 hd
  exact Option.isSome_iff_exists.2 (h.exists_directive hmem)

private theorem Valid.ofVariable_eq {raw : String} (h : Valid raw) :
    ofVariable (some raw) = ofDirectives ((pieces raw).filterMap Directive.ofText?) := by
  rw [ofVariable_of_filled h.filled, h.mapM_pieces]
  rfl

/-- There is no third case: a variable is valid, or it gets the standard filter. -/
theorem standard_or_valid (raw : Option String) :
    ofVariable raw = standard ∨ ∃ text, raw = some text ∧ Valid text := by
  cases raw with
  | none => exact Or.inl rfl
  | some text =>
    by_cases hblank : Text.trim text.toList = []
    · exact Or.inl (ofVariable_of_blank hblank)
    · by_cases hread : ∀ piece ∈ pieces text, ¬ Directive.Refused piece
      · exact Or.inr ⟨text, rfl, hblank, hread⟩
      · simp only [not_forall, not_not] at hread
        obtain ⟨piece, hmem, hrefused⟩ := hread
        exact Or.inl (ofVariable_of_refused hmem hrefused)

/-- What every filter that a variable asks for has: its directives in order, and each of them writable. -/
structure Canonical (f : Filter) : Prop where
  ordered : Ordered f.directives
  writable : ∀ d ∈ f.directives, d.Writable

private theorem directives_standard : standard.directives = [⟨some "decomment_core", .info⟩] := by decide +kernel

private theorem canonical_standard : Canonical standard where
  ordered := by
    rw [directives_standard]
    exact List.pairwise_singleton _ _
  writable := by
    intro d hd t ht
    rw [directives_standard] at hd
    obtain rfl := List.mem_singleton.1 hd
    cases ht
    exact ⟨⟨'d', "ecomment_core".toList, rfl, by decide +kernel⟩, by decide, by decide⟩

private theorem canonical_ofVariable (raw : Option String) : Canonical (ofVariable raw) := by
  rcases standard_or_valid raw with h | ⟨text, rfl, h⟩
  · rw [h]
    exact canonical_standard
  · rw [h.ofVariable_eq]
    refine ⟨ordered_ofDirectives _, fun d hd => ?_⟩
    obtain ⟨piece, hmem, hread⟩ := List.mem_filterMap.1 (Directive.target_of_lastFor (mem_ofDirectives.1 hd)).1
    exact Directive.writable_of_ofText? (comma_not_mem_piece hmem) hread

theorem toList_text (f : Filter) : f.text.toList = [','].intercalate (f.directives.map fun d => d.text.toList) := by
  rw [text, String.toList_intercalate, List.map_map]
  rfl

theorem text_begins {d : Directive} (ds : List Directive) (h : d.Writable) :
    Directive.Begins (text ⟨d :: ds⟩).toList := by
  obtain ⟨c, rest, hc, hbegin⟩ := Directive.text_begins h
  rw [toList_text, List.map_cons, hc, List.intercalate_cons_cons_left]
  exact ⟨c, _, rfl, hbegin⟩

theorem text_ends (d : Directive) (ds : List Directive) :
    ∃ front c, (text ⟨d :: ds⟩).toList = front ++ [c] ∧ Text.isBlank c = false := by
  induction ds generalizing d with
  | nil =>
    obtain ⟨front, c, hc, hblank⟩ := Directive.text_ends d
    exact ⟨front, c, by simp [toList_text, hc], hblank⟩
  | cons e ds ih =>
    obtain ⟨front, c, hc, hblank⟩ := ih e
    rw [toList_text, List.map_cons] at hc
    refine ⟨d.text.toList ++ [','] ++ front, c, ?_, hblank⟩
    rw [toList_text, List.map_cons, List.map_cons, List.intercalate_cons_cons, hc, List.append_assoc _ front]

section Reading

variable {f : Filter} (h : f.Canonical) (hne : f.directives ≠ [])

include h hne

private theorem Canonical.trim_text : Text.trim f.text.toList = f.text.toList ∧ f.text.toList ≠ [] := by
  obtain ⟨directives⟩ := f
  obtain ⟨d, ds, rfl⟩ := List.exists_cons_of_ne_nil hne
  obtain ⟨a, rest, ha, hbegin⟩ := text_begins ds (h.writable d List.mem_cons_self)
  obtain ⟨front, c, hc, hblank⟩ := text_ends d ds
  refine ⟨Text.trim_eq_self ?_ ?_, by simp [ha]⟩
  · rw [ha]
    rintro b ⟨⟩
    exact Directive.not_isBlank_of_mayBegin hbegin
  · rw [hc, List.getLast?_concat]
    rintro b ⟨⟩
    exact hblank

private theorem Canonical.pieces_text : pieces f.text = f.directives.map fun d => d.text.toList := by
  rw [pieces, (h.trim_text hne).1, toList_text, List.splitOn_intercalate]
  · refine List.filter_eq_self.2 fun piece hpiece => ?_
    obtain ⟨d, hd, rfl⟩ := List.mem_map.1 hpiece
    obtain ⟨c, rest, hc, -⟩ := Directive.text_begins (h.writable d hd)
    rw [hc]
    rfl
  · intro piece hpiece
    obtain ⟨d, hd, rfl⟩ := List.mem_map.1 hpiece
    exact Directive.comma_not_mem_text (h.writable d hd)
  · simpa using hne

/-- A filter that has a directive is read back from its text. -/
theorem Canonical.ofVariable_text : ofVariable (some f.text) = f := by
  obtain ⟨htrim, hfilled⟩ := h.trim_text hne
  have hread : (pieces f.text).mapM Directive.ofText? = some f.directives := by
    rw [mapM_eq_some_iff, h.pieces_text hne, List.map_map]
    exact List.map_congr_left fun d hd => Directive.ofText?_text (h.writable d hd)
  rw [ofVariable_of_filled (by rwa [htrim]), hread]
  exact ofDirectives_of_ordered h.ordered

end Reading

private theorem directives_ofVariable_eq_nil_iff {raw : Option String} :
    (ofVariable raw).directives = [] ↔ OnlyCommas raw := by
  constructor
  · intro h
    rcases standard_or_valid raw with hstandard | ⟨text, rfl, hvalid⟩
    · rw [hstandard, directives_standard] at h
      cases h
    · rw [hvalid.ofVariable_eq, directives_eq_nil_iff] at h
      have hread := mapM_eq_some_iff.1 hvalid.mapM_pieces
      rw [h, List.map_nil, List.map_eq_nil_iff] at hread
      exact ⟨text, rfl, hvalid.filled, pieces_eq_nil_iff.1 hread⟩
  · rintro ⟨text, rfl, hfilled, hcommas⟩
    rw [ofVariable_of_filled hfilled, pieces_eq_nil_iff.2 hcommas]
    rfl

private theorem text_standard : standard.text = "decomment_core=info" := by
  rw [text, directives_standard]
  decide

/-- The target of the directive that a piece stands for. -/
def aim (piece : List Char) : Option (Option String) := (Directive.ofText? piece).map Directive.target

/-- The same pieces, with those for one target in the order they had. -/
structure Reordered (ps qs : List (List Char)) : Prop where
  perm : ps.Perm qs
  kept : ∀ p ∈ ps, (ps.filter fun q => decide (aim q = aim p)) = qs.filter fun q => decide (aim q = aim p)

instance (ps qs : List (List Char)) : Decidable (Reordered ps qs) :=
  decidable_of_iff (ps.Perm qs ∧
      ∀ p ∈ ps, (ps.filter fun q => decide (aim q = aim p)) = qs.filter fun q => decide (aim q = aim p))
    ⟨fun h => ⟨h.1, h.2⟩, fun h => ⟨h.perm, h.kept⟩⟩

private theorem lastFor_pieces (ps : List (List Char)) (target : Option String) :
    lastFor (ps.filterMap Directive.ofText?) target =
      ((ps.filter fun q => decide (aim q = some target)).filterMap Directive.ofText?).getLast? := by
  rw [lastFor, List.filter_filterMap, List.filterMap_filter]
  congr 2
  funext q
  rw [aim]
  cases Directive.ofText? q with
  | none => simp
  | some d => by_cases h : d.target = target <;> simp [h]

private theorem Reordered.lastFor_eq {ps qs : List (List Char)} (h : Reordered ps qs) (target : Option String) :
    lastFor (ps.filterMap Directive.ofText?) target = lastFor (qs.filterMap Directive.ofText?) target := by
  rw [lastFor_pieces, lastFor_pieces]
  by_cases haim : ∃ p ∈ ps, aim p = some target
  · obtain ⟨p, hp, haim⟩ := haim
    rw [← haim, h.kept p hp]
  · have hps : (ps.filter fun q => decide (aim q = some target)) = [] :=
      List.filter_eq_nil_iff.2 fun q hq => by simpa using fun heq => haim ⟨q, hq, heq⟩
    have hqs := (h.perm.filter fun q => decide (aim q = some target))
    rw [hps] at hqs ⊢
    rw [hqs.nil_eq]

private theorem Reordered.ofVariable_eq {raw raw' : String} (hvalid : Valid raw) (hfilled : Text.trim raw'.toList ≠ [])
    (h : Reordered (pieces raw) (pieces raw')) : ofVariable (some raw') = ofVariable (some raw) := by
  have hvalid' : Valid raw' := ⟨hfilled, fun piece hmem => hvalid.read piece (h.perm.mem_iff.2 hmem)⟩
  rw [hvalid.ofVariable_eq, hvalid'.ofVariable_eq]
  exact (ofDirectives_congr h.lastFor_eq).symm

private theorem Valid.ofVariable_without {raw raw' : String} (h : Valid raw) {before after : List (List Char)}
    {piece later : List Char} (hraw : pieces raw = before ++ piece :: after) (hlater : later ∈ after)
    (haim : aim later = aim piece) (hraw' : pieces raw' = before ++ after) :
    ofVariable (some raw') = ofVariable (some raw) := by
  have hpiece : piece ∈ pieces raw := by simp [hraw]
  have hothers : ∀ q ∈ before ++ after, q ∈ pieces raw := by
    intro q hq
    rw [hraw]
    exact ((List.sublist_cons_self piece after).append_left before).mem hq
  have hkept : later ∈ before ++ after := List.mem_append_right before hlater
  obtain ⟨d, hd⟩ := h.exists_directive hpiece
  obtain ⟨e, he⟩ := h.exists_directive (hothers later hkept)
  have hsame : e.target = d.target := by simpa [aim, hd, he] using haim
  have hvalid' : Valid raw' := by
    refine ⟨fun hblank => ?_, fun q hq => h.read q (hothers q (hraw' ▸ hq))⟩
    rw [← hraw', pieces_eq_nil_iff.2 (by simp [hblank])] at hkept
    cases hkept
  rw [h.ofVariable_eq, hvalid'.ofVariable_eq, hraw, hraw', List.filterMap_append, List.filterMap_append,
    List.filterMap_cons_some hd]
  exact ofDirectives_congr fun target =>
    (Directive.lastFor_of_replaced (List.mem_filterMap.2 ⟨later, hlater, he⟩) hsame target).symm

/-- What a filter prints is read back, commas alone apart. An unset or blank variable and one with a refused piece get
the standard filter. The text stays the same when pieces for different targets change places and when one is left out
that a later one for the same target replaces. -/
theorem text_ofVariable_canonical :
    (∀ raw, ¬ OnlyCommas raw → (ofVariable (some (ofVariable raw).text)).text = (ofVariable raw).text) ∧
    (∀ raw, OnlyCommas raw → (ofVariable raw).text = "" ∧
      (ofVariable (some (ofVariable raw).text)).text = "decomment_core=info") ∧
    (ofVariable none).text = "decomment_core=info" ∧
    (∀ raw : String, (Text.trim raw.toList = [] ∨ ∃ piece ∈ pieces raw, Directive.Refused piece) →
      (ofVariable (some raw)).text = "decomment_core=info") ∧
    (∀ raw raw' : String, Valid raw → Text.trim raw'.toList ≠ [] → Reordered (pieces raw) (pieces raw') →
      (ofVariable (some raw')).text = (ofVariable (some raw)).text) ∧
    ∀ (raw raw' : String) (before after : List (List Char)) (piece later : List Char), Valid raw →
      pieces raw = before ++ piece :: after → later ∈ after → aim later = aim piece →
      pieces raw' = before ++ after → (ofVariable (some raw')).text = (ofVariable (some raw)).text := by
  refine ⟨?_, ?_, text_standard, ?_, ?_, ?_⟩
  · intro raw hraw
    rw [(canonical_ofVariable raw).ofVariable_text (directives_ofVariable_eq_nil_iff.not.2 hraw)]
  · intro raw hraw
    have htext : (ofVariable raw).text = "" := by
      rw [text, directives_ofVariable_eq_nil_iff.2 hraw]
      rfl
    rw [htext]
    exact ⟨rfl, text_standard⟩
  · rintro raw (hblank | ⟨piece, hmem, hrefused⟩)
    · rw [ofVariable_of_blank hblank, text_standard]
    · rw [ofVariable_of_refused hmem hrefused, text_standard]
  · intro raw raw' hvalid hfilled hreordered
    rw [Reordered.ofVariable_eq hvalid hfilled hreordered]
  · intro raw raw' before after piece later hvalid hraw hlater haim hraw'
    rw [hvalid.ofVariable_without hraw hlater haim hraw']

/-- Commas alone print an empty text, and from that the standard filter is read. -/
theorem commas_not_read_back :
    (ofVariable (some (ofVariable (some ",")).text)).text ≠ (ofVariable (some ",")).text := by
  decide +kernel

/-- A target may be spelled as a level is; it is listed twice here, and its last directive counts. -/
theorem text_ofVariable_canonical_levels :
    (¬ OnlyCommas (some "info=1,warn,b,info=DEBUG") ∧
      (ofVariable (some (ofVariable (some "info=1,warn,b,info=DEBUG")).text)).text =
        (ofVariable (some "info=1,warn,b,info=DEBUG")).text) ∧
    (OnlyCommas (some ",,") ∧ (ofVariable (some ",,")).text = "" ∧
      (ofVariable (some (ofVariable (some ",,")).text)).text = "decomment_core=info") ∧
    ((∃ piece ∈ pieces "b,a=loud,warn", Directive.Refused piece) ∧
      (ofVariable (some "b,a=loud,warn")).text = "decomment_core=info") ∧
    (Valid "info=1,warn,b,info=DEBUG" ∧
      Reordered (pieces "info=1,warn,b,info=DEBUG") (pieces "b,info=1,info=DEBUG,warn") ∧
      (ofVariable (some "b,info=1,info=DEBUG,warn")).text = (ofVariable (some "info=1,warn,b,info=DEBUG")).text) ∧
    aim "info=DEBUG".toList = aim "info=1".toList ∧
    (ofVariable (some "warn,b,info=DEBUG")).text = (ofVariable (some "info=1,warn,b,info=DEBUG")).text := by
  obtain ⟨hagain, hcommas, -, hstandard, hreordered, hwithout⟩ := text_ofVariable_canonical
  have hvalid : Valid "info=1,warn,b,info=DEBUG" := by decide +kernel
  have horder : Reordered (pieces "info=1,warn,b,info=DEBUG") (pieces "b,info=1,info=DEBUG,warn") := by decide +kernel
  have haim : aim "info=DEBUG".toList = aim "info=1".toList := by decide +kernel
  have hrefused : ∃ piece ∈ pieces "b,a=loud,warn", Directive.Refused piece := by decide +kernel
  have honly : OnlyCommas (some ",,") := ⟨",,", rfl, by decide +kernel, pieces_eq_nil_iff.1 (by decide +kernel)⟩
  have hother : ¬ OnlyCommas (some "info=1,warn,b,info=DEBUG") := by
    rintro ⟨text, ⟨⟩, -, hcomma⟩
    exact absurd (pieces_eq_nil_iff.2 hcomma) (by decide +kernel)
  refine ⟨⟨hother, hagain _ hother⟩, ⟨honly, hcommas _ honly⟩, ⟨hrefused, hstandard _ (Or.inr hrefused)⟩,
    ⟨hvalid, horder, hreordered _ _ hvalid (by decide +kernel) horder⟩, haim, ?_⟩
  exact hwithout _ _ [] ["warn".toList, "b".toList, "info=DEBUG".toList] _ _ hvalid (by decide +kernel)
    (by decide +kernel) haim (by decide +kernel)

end Filter

end CommentStrip.Log
