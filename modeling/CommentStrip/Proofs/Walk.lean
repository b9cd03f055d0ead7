import CommentStrip.Discovery
import CommentStrip.Proofs.Tree
import Mathlib.Data.List.Nodup

/-! A walk sees directories, links and names, and nothing of the files: two disks of the same shape are
searched alike. -/
namespace CommentStrip

namespace Text

theorem isBefore_iff {s t : String} :
    isBefore s t = true ↔ List.Lex (fun a b : Char => a.toNat < b.toNat) s.toList t.toList := by
  rw [isBefore, List.lex_eq_true_iff_lex]
  simp only [decide_eq_true_eq]

theorem isBefore_trans {s t u : String} (hst : isBefore s t = true) (htu : isBefore t u = true) :
    isBefore s u = true := by
  rw [isBefore_iff] at *
  exact List.lex_trans (fun h h' => Nat.lt_trans h h') hst htu

theorem isBefore_asymm {s t : String} (h : isBefore s t = true) : isBefore t s = false := by
  rw [← Bool.not_eq_true]
  rw [isBefore_iff] at *
  exact List.lex_asymm (fun h => Nat.not_lt_of_lt h) h

theorem eq_of_not_isBefore {s t : String} (hst : isBefore s t = false) (hts : isBefore t s = false) :
    s = t := by
  rw [← Bool.not_eq_true, isBefore_iff] at hst hts
  have hchar (a b : Char) (hab : ¬ a.toNat < b.toNat) (hba : ¬ b.toNat < a.toNat) : a = b :=
    Char.toNat_inj.1 (by omega)
  exact String.toList_inj.1 (List.lex_trichotomous hchar hts hst)

private theorem not_isBefore_trans {s t u : String} (hts : isBefore t s = false) (hut : isBefore u t = false) :
    isBefore u s = false := by
  by_contra hus
  rw [Bool.not_eq_false] at hus
  cases hst : isBefore s t with
  | true => simp [isBefore_trans hus hst] at hut
  | false =>
    obtain rfl := eq_of_not_isBefore hst hts
    simp [hus] at hut

end Text

namespace Disk

/-- An entry of a directory but for the number of its file. -/
def outline (child : Name × Entry) : Name × Entry := (child.1, shape child.2)

theorem mem_entries_iff {d : Disk} {p : Place} {e : Entry} (hp : p ≠ []) :
    (p, e) ∈ d.entries ↔ d.entry? p = some e := by
  refine ⟨fun h => ?_, mem_entries_of_entry?_eq_some hp⟩
  obtain ⟨before, after, he⟩ := List.append_of_mem h
  rw [entry?_of_ne_nil d hp, List.lookup_eq_some_iff]
  refine ⟨before, after, he, fun pair hm => ?_⟩
  have hd := d.distinct
  rw [he, List.map_append, List.nodup_append] at hd
  have hne := hd.2.2 pair.1 (List.mem_map_of_mem hm) p (by simp)
  simpa using hne.symm

private theorem mem_outline_children {d : Disk} {p : Place} {child : Name × Entry} :
    child ∈ (d.children p).map outline ↔ d.shape? (p ++ [child.1]) = some child.2 := by
  have hp (name : Name) : p ++ [name] ≠ [] := by simp
  simp only [List.mem_map, mem_children, mem_entries_iff (hp _), shape?, Option.map_eq_some_iff]
  constructor
  · rintro ⟨⟨name, e⟩, he, rfl⟩
    exact ⟨e, he, rfl⟩
  · rintro ⟨e, he, hs⟩
    exact ⟨(child.1, e), he, by rw [outline, hs]⟩

/-- No two entries of a directory have the same name. -/
theorem nodup_names_children (d : Disk) (p : Place) : ((d.children p).map Prod.fst).Nodup := by
  have hnames : ((d.entries.map Prod.fst).filterMap (nameIn? p)).Nodup := by
    refine List.Nodup.filterMap (fun q q' name hq hq' => ?_) d.distinct
    rw [nameIn?_eq_some_iff.1 hq, nameIn?_eq_some_iff.1 hq']
  rw [List.filterMap_map] at hnames
  rw [children, ((List.mergeSort_perm _ _).map Prod.fst).nodup_iff, List.map_filterMap]
  simpa [Function.comp_def] using hnames

private theorem nodup_outline_children (d : Disk) (p : Place) : ((d.children p).map outline).Nodup := by
  refine List.Nodup.of_map Prod.fst ?_
  rw [List.map_map]
  exact nodup_names_children d p

theorem sorted_outline_children (d : Disk) (p : Place) :
    ((d.children p).map outline).Pairwise fun a b => Text.isBefore b.1.text a.1.text = false := by
  rw [List.pairwise_map, children]
  refine (List.pairwise_mergeSort (fun a b c hab hbc => ?_) (fun a b => ?_) _).imp fun h => by
    simpa [outline] using h
  · rw [Bool.not_eq_true'] at *
    exact Text.not_isBefore_trans hab hbc
  · cases h : Text.isBefore b.1.text a.1.text with
    | false => rfl
    | true => simp [Text.isBefore_asymm h]

/-- What a walk finds is what it finds at each entry in turn. -/
theorem walkFrom_eq (d : Disk) (follow : Bool) (wanted : String → Bool) (above : List Visit)
    (here : Visit) :
    d.walkFrom follow wanted above here = (d.children here.place).flatMap fun child =>
      match d.meet follow wanted above here child.1 child.2 with
      | .report findings => findings
      | .enter next => d.walkFrom follow wanted (here :: above) next := by
  rw [walkFrom]
  conv_rhs => rw [← List.attach_map_subtype_val (d.children here.place), List.flatMap_map]
  congr 1
  funext child
  split <;> simp_all

/-- The number of a file does not matter to a walk. -/
theorem meet_shape (d : Disk) (follow : Bool) (wanted : String → Bool) (above : List Visit)
    (here : Visit) (name : Name) (e : Entry) :
    d.meet follow wanted above here name (shape e) = d.meet follow wanted above here name e := by
  cases e <;> rfl

private theorem walkFrom_eq_outline (d : Disk) (follow : Bool) (wanted : String → Bool) (above : List Visit)
    (here : Visit) :
    d.walkFrom follow wanted above here = ((d.children here.place).map outline).flatMap fun child =>
      match d.meet follow wanted above here child.1 child.2 with
      | .report findings => findings
      | .enter next => d.walkFrom follow wanted (here :: above) next := by
  rw [walkFrom_eq, List.flatMap_map]
  simp only [outline, meet_shape]

namespace SameShape

variable {d d' : Disk}

theorem children (h : SameShape d d') (p : Place) :
    (d.children p).map outline = (d'.children p).map outline := by
  have hmem (child : Name × Entry) :
      child ∈ (d.children p).map outline ↔ child ∈ (d'.children p).map outline := by
    rw [mem_outline_children, mem_outline_children, h.entries]
  refine List.Perm.eq_of_pairwise (fun a b ha hb hab hba => ?_) (sorted_outline_children d p)
    (sorted_outline_children d' p)
    ((List.perm_ext_iff_of_nodup (nodup_outline_children d p) (nodup_outline_children d' p)).2 hmem)
  have hname : a.1 = b.1 := by
    have ht := Text.eq_of_not_isBefore hba hab
    cases ha : a.1
    cases hb : b.1
    simp_all
  rw [hmem, mem_outline_children, hname] at ha
  rw [mem_outline_children] at hb
  exact Prod.ext hname (Option.some.inj (ha.symm.trans hb))

theorem meet (h : SameShape d d') (follow : Bool) (wanted : String → Bool) (above : List Visit)
    (here : Visit) (name : Name) (e : Entry) :
    d.meet follow wanted above here name e = d'.meet follow wanted above here name e := by
  cases e with
  | file n => rfl
  | special cause => rfl
  | directory mode => simp only [Disk.meet, meetDirectory, h.allows, h.caller]
  | link target => simp only [Disk.meet, meetLink, h.resolve, h.isDirectoryAt, h.allows]

theorem walkFrom (h : SameShape d d') (follow : Bool) (wanted : String → Bool) (above : List Visit)
    (here : Visit) :
    d.walkFrom follow wanted above here = d'.walkFrom follow wanted above here := by
  induction above, here using Disk.walkFrom.induct d follow wanted with
  | case1 above here ih =>
    rw [walkFrom_eq_outline, walkFrom_eq_outline, ← h.children]
    refine List.flatMap_congr fun child hm => ?_
    obtain ⟨inner, hi, rfl⟩ := List.mem_map.1 hm
    rw [outline, meet_shape, ← h.meet, meet_shape]
    cases hmeet : d.meet follow wanted above here inner.1 inner.2 with
    | report findings => rfl
    | enter next => exact ih ⟨inner, hi⟩ next hmeet

/-- A search finds the same files in the same order, and passes over the same entries. -/
theorem discover (h : SameShape d d') (s : Search) : s.discover d = s.discover d' := by
  have hlinked : s.hasLinkedRoot d = s.hasLinkedRoot d' := by
    simp only [Search.hasLinkedRoot, h.locate, h.isLinkAt]
  have hf : s.findings d = s.findings d' := by
    simp only [Search.findings, hlinked, h.resolve, h.isDirectoryAt, h.allows, h.walkFrom]
  simp only [Search.discover, hf]

end SameShape

end Disk

end CommentStrip
