import CommentStrip.Fixture.Tree
import CommentStrip.Proofs.Below
import Mathlib.Data.String.Basic

/-! Where made-up files stand, and what is seen on the disk once they are written: the old disk with a tree
of directories and files added. -/
namespace CommentStrip

private theorem utf8ByteSize_le_four_mul (text : String) : text.utf8ByteSize ≤ 4 * text.length := by
  have hchars (cs : List Char) : String.utf8Len cs ≤ 4 * cs.length := by
    induction cs with
    | nil => simp
    | cons c cs ih =>
      have hc := c.utf8Size_le_four
      rw [String.utf8Len_cons, List.length_cons]
      omega
  rw [← String.utf8Len_toList, ← String.length_toList]
  exact hchars text.toList

theorem isDigit_of_mem_toString {n : Nat} {c : Char} (h : c ∈ (toString n).toList) : c.isDigit = true := by
  rw [Nat.toString_eq_repr, Nat.toList_repr] at h
  exact Nat.isDigit_of_mem_toDigits (by decide) (by decide) h

private theorem Name.legal_numbered {before after : String} (hlen : 3 ≤ before.length)
    (hsize : before.utf8ByteSize + after.utf8ByteSize ≤ 100)
    (hchars : (before.toList ++ after.toList).all (fun c => c != Path.separator && c != '\x00') = true)
    {i : Nat} (hi : i < 2 ^ 64) :
    Name.Legal (before ++ toString i ++ after) := by
  have hshort {text : String} (ht : text.length ≤ 2) : before ++ toString i ++ after ≠ text := by
    intro h
    have hl := congrArg String.length h
    simp only [String.length_append] at hl
    omega
  have hdigit (c) (hc : c ∈ (toString i).toList) : c ≠ Path.separator ∧ c ≠ '\x00' := by
    have hd := isDigit_of_mem_toString hc
    constructor <;> rintro rfl <;> simp [Path.separator] at hd
  have hchar (c) (hc : c ∈ (before ++ toString i ++ after).toList) : c ≠ Path.separator ∧ c ≠ '\x00' := by
    simp only [List.all_eq_true, Bool.and_eq_true, bne_iff_ne, List.mem_append] at hchars
    simp only [String.toList_append, List.mem_append] at hc
    rcases hc with (hc | hc) | hc
    · exact hchars c (.inl hc)
    · exact hdigit c hc
    · exact hchars c (.inr hc)
  refine ⟨hshort (by decide), hshort (by decide), hshort (by decide), ?_, fun h => (hchar _ h).1 rfl,
    fun h => (hchar _ h).2 rfl⟩
  have hdigits : (toString i).length ≤ 20 := by
    rw [Nat.toString_eq_repr]
    exact (Nat.length_repr_le_iff (by decide)).2 (Nat.lt_trans hi (by decide))
  have hbytes := utf8ByteSize_le_four_mul (toString i)
  rw [String.utf8ByteSize_append, String.utf8ByteSize_append, Name.sizeLimit]
  omega

namespace Fixture

private theorem isValid_lib : Name.isValid "lib" = true := by decide

abbrev lib : Name := ⟨"lib", isValid_lib⟩
abbrev libAdmin : Name := ⟨"lib_admin", by decide⟩

private theorem legal_module (i : Nat) : Name.Legal ("module_" ++ toString (i % directoryCount)) := by
  have hi : i % directoryCount < 2 ^ 64 := Nat.lt_trans (Nat.mod_lt i (by decide)) (by decide)
  have h := @Name.legal_numbered "module_" "" (by decide) (by decide) (by decide) _ hi
  rwa [String.append_empty] at h

private theorem legal_page {i : Nat} (hi : i < 2 ^ 64) : Name.Legal ("page_" ++ toString i ++ ".dart") :=
  Name.legal_numbered (by decide) (by decide) (by decide) hi

def moduleName (i : Nat) : Name :=
  ⟨"module_" ++ toString (i % directoryCount), Name.isValid_iff.2 (legal_module i)⟩

/-- The name of page `i`. It stands for one as long as the name does not get too long. -/
def pageName (i : Nat) : Name := (Name.ofText? ("page_" ++ toString i ++ ".dart")).getD ⟨"page", by decide⟩

theorem text_pageName {i : Nat} (hi : i < 2 ^ 64) : (pageName i).text = "page_" ++ toString i ++ ".dart" := by
  rw [pageName, Name.ofText?, dif_pos (Name.isValid_iff.2 (legal_page hi)), Option.getD_some]

/-- The way from the root to the directory of page `i`. -/
def directoryWay (i : Nat) : List Name := [lib, libAdmin, moduleName i]

def pageWay (i : Nat) : List Name := directoryWay i ++ [pageName i]

private theorem directoryOf_eq (root : String) (i : Nat) :
    directoryOf root i = Path.below root (directoryWay i) := by
  simp only [directoryOf, Path.below, directoryWay, List.foldl_cons, List.foldl_nil, moduleName]

theorem pathOf_eq (root : String) {i : Nat} (hi : i < 2 ^ 64) :
    pathOf root i = Path.below root (pageWay i) := by
  rw [pathOf, directoryOf_eq, pageWay, Path.below_concat, text_pageName hi]

theorem pageWay_inj {i j : Nat} (hi : i < 2 ^ 64) (hj : j < 2 ^ 64) (h : pageWay i = pageWay j) : i = j := by
  have hname : pageName i = pageName j := List.singleton_inj.1 (List.append_inj' h rfl).2
  rw [← Name.text_inj, text_pageName hi, text_pageName hj, String.append_left_inj,
    String.append_right_inj, Nat.toString_eq_repr, Nat.toString_eq_repr, ← String.toList_inj, Nat.toList_repr,
    Nat.toList_repr] at hname
  simpa using congrArg (Nat.ofDigitChars 10 · 0) hname

/-- A page stands below its directory, so no directory is where it is. -/
theorem append_pageWay_ne (p : Place) (i : Nat) {j : Nat} {way : List Name} (h : way <+: directoryWay j) :
    p ++ pageWay i ≠ p ++ way := by
  intro heq
  have hlen := List.append_cancel_left heq ▸ h.length_le
  simp [pageWay, directoryWay] at hlen

/-- The text of page `i`. -/
def text (lines : Nat) (seed : UInt64) (i : Nat) : String := source lines (seed + i.toUInt64)

/-- Page `i` as a program writes it. -/
def page (c : Caller) (lines : Nat) (seed : UInt64) (i : Nat) : File :=
  ⟨(text lines seed i).toUTF8, c.newFileMode⟩

theorem path_append_pageWay (p : Place) {i : Nat} (hi : i < 2 ^ 64) :
    Place.path (p ++ pageWay i) = pathOf (Place.path p) i := by
  rw [pathOf_eq _ hi, Place.path_append]

/-- What the first `count` pages bring to the end of a way from the root. -/
inductive Grows (c : Caller) (lines : Nat) (seed : UInt64) (count : Nat) : List Name → Node → Prop where
  | directory {way : List Name} (i : Nat) (hi : i < count) (hne : way ≠ []) (hway : way <+: directoryWay i) :
    Grows c lines seed count way (.directory c.newDirectoryMode)
  | page (i : Nat) (hi : i < count) : Grows c lines seed count (pageWay i) (.file (page c lines seed i))

/-- A disk to which the first `count` pages were added, in the directory at `p`. -/
structure Grown (d made : Disk) (p : Place) (lines : Nat) (seed : UInt64) (count : Nat) : Prop where
  caller : d.toCaller = made.toCaller
  added : ∀ way n, Grows d.toCaller lines seed count way n → made.node? (p ++ way) = some n
  kept : ∀ q, (∀ way n, Grows d.toCaller lines seed count way n → q ≠ p ++ way) → made.node? q = d.node? q

/-- A directory in which the program can write `count` pages and use them: there is nothing where they go, and
their paths are not too long. -/
structure Site (d : Disk) (root : String) (p : Place) (count : Nat) : Prop where
  isTree : d.IsTree
  keepsOwn : d.KeepsOwn
  resolves : d.resolve root = .ok p
  canChange : d.canChange p = true
  isFree : d.entry? (p ++ [lib]) = none
  count_le : count ≤ 2 ^ 64
  fits : ∀ i < count, Path.isTooLong (pathOf root i) = false

theorem Site.isDirectory {d : Disk} {root : String} {p : Place} {count : Nat} (h : Site d root p count) :
    d.isDirectoryAt p = true :=
  Disk.isDirectoryAt_of_allows (Bool.and_eq_true_iff.1 h.canChange).1

/-- Without a `lib` there is nothing in it either. -/
theorem Site.free {d : Disk} {root : String} {p : Place} {count : Nat} (h : Site d root p count) (q : Place) :
    d.node? (p ++ lib :: q) = none := by
  have hlib : d.node? (p ++ [lib]) = none := Disk.node?_eq_none_iff.2 h.isFree
  rcases List.eq_nil_or_concat q with rfl | ⟨front, last, rfl⟩
  · exact hlib
  · have hway : p ++ lib :: front.concat last = p ++ [lib] ++ front ++ [last] := by simp
    rw [hway]
    cases hn : d.node? (p ++ [lib] ++ front ++ [last]) with
    | none => rfl
    | some n =>
      obtain ⟨mode, hmode⟩ :=
        Disk.isDirectoryAt_iff.1 (h.isTree.isDirectoryAt_of_prefix hn (List.prefix_append (p ++ [lib]) front))
      rw [hlib] at hmode
      cases hmode

theorem Site.index_lt {d : Disk} {root : String} {p : Place} {count i : Nat} (h : Site d root p count)
    (hi : i < count) : i < 2 ^ 64 := Nat.lt_of_lt_of_le hi h.count_le

section Grows

variable {c : Caller} {lines count : Nat} {seed : UInt64} {way : List Name} {n : Node}

private theorem Grows.exists_tail (h : Grows c lines seed count way n) : ∃ tail, way = lib :: tail := by
  cases h with
  | directory i hi hne hway =>
    rcases List.prefix_cons_iff.1 hway with rfl | ⟨tail, rfl, -⟩
    · exact absurd rfl hne
    · exact ⟨tail, rfl⟩
  | page i hi => exact ⟨_, rfl⟩

theorem Grows.mono {more : Nat} (h : Grows c lines seed count way n) (hle : count ≤ more) :
    Grows c lines seed more way n := by
  cases h with
  | directory i hi hne hway => exact .directory i (by omega) hne hway
  | page i hi => exact .page i (by omega)

/-- Directories stand at the first three places of a way, and pages at the fourth. -/
theorem Grows.eq_directory_of_length_le (h : Grows c lines seed count way n) (hlen : way.length ≤ 3) :
    n = .directory c.newDirectoryMode := by
  cases h with
  | directory i hi hne hway => rfl
  | page i hi => simp [pageWay, directoryWay] at hlen

theorem Grows.exists_page_of_lt_length (h : Grows c lines seed count way n) (hlen : 3 < way.length) :
    ∃ i < count, way = pageWay i ∧ n = .file (Fixture.page c lines seed i) := by
  cases h with
  | directory i hi hne hway =>
    have hle := hway.length_le
    simp only [directoryWay, List.length_cons, List.length_nil] at hle
    omega
  | page i hi => exact ⟨i, hi, rfl, rfl⟩

end Grows

/-- The report on `count` pages. -/
def treeOf (root : String) (lines : Nat) (seed : UInt64) (count : Nat) : Tree :=
  ⟨root, (List.range count).map (pathOf root),
    ((List.range count).map fun i => (text lines seed i).utf8ByteSize).sum⟩

/-- A report with one more page. -/
def Tree.add (t : Tree) (path text : String) : Tree :=
  { t with files := t.files ++ [path], totalBytes := t.totalBytes + text.utf8ByteSize }

private theorem treeOf_succ (root : String) (lines : Nat) (seed : UInt64) (count : Nat) :
    treeOf root lines seed (count + 1) =
      (treeOf root lines seed count).add (pathOf root count) (text lines seed count) := by
  simp [treeOf, Tree.add, List.range_succ]

private theorem generate_succ (d : Disk) (root : String) (count lines : Nat) (seed : UInt64) :
    generate d root (count + 1) lines seed =
      generate d root count lines seed >>= fun made => addFile lines seed made count := by
  rw [generate, List.range_succ, List.foldlM_append]
  simp [generate]

private theorem generate_succ_of_ok {d made : Disk} {root : String} {count lines : Nat} {seed : UInt64} {t : Tree}
    (h : generate d root count lines seed = .ok (made, t)) :
    generate d root (count + 1) lines seed = addFile lines seed (made, t) count := by
  simp only [generate_succ, h, bind, Except.bind]

private theorem addFile_of_ok {made made' made'' : Disk} {lines i : Nat} {seed : UInt64} {t : Tree}
    (hmake : made.makeDirectory (directoryOf t.root i) = .ok made')
    (hwrite : made'.writeFile (pathOf t.root i) (text lines seed i).toUTF8 = .ok made'') :
    addFile lines seed (made, t) i = .ok (made'', t.add (pathOf t.root i) (text lines seed i)) := by
  unfold text at hwrite
  simp only [addFile, hmake, hwrite, bind, Except.bind, pure, Except.pure, Tree.add, text]

section Generate

variable {d made made' : Disk} {root : String} {p : Place} {lines count more : Nat} {seed : UInt64}

private theorem grown_zero (d : Disk) (p : Place) (lines : Nat) (seed : UInt64) : Grown d d p lines seed 0 := by
  refine ⟨rfl, fun way n hg => ?_, fun q _ => rfl⟩
  cases hg with
  | directory i hi => exact absurd hi (Nat.not_lt_zero i)
  | page i hi => exact absurd hi (Nat.not_lt_zero i)

/-- One more page: its directories and the page itself are added to what is there. -/
theorem Grown.succ (h : Grown d made p lines seed count) (hcount : count < 2 ^ 64)
    (hc : made.toCaller = made'.toCaller)
    (hdirs : ∀ r, r <+: directoryWay count → r ≠ [] →
      made'.node? (p ++ r) = some (.directory d.newDirectoryMode))
    (hothers : ∀ q, (∀ r, r <+: directoryWay count → r ≠ [] → q ≠ p ++ r) → made'.node? q = made.node? q) :
    Grown d (made'.insertFile (p ++ pageWay count) (page d.toCaller lines seed count)) p lines seed
      (count + 1) := by
  have hne : p ++ pageWay count ≠ [] := by simp [pageWay]
  have hnode := Disk.node?_insertFile made' hne (page d.toCaller lines seed count)
  refine ⟨h.caller.trans hc, fun way n hg => ?_, fun q hq => ?_⟩
  · rw [hnode]
    cases hg with
    | directory i hi hne hway =>
      rw [if_neg (append_pageWay_ne p count hway).symm]
      by_cases hlast : way <+: directoryWay count
      · exact hdirs way hlast hne
      · have hlt : i < count := by
          refine Nat.lt_of_le_of_ne (Nat.le_of_lt_succ hi) ?_
          rintro rfl
          exact hlast hway
        rw [hothers]
        · exact h.added way _ (.directory i hlt hne hway)
        · intro r hr _ heq
          obtain rfl : way = r := List.append_cancel_left heq
          exact hlast hr
    | page i hi =>
      by_cases hlast : i = count
      · rw [hlast, if_pos rfl]
      · have hlt : i < count := by omega
        have hpage : p ++ pageWay i ≠ p ++ pageWay count :=
          fun heq => hlast (pageWay_inj (by omega) hcount (List.append_cancel_left heq))
        rw [if_neg hpage, hothers _ fun r hr _ => append_pageWay_ne p i hr]
        exact h.added _ _ (.page i hlt)
  · rw [hnode, if_neg (hq _ _ (.page count (Nat.lt_succ_self count))),
      hothers q fun r hr hne => hq r _ (.directory count (Nat.lt_succ_self count) hne hr),
      h.kept q fun way n hg => hq way n (hg.mono (Nat.le_succ count))]

section Site

variable (hsite : Site d root p more)

include hsite

theorem Site.mono (hle : count ≤ more) : Site d root p count :=
  ⟨hsite.isTree, hsite.keepsOwn, hsite.resolves, hsite.canChange, hsite.isFree,
    Nat.le_trans hle hsite.count_le, fun i hi => hsite.fits i (Nat.lt_of_lt_of_le hi hle)⟩

theorem Grown.toExtends (h : Grown d made p lines seed count) : d.Extends made := by
  refine ⟨h.caller, fun q n hn => ?_⟩
  rw [h.kept q]
  · exact hn
  · rintro way n' hg rfl
    obtain ⟨tail, rfl⟩ := hg.exists_tail
    rw [hsite.free] at hn
    cases hn

theorem Grown.grows_of_node? (h : Grown d made p lines seed count) {way : List Name} {n : Node}
    (hn : made.node? (p ++ lib :: way) = some n) : Grows d.toCaller lines seed count (lib :: way) n := by
  by_cases hg : ∃ n', Grows d.toCaller lines seed count (lib :: way) n'
  · obtain ⟨n', hg⟩ := hg
    have hn' := h.added _ _ hg
    rw [hn] at hn'
    cases hn'
    exact hg
  · have hkept : made.node? (p ++ lib :: way) = d.node? (p ++ lib :: way) := by
      refine h.kept _ fun way' n' hg' heq => ?_
      obtain rfl : lib :: way = way' := List.append_cancel_left heq
      exact hg ⟨n', hg'⟩
    rw [hkept, hsite.free] at hn
    cases hn

private theorem Grown.hasRoomAt (h : Grown d made p lines seed count) {r : List Name} (hr : r <+: directoryWay count)
    (hne : r ≠ []) : made.HasRoomAt (p ++ r) := by
  rcases List.prefix_cons_iff.1 hr with rfl | ⟨tail, rfl, htail⟩
  · exact absurd rfl hne
  · cases hn : made.node? (p ++ lib :: tail) with
    | none => exact .inl hn
    | some n =>
      have hdir := (h.grows_of_node? hsite hn).eq_directory_of_length_le hr.length_le
      exact .inr (by rw [hn, hdir, h.caller])

private theorem Grown.node?_page_eq_none (h : Grown d made p lines seed count) (hcount : count < 2 ^ 64) :
    made.node? (p ++ pageWay count) = none := by
  cases hn : made.node? (p ++ pageWay count) with
  | none => rfl
  | some n =>
    obtain ⟨i, hi, hway, -⟩ := (h.grows_of_node? hsite hn).exists_page_of_lt_length (by simp)
    have := pageWay_inj hcount (by omega) hway
    omega

/-- One step of generation. -/
theorem Grown.exists_addFile (h : Grown d made p lines seed count) (hcount : count < more) {t : Tree}
    (ht : t.root = root) :
    ∃ made', addFile lines seed (made, t) count =
        .ok (made', t.add (pathOf root count) (text lines seed count)) ∧
      Grown d made' p lines seed (count + 1) := by
  subst ht
  have hext := h.toExtends hsite
  have hlt := hsite.index_lt hcount
  have hfits := hsite.fits count hcount
  rw [pathOf_eq t.root hlt] at hfits
  have hne := (Disk.resolve_eq_ok_iff.1 hsite.resolves).1.ne_empty
  obtain ⟨made', hmade, hext', hdirs, hothers⟩ :=
    @Disk.makeDirectory_below made p t.root [lib, libAdmin] (moduleName count) (h.caller ▸ hsite.keepsOwn)
      (hext.resolve hsite.resolves) (hext.canChange hsite.canChange)
      (Path.isTooLong_below_of_prefix hne (List.prefix_append _ [pageName count]) hfits)
      fun r hr => h.hasRoomAt hsite hr
  rw [← h.caller] at hdirs
  have hpage : made'.node? (p ++ directoryWay count ++ [pageName count]) = none := by
    rw [List.append_assoc, ← pageWay, hothers _ fun r hr _ => append_pageWay_ne p count hr]
    exact h.node?_page_eq_none hsite hlt
  have hown : made'.KeepsOwn := hext'.caller ▸ h.caller ▸ hsite.keepsOwn
  have hchange (q) (hq : q <+: directoryWay count) : made'.canChange (p ++ q) = true := by
    by_cases hq' : q = []
    · rw [hq', List.append_nil]
      exact (hext.trans hext').canChange hsite.canChange
    · have hmay (a : Access) : made'.allows a (p ++ q) = true := by
        refine Disk.allows_iff.2 ⟨_, hdirs q hq hq', ?_⟩
        rw [h.caller, hext'.caller]
        exact hown.may_newDirectoryMode a
      exact Bool.and_eq_true_iff.2 ⟨hmay .write, hmay .search⟩
  have hwrite : made'.writeFile (pathOf t.root count) (text lines seed count).toUTF8 =
      .ok (made'.insertFile (p ++ pageWay count) (page d.toCaller lines seed count)) := by
    rw [pathOf_eq t.root hlt, pageWay, ← List.append_assoc, page, h.caller, hext'.caller]
    exact Disk.writeFile_below ((hext.trans hext').resolve hsite.resolves) hfits hchange hpage _
  exact ⟨_, addFile_of_ok hmade hwrite, h.succ hlt hext'.caller hdirs hothers⟩

end Site

theorem Site.exists_generate (h : Site d root p count) (lines : Nat) (seed : UInt64) :
    ∃ made, generate d root count lines seed = .ok (made, treeOf root lines seed count) ∧
      Grown d made p lines seed count := by
  induction count with
  | zero => exact ⟨d, rfl, grown_zero d p lines seed⟩
  | succ count ih =>
    obtain ⟨made, hmade, hgrown⟩ := ih (h.mono (Nat.le_succ count))
    have htree : (treeOf root lines seed count).root = root := rfl
    obtain ⟨made', hadd, hgrown'⟩ := hgrown.exists_addFile h (Nat.lt_succ_self count) htree
    exact ⟨made', by rw [generate_succ_of_ok hmade, hadd, treeOf_succ], hgrown'⟩

/-- A page that was written had a path that could be. -/
theorem of_addFile_eq_ok {t t' : Tree} {i : Nat} (h : addFile lines seed (made, t) i = .ok (made', t')) :
    t'.root = t.root ∧ Path.isTooLong (pathOf t.root i) = false := by
  cases hmake : made.makeDirectory (directoryOf t.root i) with
  | error e => simp [addFile, hmake, bind, Except.bind] at h
  | ok d =>
    cases hwrite : d.writeFile (pathOf t.root i) (text lines seed i).toUTF8 with
    | error e =>
      unfold text at hwrite
      simp only [addFile, hmake, hwrite, bind, Except.bind] at h
      cases h
    | ok d' =>
      rw [addFile_of_ok hmake hwrite] at h
      cases h
      exact ⟨rfl, Disk.fits_of_writeFile hwrite⟩

theorem of_generate_eq_ok {tree : Tree} (h : generate d root count lines seed = .ok (made, tree)) :
    tree.root = root ∧ ∀ i < count, Path.isTooLong (pathOf root i) = false := by
  induction count generalizing made tree with
  | zero =>
    cases h
    exact ⟨rfl, fun i hi => absurd hi (Nat.not_lt_zero i)⟩
  | succ count ih =>
    cases hrest : generate d root count lines seed with
    | error e => simp [generate_succ, hrest, bind, Except.bind] at h
    | ok before =>
      obtain ⟨hbefore, hfits⟩ := ih hrest
      rw [generate_succ_of_ok hrest] at h
      obtain ⟨hkept, hlast⟩ := of_addFile_eq_ok h
      refine ⟨hkept.trans hbefore, fun i hi => ?_⟩
      rcases Nat.lt_succ_iff_lt_or_eq.1 hi with hlt | rfl
      · exact hfits i hlt
      · rwa [hbefore] at hlast

end Generate

end Fixture
end CommentStrip
