import CommentStrip.Proofs.Fixture
import CommentStrip.Proofs.Report
import CommentStrip.Proofs.Search

/-! A run over made-up files. It finds all of them and nothing else, and as no two of them stand at the same
place, each is stripped as if it were alone. -/
namespace CommentStrip

namespace Disk

/-- Stripping a file does not touch another. -/
theorem process_process_of_ne {d : Disk} {path other : String} (h : d.resolve path ≠ d.resolve other) :
    ((d.process path).2.process other).1 = (d.process other).1 := by
  have hsame := sameButTexts_process d path
  cases ho : (d.process other).1 with
  | error e => exact hsame.process_error ho
  | ok r =>
    obtain ⟨q, g, text, hl, hno, rfl⟩ := process_ok_iff.1 ho
    have hresolves := hsame.sameShape.resolve other ▸ hl.resolves
    refine process_ok_iff.2 ⟨q, g, text, ⟨hresolves, ?_, hsame.caller ▸ hl.mayRead, hl.isText⟩,
      hsame.refusal? other rfl ▸ hno, rfl⟩
    cases hr : (d.process path).1 with
    | error e =>
      rw [process_error hr]
      exact hl.isFile
    | ok r =>
      obtain ⟨p, f, text', hl', -, hd⟩ := process_ok hr
      have hp := ne_nil_of_fileAt? (node?_eq_file_iff.1 hl'.isFile)
      have hne : q ≠ p := by
        rintro rfl
        exact h (hl'.resolves.trans hl.resolves.symm)
      rw [hd, node?_insertFile d hp, if_neg hne]
      exact hl.isFile

/-- No two of the files are at the same place. -/
def Apart (d : Disk) (files : List String) : Prop := files.Pairwise fun a b => d.resolve a ≠ d.resolve b

theorem Apart.processAll {d : Disk} {files : List String} (h : d.Apart files) :
    (d.processAll files).1 = files.map fun path => ⟨path, (d.process path).1⟩ := by
  induction files generalizing d with
  | nil => rfl
  | cons path files ih =>
    obtain ⟨hpath, hfiles⟩ := List.pairwise_cons.1 h
    have hrest : (d.process path).2.Apart files := by
      refine hfiles.imp fun {a b} hab => ?_
      rwa [← (sameShape_process d path).resolve, ← (sameShape_process d path).resolve]
    rw [Disk.processAll, List.map_cons, List.cons.injEq]
    refine ⟨rfl, (ih hrest).trans (List.map_congr_left fun other hm => ?_)⟩
    rw [process_process_of_ne (hpath other hm)]

theorem Apart.countP_leadsTo {d : Disk} {files : List String} (h : d.Apart files) {path : String} {p : Place}
    (hm : path ∈ files) (hp : d.leadsTo path p = true) : files.countP (d.leadsTo · p) = 1 := by
  induction files with
  | nil => cases hm
  | cons first files ih =>
    obtain ⟨hfirst, hfiles⟩ := List.pairwise_cons.1 h
    rcases List.mem_cons.1 hm with rfl | hm
    · have hrest : files.countP (d.leadsTo · p) = 0 := by
        rw [List.countP_eq_zero]
        intro other ho hl
        exact hfirst other ho ((leadsTo_iff.1 hp).1.trans (leadsTo_iff.1 hl).1.symm)
      rw [List.countP_cons, if_pos hp, hrest]
    · have hnot : ¬ d.leadsTo first p = true := by
        intro hl
        exact hfirst path hm ((leadsTo_iff.1 hl).1.trans (leadsTo_iff.1 hp).1.symm)
      rw [List.countP_cons, if_neg hnot, ih hfiles hm]

/-- A file that stands apart is stripped once. -/
theorem Apart.readText {d : Disk} {files : List String} (h : d.Apart files)
    (hc : ∀ path ∈ files, d.CanReplace path) {path text : String} {p : Place} {f : File} (hm : path ∈ files)
    (hl : d.LeadsToText path p f text) (hno : d.refusal? path f = none) :
    (d.processAll files).2.readText path = .ok (stripComments text) := by
  obtain ⟨hreal, hw⟩ := ((hc path hm).refusal?_eq_none_iff hl).1 hno
  have hsame := sameButTexts_processAll d files
  have hnode := node?_processAll hc p
  rw [h.countP_leadsTo hm (leadsTo_iff.2 ⟨hl.resolves, hreal⟩), hl.isFile, Option.map_some,
    Node.iterate_stripped_file, File.iterate_stripped hl.mayRead hl.isText hw] at hnode
  exact readText_eq_ok_iff.2 ⟨p, _, hsame.sameShape.resolve path ▸ hl.resolves, hnode,
    hsame.caller ▸ hl.mayRead, File.text?_toUTF8 f.mode _⟩

end Disk

namespace Fixture

/-- The directory that a run looks in if nothing is configured. -/
theorem resolveTargetDir_default {root : String} (hroot : root ≠ "") :
    ({} : Config).resolveTargetDir root = Path.below root [lib, libAdmin] := by
  have habs : Path.isAbsolute Config.defaultTargetDir = false := by decide
  have hlast := lib.getLast?_append_text_ne (Path.asDirectory root)
  have htext : Config.defaultTargetDir = lib.text ++ ("/" ++ libAdmin.text) := by decide
  have hbelow : Path.below root [lib, libAdmin] =
      Path.asDirectory (Path.asDirectory root ++ lib.text) ++ libAdmin.text := by
    rw [← Path.join_eq hroot lib.isAbsolute_text]
    exact Path.below_concat_eq hroot [lib] libAdmin
  rw [hbelow, Path.asDirectory, if_neg hlast, Config.resolveTargetDir]
  simp only [Config.effectiveTargetDir, Option.getD_none]
  rw [Path.join_eq hroot habs, htext, String.append_assoc, String.append_assoc]

/-- The way from there to page `i`. -/
def targetWay (i : Nat) : List Name := [moduleName i, pageName i]

private theorem below_targetWay (root : String) (i : Nat) :
    Path.below (Path.below root [lib, libAdmin]) (targetWay i) = Path.below root (pageWay i) := by
  have hway : pageWay i = [lib, libAdmin] ++ targetWay i := rfl
  simp only [hway, Path.below, List.foldl_append]

private theorem wanted_pageName (dir : String) {i : Nat} (hi : i < 2 ^ 64) :
    (Search.ofConfig dir {}).wanted (pageName i).text = true := by
  have hext : '.' :: (Config.bareExtension Config.defaultExtension).toList = ".dart".toList := by decide
  have hdefault : (Search.ofConfig dir {}).extension = Config.defaultExtension := rfl
  rw [Search.wanted, hdefault, hext, text_pageName hi, List.isSuffixOf_iff_suffix, String.toList_append]
  exact List.suffix_append _ _

section Grown

variable {d made : Disk} {root : String} {p : Place} {lines count : Nat} {seed : UInt64}
  (hgrown : Grown d made p lines seed count) (hsite : Site d root p count)

include hgrown hsite

theorem Grown.allows (a : Access) {i : Nat} (hi : i < count) {way : List Name} (hne : way ≠ [])
    (hway : way <+: directoryWay i) : made.allows a (p ++ way) = true := by
  refine Disk.allows_iff.2 ⟨_, hgrown.added way _ (.directory i hi hne hway), ?_⟩
  rw [← hgrown.caller]
  exact hsite.keepsOwn.may_newDirectoryMode a

theorem Grown.canChange {i : Nat} (hi : i < count) {way : List Name} (hway : way <+: directoryWay i) :
    made.canChange (p ++ way) = true := by
  by_cases hne : way = []
  · rw [hne, List.append_nil]
    exact (hgrown.toExtends hsite).canChange hsite.canChange
  · exact Bool.and_eq_true_iff.2
      ⟨hgrown.allows hsite .write hi hne hway, hgrown.allows hsite .search hi hne hway⟩

private theorem Grown.searches {i : Nat} (hi : i < count) {way : List Name} (hway : way <+: directoryWay i) :
    made.allows .search (p ++ way) = true :=
  (Bool.and_eq_true_iff.1 (hgrown.canChange hsite hi hway)).2

/-- A walk from there comes to pages only: what it meets first are directories, and they hold pages. -/
theorem Grown.exists_of_found {wanted : String → Bool} {dir : String} {ns : List Name}
    (h : made.Found wanted ⟨dir, p ++ [lib, libAdmin]⟩ ns) : ∃ i < count, ns = targetWay i := by
  have hgrows {tail : List Name} {n : Node} (hn : made.node? (p ++ [lib, libAdmin] ++ tail) = some n) :
      Grows d.toCaller lines seed count (lib :: libAdmin :: tail) n := by
    rw [List.append_assoc] at hn
    exact hgrown.grows_of_node? hsite hn
  cases h with
  | @file _ first hf hw =>
    obtain ⟨n, hn, hne⟩ := Disk.exists_node?_of_isFileAt hf
    exact absurd ((hgrows hn).eq_directory_of_length_le (by simp)) (hne _)
  | @inside _ first ns hsearch hread hfits h =>
    cases h with
    | @file _ second hf hw =>
      obtain ⟨n, hn, -⟩ := Disk.exists_node?_of_isFileAt hf
      rw [List.append_assoc] at hn
      obtain ⟨i, hi, hway, -⟩ := (hgrows hn).exists_page_of_lt_length (by simp)
      have htail : [lib, libAdmin] ++ [first, second] = [lib, libAdmin] ++ targetWay i := hway
      exact ⟨i, hi, List.append_cancel_left htail⟩
    | @inside _ second ns hsearch hread hfits h =>
      obtain ⟨mode, hmode, -⟩ := Disk.allows_iff.1 hread
      rw [List.append_assoc] at hmode
      obtain ⟨i, hi, -, hn⟩ := (hgrows hmode).exists_page_of_lt_length (by simp)
      cases hn

theorem Grown.leadsToText {i : Nat} (hi : i < count) :
    made.LeadsToText (pathOf root i) (p ++ pageWay i) (page d.toCaller lines seed i) (text lines seed i) := by
  have hnode := hgrown.added _ _ (.page i hi)
  refine ⟨?_, hnode, hgrown.caller ▸ hsite.keepsOwn.may_read_newFileMode, File.text?_toUTF8 _ _⟩
  have hfits := hsite.fits i hi
  rw [pathOf_eq root (hsite.index_lt hi)] at hfits ⊢
  rw [pageWay, ← List.append_assoc] at hnode ⊢
  exact Disk.resolve_below ((hgrown.toExtends hsite).resolve hsite.resolves) hfits
    (fun q hq => hgrown.searches hsite hi hq) hnode (by simp)

/-- A new file can be made beside page `i` if its real path is not too long: the name that the new file has for
a while is no longer than that of the page. -/
theorem Grown.obstacleIn?_eq_none {i : Nat} (hi : i < count)
    (hfits : Path.isTooLong (Place.path (p ++ pageWay i)) = false) :
    made.obstacleIn? (p ++ directoryWay i) = none := by
  have hname : Disk.temporaryName.utf8ByteSize ≤ (pageName i).text.utf8ByteSize := by
    have hdigits : (toString i).utf8ByteSize ≠ 0 := by
      rw [ne_eq, String.utf8ByteSize_eq_zero_iff, Nat.toString_eq_repr]
      exact Nat.repr_ne_empty
    have htexts : Disk.temporaryName.utf8ByteSize = 10 ∧ "page_".utf8ByteSize = 5 ∧
        ".dart".utf8ByteSize = 5 := by decide
    rw [text_pageName (hsite.index_lt hi), String.utf8ByteSize_append, String.utf8ByteSize_append]
    omega
  have htemporary : Path.isTooLong (Path.join (Place.path (p ++ directoryWay i)) Disk.temporaryName) = false := by
    rw [pageWay, ← List.append_assoc, Place.path_concat] at hfits
    rw [Path.join_eq (Place.path_ne_empty _) (by decide)]
    simp only [Path.isTooLong, decide_eq_false_iff_not, String.utf8ByteSize_append] at hfits ⊢
    omega
  rw [Disk.obstacleIn?, htemporary, hgrown.canChange hsite hi List.prefix_rfl]
  rfl

/-- Page `i` is stripped just when its real path is found: that of the root is, and leads to the page without
getting too long. -/
theorem Grown.refusal?_eq_none_iff {i : Nat} (hi : i < count) :
    made.refusal? (pathOf root i) (page d.toCaller lines seed i) = none ↔
      d.canonicalize (root ++ "/") = .ok p ∧ d.reaches p = true ∧
        Path.isTooLong (pathOf (Place.path p) i) = false := by
  have hl := hgrown.leadsToText hsite hi
  have hext := hgrown.toExtends hsite
  have habove (q) (hq : q <+: p) : d.isDirectoryAt q = true :=
    hsite.isTree.isDirectoryAt_above hsite.isDirectory hq
  have hreal : made.canonicalize (pathOf root i) = .ok (p ++ pageWay i) ↔
      d.canonicalize (root ++ "/") = .ok p ∧ d.reaches p = true ∧
        Path.isTooLong (Place.path (p ++ pageWay i)) = false := by
    have hnode := hl.isFile
    rw [pathOf_eq root (hsite.index_lt hi), ← hext.canonicalize_slash hsite.isTree hsite.resolves hsite.isDirectory,
      ← hext.reaches habove]
    rw [pageWay, ← List.append_assoc] at hnode ⊢
    exact Disk.canonicalize_below_eq_ok_iff (hext.resolve hsite.resolves)
      (fun q hq => hext.isDirectoryAt (habove q hq)) (fun q hq => hgrown.searches hsite hi hq) hnode (by simp)
  rw [path_append_pageWay p (hsite.index_lt hi)] at hreal
  rw [← hreal, Disk.refusal?]
  cases hc : made.canonicalize (pathOf root i) with
  | error cause => simp
  | ok q =>
    obtain rfl := Disk.eq_of_canonicalize hl.resolves hc
    have hfits := (hreal.1 hc).2.2
    rw [← path_append_pageWay p (hsite.index_lt hi)] at hfits
    have hdrop : (p ++ pageWay i).dropLast = p ++ directoryWay i := by
      rw [pageWay, ← List.append_assoc, List.dropLast_concat]
    simp [page, hsite.keepsOwn.isReadOnly_newFile, hdrop, hgrown.obstacleIn?_eq_none hsite hi hfits]

private theorem Grown.found_targetWay {i : Nat} (hi : i < count) :
    made.Found (Search.ofConfig (Path.below root [lib, libAdmin]) {}).wanted
      ⟨Path.below root [lib, libAdmin], p ++ [lib, libAdmin]⟩ (targetWay i) := by
  have hi' := hsite.index_lt hi
  have hne := (Disk.resolve_eq_ok_iff.1 hsite.resolves).1.ne_empty
  have hpage : made.node? (p ++ [lib, libAdmin] ++ [moduleName i] ++ [pageName i]) =
      some (.file (page d.toCaller lines seed i)) := by
    rw [List.append_assoc, List.append_assoc]
    exact hgrown.added _ _ (.page i hi)
  refine .inside ?_ ?_ ?_ (.file (Disk.isFileAt_of_node? hpage) (wanted_pageName _ hi'))
  · exact hgrown.searches hsite hi (List.prefix_append [lib, libAdmin] [moduleName i])
  · rw [List.append_assoc]
    exact hgrown.allows hsite .read hi (by simp) List.prefix_rfl
  · rw [← Path.below_concat]
    refine Path.isTooLong_below_of_prefix hne ?_ (pathOf_eq root hi' ▸ hsite.fits i hi)
    exact List.prefix_append (directoryWay i) [pageName i]

private theorem Grown.resolve_target {i : Nat} (hi : i < count) :
    made.resolve (Path.below root [lib, libAdmin]) = .ok (p ++ [lib, libAdmin]) := by
  have hne := (Disk.resolve_eq_ok_iff.1 hsite.resolves).1.ne_empty
  have hmodule : [lib, libAdmin] <+: directoryWay i := List.prefix_append [lib, libAdmin] [moduleName i]
  have hshort := hsite.fits i hi
  rw [pathOf_eq root (hsite.index_lt hi)] at hshort
  have hadmin := hgrown.added _ _ (.directory i hi (by simp) hmodule)
  have hway : [lib, libAdmin] = [lib] ++ [libAdmin] := rfl
  rw [hway, ← List.append_assoc] at hadmin ⊢
  have hresolve := (hgrown.toExtends hsite).resolve hsite.resolves
  refine Disk.resolve_below hresolve ?_ (fun q hq => ?_) hadmin (by simp)
  · exact Path.isTooLong_below_of_prefix hne (List.prefix_append [lib, libAdmin] (targetWay i)) hshort
  · exact hgrown.searches hsite hi ((hq.trans (List.prefix_append [lib] [libAdmin])).trans hmodule)

omit hgrown in
theorem Site.nodup_files : ((List.range count).map (pathOf root)).Nodup := by
  have hne := (Disk.resolve_eq_ok_iff.1 hsite.resolves).1.ne_empty
  refine List.Nodup.map_on (fun i hi j hj h => ?_) List.nodup_range
  rw [List.mem_range] at hi hj
  rw [pathOf_eq root (hsite.index_lt hi), pathOf_eq root (hsite.index_lt hj)] at h
  exact pageWay_inj (hsite.index_lt hi) (hsite.index_lt hj) (Path.below_inj hne h)

/-- The run takes all pages and no other file. -/
theorem Grown.files_perm {i : Nat} (hi : i < count) :
    (filesBelow made (Path.below root [lib, libAdmin]) {}).Perm ((List.range count).map (pathOf root)) := by
  have hread := hgrown.allows hsite .read hi (by simp) (List.prefix_append [lib, libAdmin] [moduleName i])
  obtain ⟨ways, hways⟩ := @Search.exists_lists_findings
    (Search.ofConfig (Path.below root [lib, libAdmin]) {}) made _ rfl
    (hgrown.resolve_target hsite hi) (Disk.isDirectoryAt_of_allows hread)
  have hpaths : ((List.range count).map targetWay).map (Path.below (Path.below root [lib, libAdmin])) =
      (List.range count).map (pathOf root) := by
    rw [List.map_map]
    refine List.map_congr_left fun i hi => ?_
    rw [Function.comp_apply, pathOf_eq root (hsite.index_lt (List.mem_range.1 hi)), ← below_targetWay]
  have hpages : ((List.range count).map targetWay).Nodup :=
    .of_map (Path.below (Path.below root [lib, libAdmin])) (hpaths ▸ hsite.nodup_files)
  have hperm : ways.Perm ((List.range count).map targetWay) := by
    refine (List.perm_ext_iff_of_nodup hways.nodup hpages).2 fun ns => ?_
    rw [hways.mem_iff, List.mem_map]
    constructor
    · rintro ⟨-, h⟩
      obtain ⟨i, hi, rfl⟩ := hgrown.exists_of_found hsite h
      exact ⟨i, List.mem_range.2 hi, rfl⟩
    · rintro ⟨i, hi, rfl⟩
      exact ⟨hread, hgrown.found_targetWay hsite (List.mem_range.1 hi)⟩
  have hfiles : filesBelow made (Path.below root [lib, libAdmin]) {} =
      ways.map (Path.below (Path.below root [lib, libAdmin])) := hways.files_eq
  rw [hfiles, ← hpaths]
  exact hperm.map _

private theorem Grown.apart {i : Nat} (hi : i < count) :
    made.Apart (filesBelow made (Path.below root [lib, libAdmin]) {}) := by
  have hperm := hgrown.files_perm hsite hi
  refine (hperm.pairwise_iff fun h => h.symm).2 (List.pairwise_map.2 ?_)
  refine List.Pairwise.imp_of_mem (fun {i j} hi hj hij heq => ?_) List.nodup_range
  rw [List.mem_range] at hi hj
  rw [(hgrown.leadsToText hsite hi).resolves,
    (hgrown.leadsToText hsite hj).resolves] at heq
  have hway := List.append_cancel_left (Except.ok.inj heq)
  exact hij (pageWay_inj (hsite.index_lt hi) (hsite.index_lt hj) hway)

/-- Every page has its turn as if it were alone. -/
theorem Grown.run_outcome {i : Nat} (hi : i < count) :
    (run made root {}).outcome = .ok (.ofAttempts (Path.below root [lib, libAdmin])
      ((filesBelow made (Path.below root [lib, libAdmin]) {}).map
        fun path => ⟨path, (made.process path).1⟩)) := by
  have hne := (Disk.resolve_eq_ok_iff.1 hsite.resolves).1.ne_empty
  have hexists : made.pathExists (Path.below root [lib, libAdmin]) = true := by
    rw [Disk.pathExists, hgrown.resolve_target hsite hi]
    rfl
  rw [run, resolveTargetDir_default hne, runIn_outcome hexists,
    (hgrown.apart hsite hi).processAll]

private theorem Grown.mem_files_iff {i : Nat} (hi : i < count) {path : String} :
    path ∈ filesBelow made (Path.below root [lib, libAdmin]) {} ↔ ∃ j < count, pathOf root j = path := by
  rw [(hgrown.files_perm hsite hi).mem_iff, List.mem_map]
  simp only [List.mem_range]

/-- A run fails on no page just when none is refused. -/
theorem Grown.failures_eq_nil_iff {i : Nat} (hi : i < count) {report : Report}
    (hreport : (run made root {}).outcome = .ok report) :
    report.failures = [] ↔
      ∀ j < count, made.refusal? (pathOf root j) (page d.toCaller lines seed j) = none := by
  rw [hgrown.run_outcome hsite hi] at hreport
  obtain rfl := Except.ok.inj hreport
  rw [Report.ofAttempts, List.filterMap_eq_nil_iff]
  constructor
  · intro h j hj
    have hfail := h _ (List.mem_map_of_mem ((hgrown.mem_files_iff hsite hi).2 ⟨j, hj, rfl⟩))
    cases hno : made.refusal? (pathOf root j) (page d.toCaller lines seed j) with
    | none => rfl
    | some cause =>
      rw [Disk.process_of_refused (hgrown.leadsToText hsite hj) hno] at hfail
      cases hfail
  · intro h a ha
    obtain ⟨path, hm, rfl⟩ := List.mem_map.1 ha
    obtain ⟨j, hj, rfl⟩ := (hgrown.mem_files_iff hsite hi).1 hm
    rw [Disk.process_of_not_refused (hgrown.leadsToText hsite hj) (h j hj)]

section Clean

variable (hno : ∀ i < count, made.refusal? (pathOf root i) (page d.toCaller lines seed i) = none)

include hno

private theorem Grown.processed_perm {i : Nat} (hi : i < count) {report : Report}
    (hreport : (run made root {}).outcome = .ok report) :
    report.processed.Perm ((List.range count).map fun i =>
      .ofTexts (pathOf root i) (text lines seed i) (stripComments (text lines seed i))) := by
  rw [hgrown.run_outcome hsite hi] at hreport
  obtain rfl := Except.ok.inj hreport
  rw [Report.ofAttempts, List.filterMap_map]
  refine ((hgrown.files_perm hsite hi).filterMap _).trans ?_
  rw [List.filterMap_map, ← List.filterMap_eq_map]
  refine List.Perm.of_eq (List.filterMap_congr fun j hj => ?_)
  rw [List.mem_range] at hj
  simp only [Function.comp_apply, Disk.process_of_not_refused (hgrown.leadsToText hsite hj) (hno j hj),
    Except.toOption]

private theorem Grown.readText_run {i : Nat} (hi : i < count) :
    (run made root {}).disk.readText (pathOf root i) = .ok (stripComments (text lines seed i)) := by
  have hne := (Disk.resolve_eq_ok_iff.1 hsite.resolves).1.ne_empty
  have hm := (hgrown.mem_files_iff hsite hi).2 ⟨i, hi, rfl⟩
  have hl := hgrown.leadsToText hsite hi
  rw [run, resolveTargetDir_default hne, runIn_disk]
  refine (hgrown.apart hsite hi).readText (fun path hpath q hq => ?_) hm hl (hno i hi)
  obtain ⟨j, hj, rfl⟩ := (hgrown.mem_files_iff hsite hi).1 hpath
  rw [(hgrown.leadsToText hsite hj).resolves] at hq
  obtain rfl := Except.ok.inj hq
  have hfits := ((hgrown.refusal?_eq_none_iff hsite hj).1 (hno j hj)).2.2
  rw [← path_append_pageWay p (hsite.index_lt hj)] at hfits
  rw [pageWay, ← List.append_assoc, List.dropLast_concat]
  exact hgrown.obstacleIn?_eq_none hsite hj hfits

end Clean

end Grown

/-- Below a directory that has no `lib` and can be changed, as many pages are written as were asked for, each to a
path of its own. A run with nothing configured then finds all of them and nothing else, fails on none, counts the
bytes that were written, and leaves every page stripped. All this is so just when the real path of the directory is
found and no page has a path that is too long, be it the one that is written or the real one. -/
theorem run_generate_iff (d : Disk) (root : String) (p : Place) (count : UInt64) (lines : Nat)
    (seed : UInt64) (htree : d.IsTree) (hown : d.KeepsOwn) (hroot : d.resolve root = .ok p)
    (hchange : d.canChange p = true) (hfree : d.entry? (p ++ [lib]) = none) (hcount : 1 ≤ count.toNat) :
    (d.canonicalize (root ++ "/") = .ok p ∧ d.reaches p = true ∧
      ∀ i < count.toNat, Path.isTooLong (pathOf root i) = false ∧
        Path.isTooLong (pathOf (Place.path p) i) = false) ↔
    ∃ made tree report, generate d root count.toNat lines seed = .ok (made, tree) ∧
      tree.files = (List.range count.toNat).map (pathOf root) ∧ tree.files.Nodup ∧
      (∀ i < count.toNat, made.readText (pathOf root i) = .ok (source lines (seed + i.toUInt64))) ∧
      (run made root {}).outcome = .ok report ∧ report.isClean = true ∧
      (report.processed.map Processed.path).Perm tree.files ∧
      (report.processed.map Processed.bytesBefore).sum = tree.totalBytes ∧
      ∀ i < count.toNat, (run made root {}).disk.readText (pathOf root i) =
        .ok (stripComments (source lines (seed + i.toUInt64))) := by
  have hsite (hfits : ∀ i < count.toNat, Path.isTooLong (pathOf root i) = false) :
      Site d root p count.toNat :=
    ⟨htree, hown, hroot, hchange, hfree, Nat.le_of_lt count.toNat_lt, hfits⟩
  constructor
  · rintro ⟨hreal, hreach, hfits⟩
    have hsite := hsite fun i hi => (hfits i hi).1
    obtain ⟨made, hgenerate, hgrown⟩ := hsite.exists_generate lines seed
    have hno (i) (hi : i < count.toNat) := (hgrown.refusal?_eq_none_iff hsite hi).2 ⟨hreal, hreach, (hfits i hi).2⟩
    have hreport := hgrown.run_outcome hsite hcount
    have hprocessed := hgrown.processed_perm hsite hno hcount hreport
    refine ⟨made, _, _, hgenerate, rfl, ?_, fun i hi => ?_, hreport, ?_, ?_, ?_, fun i hi => ?_⟩
    · exact hsite.nodup_files
    · exact Disk.readText_eq_ok_iff.2 ⟨_, _, hgrown.leadsToText hsite hi⟩
    · rw [Report.isClean, (hgrown.failures_eq_nil_iff hsite hcount hreport).2 hno]
      rfl
    · refine (hprocessed.map Processed.path).trans (List.Perm.of_eq ?_)
      rw [List.map_map]
      rfl
    · rw [(hprocessed.map Processed.bytesBefore).sum_nat, List.map_map]
      rfl
    · exact hgrown.readText_run hsite hno hi
  · rintro ⟨made, tree, report, hgenerate, -, -, -, hreport, hclean, -⟩
    obtain ⟨-, hfits⟩ := of_generate_eq_ok hgenerate
    obtain ⟨made', hgenerate', hgrown⟩ := (hsite hfits).exists_generate lines seed
    obtain ⟨rfl, -⟩ := Prod.mk.inj (Except.ok.inj (hgenerate.symm.trans hgenerate'))
    have hnone : report.failures = [] := by simpa [Report.isClean] using hclean
    have hno := (hgrown.failures_eq_nil_iff (hsite hfits) hcount hreport).1 hnone
    have hreal (i) (hi : i < count.toNat) := (hgrown.refusal?_eq_none_iff (hsite hfits) hi).1 (hno i hi)
    obtain ⟨hroot', hreach, -⟩ := hreal 0 hcount
    exact ⟨hroot', hreach, fun i hi => ⟨hfits i hi, (hreal i hi).2.2⟩⟩

namespace Linked

abbrev home : Name := ⟨"home", by decide⟩
abbrev here : Name := ⟨"here", by decide⟩

/-- A directory, and a link to it. -/
def disk : Disk where
  entries := [([home], .directory 0o755), ([here], .link "home")]
  distinct := by decide

theorem isOpen : disk.IsOpen := ⟨⟨by decide, rfl⟩, by decide, by decide, by decide⟩

theorem resolve : disk.resolve "here" = .ok [home] ∧ disk.resolve ("here" ++ "/") = .ok [home] := by
  have hsteps : Path.steps "here" = [here.text] ∧ Path.steps ("here" ++ "/") = [here.text] ++ [""] ∧
      Path.steps "home" ++ [] = [home.text] := by decide
  have hleads : disk.Leads 40 [] [here.text] [home] := by
    refine .move (.follow 39 [] here "home" rfl rfl) ?_
    rw [hsteps.2.2]
    exact .move (.enter 39 [] home (.directory 0o755) rfl rfl (by simp)) (.arrive 39 [home])
  have hstart := Disk.start_eq_nil (rfl : disk.workingDir = [])
  rw [Disk.resolve_eq_ok_iff, Disk.resolve_eq_ok_iff, hsteps.1, hsteps.2.1, hstart, hstart]
  exact ⟨⟨by decide, hleads⟩, by decide, hleads.slash rfl⟩

/-- Nine pages through the link. The ninth shares its directory with the first, and the seeds start over
from zero after the first page. -/
theorem run_generate_iff_nine :
    (disk.IsTree ∧ disk.KeepsOwn ∧ disk.resolve "here" = .ok [home] ∧ disk.canChange [home] = true ∧
      disk.entry? ([home] ++ [lib]) = none) ∧
    (disk.canonicalize ("here" ++ "/") = .ok [home] ∧ disk.reaches [home] = true ∧
      ∀ i < 9, Path.isTooLong (pathOf "here" i) = false ∧
        Path.isTooLong (pathOf (Place.path [home]) i) = false) ∧
    ∃ made tree report, generate disk "here" 9 3 0xFFFFFFFFFFFFFFFF = .ok (made, tree) ∧
      (run made "here" {}).outcome = .ok report ∧ report.isClean = true ∧
      (report.processed.map Processed.path).Perm tree.files ∧
      (run made "here" {}).disk.readText "here/lib/lib_admin/module_0/page_8.dart" =
        .ok (stripComments (source 3 7)) := by
  have hfits : ∀ i < 9, Path.isTooLong (pathOf "here" i) = false ∧
      Path.isTooLong (pathOf (Place.path [home]) i) = false := by decide
  have hown : disk.KeepsOwn := Caller.keepsOwn_of_umask rfl
  have hreal := isOpen.canonicalize resolve.2
  obtain ⟨made, tree, report, hgenerate, -, -, -, hreport, hclean, hperm, -, htexts⟩ :=
    (run_generate_iff disk "here" [home] 9 3 0xFFFFFFFFFFFFFFFF isOpen.toIsTree hown resolve.1 rfl rfl
      (by decide)).1 ⟨hreal, by decide, hfits⟩
  have hpath : pathOf "here" 8 = "here/lib/lib_admin/module_0/page_8.dart" := by decide
  refine ⟨⟨isOpen.toIsTree, hown, resolve.1, rfl, rfl⟩, ⟨hreal, by decide, hfits⟩, made, tree, report, hgenerate,
    hreport, hclean, hperm, ?_⟩
  rw [← hpath]
  exact htexts 8 (by decide)

end Linked

namespace Slashes

/-- The working directory, with slashes that change nothing about where the path leads. -/
def root (n : Nat) : String := String.ofList ('.' :: List.replicate n '/')

private theorem names_root (n : Nat) : Path.names (root n) = ["."] := by
  have hslashes (n : Nat) : ((List.replicate n '/').splitOn '/').filter (· ≠ []) = [] := by
    induction n with
    | zero => simp
    | succ n ih =>
      have hcons : List.replicate (n + 1) '/' = [] ++ '/' :: List.replicate n '/' := rfl
      rw [hcons, List.splitOn_append_cons_self, List.filter_append, ih]
      simp
  cases n with
  | zero => decide
  | succ n =>
    have hcons : (root (n + 1)).toList = ['.'] ++ '/' :: List.replicate n '/' := by
      rw [root, String.toList_ofList]
      rfl
    rw [Path.names, Path.separator, hcons, List.splitOn_append_cons_self, List.filter_append, hslashes]
    decide

theorem utf8ByteSize_root (n : Nat) : (root n).utf8ByteSize = n + 1 := by
  have hslashes : String.utf8Len (List.replicate n '/') = n := by
    induction n with
    | zero => rfl
    | succ n ih =>
      have hsize : '/'.utf8Size = 1 := by decide
      rw [List.replicate_succ, String.utf8Len_cons, ih, hsize]
  have hdot : '.'.utf8Size = 1 := by decide
  rw [← String.utf8Len_toList, root, String.toList_ofList, String.utf8Len_cons, hslashes, hdot]

theorem root_ne_empty (n : Nat) : root n ≠ "" := by
  intro h
  have hsize := utf8ByteSize_root n
  rw [h] at hsize
  simp at hsize

/-- The working directory has paths of any length up to the limit. -/
theorem resolve {d : Disk} (hd : d.allows .search d.workingDir = true) {n : Nat} (hn : n < Path.sizeLimit) :
    d.resolve (root n) = .ok d.workingDir := by
  have hwritten : Disk.IsWritten (root n) := by
    refine ⟨root_ne_empty n, by simp [root], ?_⟩
    rw [Path.isTooLong, utf8ByteSize_root]
    exact decide_eq_false (Nat.not_lt.2 hn)
  have hstay : d.Moves Disk.linkLimit d.workingDir "." ⟨Disk.linkLimit, d.workingDir, []⟩ := .stay _ _ hd
  have hstart : d.start (root n) = d.workingDir := by
    have hdot : Path.isAbsolute (root n) = false := by simp [Path.isAbsolute, root, Path.separator]
    simp [Disk.start, hdot]
  rw [Disk.resolve_eq_ok_iff, hstart, Path.steps_eq, names_root]
  refine ⟨hwritten, .move hstay ?_⟩
  split
  · exact .move (.stop _ _ (Disk.isDirectoryAt_of_allows hd)) (.arrive _ _)
  · exact .arrive _ _

private theorem isTooLong_pathOf {n : Nat} (hn : 4064 ≤ n) : Path.isTooLong (pathOf (root n) 0) = true := by
  have hnames : ((pageWay 0).map fun name => name.text.utf8ByteSize).sum = 31 := by decide
  have hroot : (Path.below (root n) []).utf8ByteSize = n + 1 := utf8ByteSize_root n
  have hle := Path.utf8ByteSize_below_le (root_ne_empty n) [] (pageWay 0)
  rw [hnames, hroot, List.nil_append] at hle
  rw [pathOf_eq _ (by decide), Path.isTooLong, Path.sizeLimit, decide_eq_true_iff]
  omega

end Slashes

namespace Far

private theorem entry?_lib (n : Nat) : Disk.entry? (Deep.disk n) (Deep.down (n + 1) ++ [lib]) = none := by
  cases he : Disk.entry? (Deep.disk n) (Deep.down (n + 1) ++ [lib]) with
  | none => rfl
  | some e =>
    rcases List.mem_append.1 ((Disk.mem_entries_iff (by simp)).2 he) with h | h
    · obtain ⟨k, -, hk⟩ := List.mem_map.1 h
      have hlast := congrArg List.getLast? (Prod.mk.inj hk).1
      simp [Deep.down, List.getLast?_replicate] at hlast
    · simp [Deep.texts, Deep.down, List.replicate_succ] at h

theorem canChange (n : Nat) : (Deep.disk n).canChange (Deep.down (n + 1)) = true :=
  Bool.and_eq_true_iff.2 ⟨Deep.allows_down n .write (Nat.le_refl _), Deep.allows_down n .search (Nat.le_refl _)⟩

/-- Pages are made there by short paths, and the run cannot strip them. -/
theorem exists_run_not_clean {n : Nat} (hn : 1023 ≤ n) :
    ∃ made tree report, generate (Deep.disk n) "." 1 1 1 = .ok (made, tree) ∧
      (run made "." {}).outcome = .ok report ∧ report.isClean = false := by
  have hsite : Site (Deep.disk n) "." (Deep.down (n + 1)) 1 :=
    ⟨Deep.isTree n, Caller.keepsOwn_of_umask rfl, Deep.resolve_here n, canChange n, entry?_lib n, by decide, by decide⟩
  obtain ⟨made, hgenerate, hgrown⟩ := hsite.exists_generate 1 1
  have hreport := hgrown.run_outcome hsite Nat.one_pos
  refine ⟨made, _, _, hgenerate, hreport, ?_⟩
  rw [Report.isClean, List.isEmpty_eq_false_iff, ne_eq, hgrown.failures_eq_nil_iff hsite Nat.one_pos hreport]
  intro hno
  have hfits := ((hgrown.refusal?_eq_none_iff hsite Nat.one_pos).1 (hno 0 Nat.one_pos)).2.2
  have hle := Deep.le_utf8ByteSize_path n (pageWay 0)
  rw [path_append_pageWay _ (by decide)] at hle
  rw [Path.isTooLong, Path.sizeLimit, decide_eq_false_iff_not] at hfits
  omega

end Far

namespace Masked

/-- The owner's right to write is taken from all that the program makes. -/
def disk : Disk := { Linked.disk with umask := 0o222 }

/-- The first directory is made, and nothing can be made in it. -/
theorem makeDirectory_eq : disk.makeDirectory (directoryOf "." 0) = .error .permissionDenied := by
  have hsteps : Path.steps (directoryOf "." 0) = ["."] ++ [lib.text, libAdmin.text, "module_0"] := by decide
  have hdot : disk.Leads Disk.linkLimit [] ["."] [] := .move (.stay _ _ rfl) (.arrive _ _)
  obtain ⟨d, hext, hnode, hlib⟩ := @Disk.makeFrom_name disk [] lib rfl (.inl rfl)
  have hmode : d.node? ([] ++ [lib]) = some (.directory 0o555) := by rw [hnode, if_pos rfl]; rfl
  have hmay (a : Access) : d.allows a ([] ++ [lib]) = disk.may a 0o555 := by
    rw [Disk.allows, Disk.node?_eq_directory_iff.1 hmode, hext.caller]
  have hadmin : d.node? ([] ++ [lib] ++ [libAdmin]) = none := by rw [hnode, if_neg (by decide)]; rfl
  have hchange : d.canChange ([] ++ [lib]) = false := by
    rw [Disk.canChange, hmay, hmay]
    decide
  rw [Disk.makeDirectory, if_neg (by decide), if_neg (by decide), hsteps,
    Disk.start_eq_nil rfl, hdot.makeFrom_append (Nat.le_refl _) rfl, hlib, Disk.makeFrom,
    Disk.trace_absent true (by rw [hmay]; decide) hadmin]
  simp only [List.dropLast_concat, hchange]
  rfl

private theorem generate_ne_ok (made : Disk) (tree : Tree) : generate disk "." 1 1 1 ≠ .ok (made, tree) := by
  have hone : List.range 1 = [0] := rfl
  simp [generate, hone, addFile, makeDirectory_eq, bind, Except.bind]

end Masked

/-- A directory that can be changed and has no `lib` may still leave no room for pages. Where its path is too long as
it is written, they cannot be made, and where the real one is too long, they cannot be stripped. Nor can they be made
where the owner's rights are taken from new directories. -/
theorem canChange_not_sufficient :
    ((({} : Disk).IsTree ∧ ({} : Disk).resolve (Slashes.root 4080) = .ok [] ∧ ({} : Disk).canChange [] = true ∧
      Disk.entry? {} ([] ++ [lib]) = none) ∧
      ∀ made tree, generate {} (Slashes.root 4080) 1 1 1 ≠ .ok (made, tree)) ∧
    (((Deep.disk 1023).IsTree ∧ (Deep.disk 1023).resolve "." = .ok (Deep.down 1024) ∧
      (Deep.disk 1023).canChange (Deep.down 1024) = true ∧
      Disk.entry? (Deep.disk 1023) (Deep.down 1024 ++ [lib]) = none) ∧
      ∃ made tree report, generate (Deep.disk 1023) "." 1 1 1 = .ok (made, tree) ∧
        (run made "." {}).outcome = .ok report ∧ report.isClean = false) ∧
    ((Masked.disk.IsTree ∧ Masked.disk.resolve "." = .ok [] ∧ Masked.disk.canChange [] = true ∧
      Disk.entry? Masked.disk ([] ++ [lib]) = none) ∧
      ∀ made tree, generate Masked.disk "." 1 1 1 ≠ .ok (made, tree)) := by
  refine ⟨⟨⟨⟨by simp, rfl⟩, Slashes.resolve rfl (by decide), rfl, rfl⟩, fun made tree h => ?_⟩,
    ⟨⟨Deep.isTree 1023, Deep.resolve_here 1023, Far.canChange 1023, Far.entry?_lib 1023⟩,
      Far.exists_run_not_clean (Nat.le_refl 1023)⟩,
    ⟨⟨⟨by decide, rfl⟩, ?_, rfl, rfl⟩, Masked.generate_ne_ok⟩⟩
  · obtain ⟨-, hfits⟩ := of_generate_eq_ok h
    have hpath := hfits 0 (by decide)
    rw [Slashes.isTooLong_pathOf (by decide)] at hpath
    cases hpath
  · exact @Slashes.resolve Masked.disk rfl 0 (by decide)

end Fixture

end CommentStrip
