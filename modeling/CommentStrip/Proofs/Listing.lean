import CommentStrip.Proofs.Config
import CommentStrip.Proofs.FixtureRun
import CommentStrip.Proofs.Order

/-! The files that a search lists if links are not followed: which they are, and their order. -/
namespace CommentStrip

/-- A name ends in a dot and an extension, of which the dots in front do not count. -/
def HasExtension (extension name : String) : Prop :=
  ∃ dots bare stem, extension.toList = List.replicate dots '.' ++ bare ∧ bare.head? ≠ some '.' ∧
    name.toList = stem ++ '.' :: bare

theorem Search.wanted_iff (s : Search) (name : String) :
    s.wanted name = true ↔ HasExtension s.extension name := by
  rw [Search.wanted, List.isSuffixOf_iff_suffix]
  constructor
  · rintro ⟨stem, hstem⟩
    obtain ⟨dots, hdots⟩ := Config.exists_dots s.extension
    exact ⟨dots, _, stem, hdots, Config.head?_bareExtension_ne s.extension, hstem.symm⟩
  · rintro ⟨dots, bare, stem, hdots, hbare, hname⟩
    rw [Config.toList_bareExtension hdots hbare, hname]
    exact List.suffix_append stem ('.' :: bare)

private theorem Name.before_iff {ns ns' : List Name} :
    Before ns ns' ↔ List.Lex (fun a b : Name => Text.BytesBefore a.text b.text) ns ns' := by
  have hrel : (fun a b : Name => Text.isBefore a.text b.text = true) =
      fun a b : Name => Text.BytesBefore a.text b.text := by
    funext a b
    exact propext Text.isBefore_iff_bytesBefore
  rw [Before, hrel]

namespace Disk

/-- A file is below a directory by the names of directories and a last name. It is one itself or a link
that leads to no directory. All directories can be read, those on the way can be searched, and the path of the one
that holds the file can be opened. -/
structure Holds (d : Disk) (here : Visit) (dirs : List Name) (name : Name) : Prop where
  readable : ∀ q, q <+: dirs → d.allows .read (here.place ++ q) = true
  searchable : ∀ q, q <+: dirs → q ≠ dirs → d.allows .search (here.place ++ q) = true
  opened : dirs ≠ [] → Path.isTooLong (Path.below here.path dirs) = false
  isFile : d.IsFileAt (Path.below here.path (dirs ++ [name])) (here.place ++ (dirs ++ [name]))

section Holds

variable {d : Disk} {here : Visit} {dirs : List Name} {first name : Name}

theorem Holds.nil (hread : d.allows .read here.place = true)
    (hf : d.IsFileAt (Path.join here.path name.text) (here.place ++ [name])) : d.Holds here [] name := by
  refine ⟨fun q hq => ?_, fun q hq hne => absurd (List.prefix_nil.1 hq) hne, fun hne => absurd rfl hne, hf⟩
  rw [List.prefix_nil.1 hq, List.append_nil]
  exact hread

theorem Holds.cons (hread : d.allows .read here.place = true) (hsearch : d.allows .search here.place = true)
    (hfits : Path.isTooLong (Path.join here.path first.text) = false)
    (h : d.Holds ⟨Path.join here.path first.text, here.place ++ [first]⟩ dirs name) :
    d.Holds here (first :: dirs) name := by
  refine ⟨fun q hq => ?_, fun q hq hne => ?_, fun _ => ?_, ?_⟩
  · rcases List.prefix_cons_iff.1 hq with rfl | ⟨tail, rfl, htail⟩
    · simpa using hread
    · simpa using h.readable tail htail
  · rcases List.prefix_cons_iff.1 hq with rfl | ⟨tail, rfl, htail⟩
    · simpa using hsearch
    · simpa using h.searchable tail htail (by simpa using hne)
  · cases dirs with
    | nil => exact hfits
    | cons second dirs => exact h.opened (List.cons_ne_nil second dirs)
  · have hfile := h.isFile
    rwa [List.append_assoc] at hfile

theorem Holds.tail (hpath : here.path ≠ "") (h : d.Holds here (first :: dirs) name) :
    d.allows .search here.place = true ∧ Path.isTooLong (Path.join here.path first.text) = false ∧
      d.Holds ⟨Path.join here.path first.text, here.place ++ [first]⟩ dirs name := by
  have hopened := h.opened (List.cons_ne_nil first dirs)
  have hsearch : d.allows .search here.place = true := by simpa using h.searchable [] (by simp) (by simp)
  refine ⟨hsearch, ?_, fun q hq => ?_, fun q hq hne => ?_, fun _ => hopened, ?_⟩
  · exact Path.isTooLong_below_of_prefix hpath (List.prefix_append [first] dirs) hopened
  · rw [List.append_assoc]
    exact h.readable (first :: q) (List.cons_prefix_cons.2 ⟨rfl, hq⟩)
  · rw [List.append_assoc]
    exact h.searchable (first :: q) (List.cons_prefix_cons.2 ⟨rfl, hq⟩) (by simpa using hne)
  · have hfile := h.isFile
    rw [List.append_assoc]
    exact hfile

theorem Holds.allows_read (h : d.Holds here dirs name) : d.allows .read here.place = true := by
  simpa using h.readable [] List.nil_prefix

private theorem found_iff {wanted : String → Bool} {ns : List Name} (hpath : here.path ≠ "") :
    d.allows .read here.place = true ∧ d.Found wanted here ns ↔
      ∃ dirs name, ns = dirs ++ [name] ∧ d.Holds here dirs name ∧ wanted name.text = true := by
  constructor
  · rintro ⟨hread, h⟩
    induction h with
    | @file here name hf hw =>
      exact ⟨[], name, rfl, .nil hread hf, hw⟩
    | @inside here first ns hsearch hinner hfits h ih =>
      obtain ⟨dirs, name, rfl, hholds, hw⟩ := ih (Path.below_ne_empty hpath [first]) hinner
      exact ⟨first :: dirs, name, rfl, hholds.cons hread hsearch hfits, hw⟩
  · rintro ⟨dirs, name, rfl, hholds, hw⟩
    refine ⟨hholds.allows_read, ?_⟩
    induction dirs generalizing here with
    | nil => exact .file hholds.isFile hw
    | cons first dirs ih =>
      obtain ⟨hsearch, hfits, htail⟩ := hholds.tail hpath
      exact .inside hsearch htail.allows_read hfits (ih (Path.below_ne_empty hpath [first]) htail)

end Holds

theorem Lists.nodup_files {findings : List Finding} {base : String} {ways : List (List Name)}
    {P : List Name → Prop} (h : Lists findings base ways P) (hbase : base ≠ "") :
    (findings.filterMap Finding.file?).Nodup := by
  rw [h.files_eq]
  exact h.nodup.map fun ns ns' heq => Path.below_inj hbase heq

end Disk

/-- Without following links, a search lists the files below its root that have the extension, each of them
once, in the order of the names by which they are reached. The names are compared one by one, by their
bytes. What is in a directory that cannot be read, or reached, or that has a path that is too long, is not among
them. -/
theorem Search.discover_files (d : Disk) (root extension : String) (p : Place)
    (hroot : d.resolve root = .ok p) (hdir : d.isDirectoryAt p = true) :
    ∃ ways : List (List Name),
      (discover ⟨root, extension, false⟩ d).files = ways.map (Path.below root) ∧
      (discover ⟨root, extension, false⟩ d).files.Nodup ∧
      ways.Pairwise (List.Lex fun a b : Name => Text.BytesBefore a.text b.text) ∧
      ∀ ns, ns ∈ ways ↔ ∃ dirs name, ns = dirs ++ [name] ∧ d.Holds ⟨root, p⟩ dirs name ∧
        HasExtension extension name.text := by
  have hne := (Disk.resolve_eq_ok_iff.1 hroot).1.ne_empty
  obtain ⟨ways, hways⟩ := @Search.exists_lists_findings ⟨root, extension, false⟩ d p rfl hroot hdir
  refine ⟨ways, hways.files_eq, hways.nodup_files hne, ?_, fun ns => ?_⟩
  · exact hways.sorted.imp fun h => Name.before_iff.1 h
  · rw [hways.mem_iff, @Disk.found_iff d ⟨root, p⟩ _ ns hne]
    simp only [Search.wanted_iff]

namespace Woven

abbrev pages : Name := ⟨"pages", by decide⟩
abbrev top : Name := ⟨"top.dart", by decide⟩
abbrev pagesDart : Name := ⟨"pages.dart", by decide⟩
abbrev gone : Name := ⟨"gone.dart", by decide⟩
abbrev round : Name := ⟨"round.dart", by decide⟩
abbrev twin : Name := ⟨"twin", by decide⟩
abbrev nowhere : Name := ⟨"nowhere", by decide⟩
abbrev plug : Name := ⟨"plug", by decide⟩
abbrev odd : Name := ⟨"odd.dart", by decide⟩

/-- A directory and a file with nearly the same name, a socket, and four links: to nothing, back to where it stands,
to the directory, and to the socket. -/
def disk : Disk where
  entries := [([pages], .directory 0o755), ([pages, top], .file 1), ([pagesDart], .file 2),
    ([gone], .link "nowhere"), ([round], .link "."), ([twin], .link "pages"), ([plug], .special (.system 6)),
    ([odd], .link "plug")]
  distinct := by decide

theorem resolve : disk.resolve "." = .ok [] := Disk.resolve_dot rfl

/-- A link of the working directory is followed from there. -/
theorem locate_link {path target : String} {name : Name} (hw : Disk.IsWritten path)
    (hsteps : Path.steps path = [".", name.text]) (hn : disk.node? [name] = some (.link target)) :
    disk.locate true path = disk.trace true 39 [] (Path.steps target) := by
  have hstay : disk.Moves Disk.linkLimit [] "." ⟨39 + 1, [], []⟩ := .stay _ _ rfl
  rw [hw.locate, Disk.start_eq_nil rfl, hsteps, hstay.trace, List.nil_append, Disk.trace_follow rfl hn]
  simp

theorem resolve_gone : disk.resolve "./gone.dart" = .error .noSuchFile := by
  have hsteps : Path.steps "./gone.dart" = [".", gone.text] ∧ Path.steps "nowhere" = [nowhere.text] := by
    decide
  have habsent : disk.trace true 39 [] [nowhere.text] = .absent [nowhere] := Disk.trace_absent true rfl rfl
  rw [Disk.resolve, locate_link (by decide) hsteps.1 rfl, hsteps.2, habsent]
  rfl

private theorem resolve_round : disk.resolve "./round.dart" = .ok [] := by
  have hsteps : Path.steps "./round.dart" = [".", round.text] ∧ Path.steps "." = ["."] := by decide
  have hstay : disk.Leads 39 [] ["."] [] := .move (.stay _ _ rfl) (.arrive _ _)
  rw [Disk.resolve, locate_link (by decide) hsteps.1 rfl, hsteps.2, hstay.trace]
  rfl

theorem resolve_twin : disk.resolve "./twin" = .ok [pages] := by
  have hsteps : Path.steps "./twin" = [".", twin.text] ∧ Path.steps "pages" = [pages.text] := by decide
  have henter : disk.Leads 39 [] [pages.text] [pages] :=
    .move (.enter _ [] pages (.directory 0o755) rfl rfl (by simp)) (.arrive _ _)
  rw [Disk.resolve, locate_link (by decide) hsteps.1 rfl, hsteps.2, henter.trace]
  rfl

theorem resolve_odd : disk.resolve "./odd.dart" = .ok [plug] := by
  have hsteps : Path.steps "./odd.dart" = [".", odd.text] ∧ Path.steps "plug" = [plug.text] := by decide
  have henter : disk.Leads 39 [] [plug.text] [plug] :=
    .move (.enter _ [] plug (.special (.system 6)) rfl rfl (by simp)) (.arrive _ _)
  rw [Disk.resolve, locate_link (by decide) hsteps.1 rfl, hsteps.2, henter.trace]
  rfl

/-- The directory's file comes before the file whose name goes on after the directory's, although a dot
comes before a slash. The link to nothing is listed, and no link to a directory is. -/
theorem discover_files_woven :
    disk.resolve "." = .ok [] ∧ ∃ ways : List (List Name),
      (Search.discover ⟨".", "..dart", false⟩ disk).files = ways.map (Path.below ".") ∧
      ways.Pairwise (List.Lex fun a b : Name => Text.BytesBefore a.text b.text) ∧
      [pages, top] ∈ ways ∧ [pagesDart] ∈ ways ∧ [gone] ∈ ways ∧ [round] ∉ ways ∧ [twin, top] ∉ ways := by
  obtain ⟨ways, hfiles, -, hsorted, hmem⟩ := Search.discover_files disk "." "..dart" [] resolve rfl
  refine ⟨resolve, ways, hfiles, hsorted, ?_, ?_, ?_, ?_, ?_⟩
  · have htop : disk.Holds ⟨".", []⟩ [pages] top := .cons rfl rfl (by decide) (.nil rfl trivial)
    exact (hmem _).2 ⟨[pages], top, rfl, htop, 2, "dart".toList, "top".toList, by decide⟩
  · exact (hmem _).2 ⟨[], pagesDart, rfl, .nil rfl trivial, 2, "dart".toList, "pages".toList, by decide⟩
  · have hgone : disk.IsFileAt "./gone.dart" [gone] := by
      intro q hq
      rw [resolve_gone] at hq
      cases hq
    have hpath : Path.join "." gone.text = "./gone.dart" := by decide
    rw [← hpath] at hgone
    exact (hmem _).2 ⟨[], gone, rfl, .nil rfl hgone, 2, "dart".toList, "gone".toList, by decide⟩
  · intro hround
    obtain ⟨dirs, name, heq, hholds, -⟩ := (hmem _).1 hround
    have hpath : Path.below "." (dirs ++ [name]) = "./round.dart" := by
      rw [← heq]
      decide
    have hfile := hholds.isFile
    rw [hpath, ← heq] at hfile
    exact absurd (hfile [] resolve_round) (by decide)
  · intro htwin
    obtain ⟨dirs, name, heq, hholds, -⟩ := (hmem _).1 htwin
    obtain rfl : [twin] = dirs := by simpa using congrArg List.dropLast heq
    exact absurd (hholds.readable [twin] List.prefix_rfl) (by decide)

end Woven

namespace Fixture.Slashes

abbrev inner : Name := ⟨"d", by decide⟩
abbrev leaf : Name := ⟨"e.dart", by decide⟩

/-- A directory of the working directory, with a file in it. -/
def disk (mode : Nat) : Disk where
  entries := [([inner], .directory mode), ([inner, leaf], .file 1)]

theorem allows_root (mode : Nat) (a : Access) : (disk mode).allows a [] = true := by
  cases a <;> simp [Disk.allows, Disk.entry?, disk, Caller.may, Access.bit]

theorem hasExtension_leaf : HasExtension "dart" leaf.text := ⟨0, "dart".toList, "e".toList, by decide⟩

theorem isTooLong_below {n : Nat} {ns : List Name}
    (h : Path.sizeLimit ≤ n + (ns.map fun name => name.text.utf8ByteSize).sum) :
    Path.isTooLong (Path.below (root n) ns) = true := by
  have hle := Path.utf8ByteSize_below_le (root_ne_empty n) [] ns
  have hroot : (Path.below (root n) []).utf8ByteSize = n + 1 := utf8ByteSize_root n
  rw [hroot, List.nil_append] at hle
  rw [Path.isTooLong, decide_eq_true_iff]
  omega

/-- The file is not listed if the directory's path is too long or the directory cannot be read. -/
theorem discover_eq_nil {mode n : Nat} (hn : n < Path.sizeLimit)
    (hinner : Path.sizeLimit ≤ n + 1 ∨ (disk mode).may .read mode = false) :
    (Search.discover ⟨root n, "dart", false⟩ (disk mode)).files = [] := by
  obtain ⟨ways, hways⟩ := @Search.exists_lists_findings ⟨root n, "dart", false⟩ (disk mode) [] rfl
    (resolve (allows_root mode .search) hn) rfl
  have hnone : ways = [] := by
    refine List.eq_nil_iff_forall_not_mem.2 fun ns hns => ?_
    rw [hways.mem_iff, @Disk.found_iff (disk mode) ⟨root n, []⟩ _ ns (root_ne_empty n)] at hns
    obtain ⟨dirs, name, -, hholds, -⟩ := hns
    obtain ⟨e, he, hfile⟩ := Disk.isFileAt_iff.1 hholds.isFile
    have hm := (Disk.mem_entries_iff (by simp)).2 he
    simp only [disk, List.mem_cons, Prod.mk.injEq, List.not_mem_nil, or_false] at hm
    rcases hm with ⟨-, rfl⟩ | ⟨hplace, -⟩
    · exact hfile
    · obtain rfl : dirs = [inner] := by simpa using congrArg List.dropLast hplace
      rcases hinner with hlong | hdenied
      · have hopened := hholds.opened (by simp)
        rw [isTooLong_below hlong] at hopened
        cases hopened
      · have hread : (disk mode).may .read mode = true := hholds.readable [inner] List.prefix_rfl
        rw [hdenied] at hread
        cases hread
  rw [Search.discover, hways.files_eq, hnone, List.map_nil]

/-- A file is in a directory of the root and has the extension, and is not listed: once because the path of the
directory has a byte more than the root's, which is as long as a path may be, and once because the directory cannot
be read. -/
theorem discover_misses_file :
    ((disk 0o755).resolve (root 4094) = .ok [] ∧ (disk 0o755).isDirectoryAt [] = true ∧
      (disk 0o755).isDirectoryAt [inner] = true ∧ Disk.entry? (disk 0o755) [inner, leaf] = some (.file 1) ∧
      HasExtension "dart" leaf.text ∧ (Search.discover ⟨root 4094, "dart", false⟩ (disk 0o755)).files = []) ∧
    ((disk 0o311).resolve (root 0) = .ok [] ∧ (disk 0o311).isDirectoryAt [] = true ∧
      (disk 0o311).isDirectoryAt [inner] = true ∧ Disk.entry? (disk 0o311) [inner, leaf] = some (.file 1) ∧
      (Search.discover ⟨root 0, "dart", false⟩ (disk 0o311)).files = []) :=
  ⟨⟨resolve rfl (by decide), rfl, rfl, rfl, hasExtension_leaf, discover_eq_nil (by decide) (.inl (by decide))⟩,
    resolve rfl (by decide), rfl, rfl, rfl, discover_eq_nil (by decide) (.inr (by decide))⟩

end Fixture.Slashes

end CommentStrip
