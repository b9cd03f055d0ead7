import CommentStrip.Proofs.Listing

/-! The files that a search lists if links are followed. A link may lead back to where the walk comes from,
and a directory may be entered by many paths, but never without end. -/
namespace CommentStrip

namespace Disk

def isRegularAt (d : Disk) (p : Place) : Bool :=
  match d.entry? p with
  | some (.file _) => true
  | _ => false

def isSpecialAt (d : Disk) (p : Place) : Bool :=
  match d.entry? p with
  | some (.special _) => true
  | _ => false

/-- A path leads, all links followed, to something of a kind. -/
def leadsToKind (d : Disk) (kind : Place → Bool) (path : String) : Bool :=
  match d.resolve path with
  | .ok p => kind p
  | .error _ => false

/-- What is listed at a place though its path leads to no regular file. It is a link to something that is neither a
file nor a directory, or a file to which the path does not lead, because it is too long or the directory cannot be
searched. -/
def isStray (d : Disk) (path : String) (p : Place) : Bool :=
  d.isLinkAt p && d.leadsToKind d.isSpecialAt path ||
    d.isRegularAt p && (Path.isTooLong path || !d.allows .search p.dropLast)

/-- All names of a way but the last are those of directories, none of them of a link. -/
def isDirect (d : Disk) (p : Place) (ns : List Name) : Bool :=
  ns.dropLast.inits.all fun q => d.isDirectoryAt (p ++ q)

/-- The directories that a walk can be in at once: the innermost, and those above it. -/
inductive Nests (d : Disk) (s : Search) : Visit → List Visit → Prop where
  | root {p : Place} (hp : d.resolve s.root = .ok p) (hread : d.allows .read p = true) :
    Nests d s ⟨s.root, p⟩ []
  | enter {here next : Visit} {above : List Visit} {child : Name × Entry} (h : Nests d s here above)
      (hm : child ∈ d.children here.place)
      (hnext : d.meet s.follow s.wanted above here child.1 child.2 = .enter next) :
    Nests d s next (here :: above)

section Depth

variable {d : Disk} {s : Search} {here next : Visit} {above : List Visit}

/-- How much deeper a walk can go: down to the height of the tree, and that again after each link. -/
def depthLeft (d : Disk) (here : Visit) (above : List Visit) : Nat :=
  (d.unvisited (here :: above)).length * (d.height + 2) + (d.height + 1 - here.place.length)

private theorem depthLeft_lt {follow : Bool} {wanted : String → Bool} {child : Name × Entry}
    (hm : child ∈ d.children here.place)
    (hnext : d.meet follow wanted above here child.1 child.2 = .enter next) :
    d.depthLeft next (here :: above) < d.depthLeft here above := by
  rw [depthLeft, depthLeft, unvisited_cons d next]
  rcases place_of_meet_eq_enter hnext with hplace | hnew
  · have hlength := length_le_height (mem_children.1 hm)
    have hle := Nat.mul_le_mul_right (d.height + 2)
      (List.length_filter_le (next.place != ·) (d.unvisited (here :: above)))
    rw [hplace, List.length_append, List.length_singleton] at *
    omega
  · have hlt : ((d.unvisited (here :: above)).filter (next.place != ·)).length + 1 ≤
        (d.unvisited (here :: above)).length :=
      List.length_filter_lt_length_iff_exists.2 ⟨next.place, hnew, by simp⟩
    have hle := Nat.mul_le_mul_right (d.height + 2) hlt
    rw [Nat.add_mul] at hle
    omega

private theorem Nests.length_lt (h : d.Nests s here above) :
    above.length < d.directories.length * (d.height + 2) := by
  have hsum : above.length + d.depthLeft here above < d.directories.length * (d.height + 2) := by
    induction h with
    | @root p hp hread =>
      have hlt : (d.unvisited [⟨s.root, p⟩]).length + 1 ≤ d.directories.length :=
        List.length_filter_lt_length_iff_exists.2 ⟨p, mem_directories (isDirectoryAt_of_allows hread), by simp⟩
      have hle := Nat.mul_le_mul_right (d.height + 2) hlt
      rw [Nat.add_mul] at hle
      rw [List.length_nil, depthLeft]
      omega
    | enter h hm hnext ih =>
      have hstep := depthLeft_lt hm hnext
      rw [List.length_cons]
      omega
  omega

end Depth

section Kinds

variable {d : Disk} {p : Place}

private theorem isRegularAt_iff : d.isRegularAt p = true ↔ ∃ n, d.entry? p = some (.file n) := by
  cases he : d.entry? p with
  | none => simp [isRegularAt, he]
  | some e => cases e <;> simp [isRegularAt, he]

private theorem leadsToKind_iff {kind : Place → Bool} {path : String} :
    d.leadsToKind kind path = true ↔ ∃ p, d.resolve path = .ok p ∧ kind p = true := by
  cases hr : d.resolve path <;> simp [leadsToKind, hr]

/-- What stands at a place and is no link is of one of three kinds. -/
theorem Stands.kind (h : d.Stands p) :
    d.isDirectoryAt p = true ∨ d.isRegularAt p = true ∨ d.isSpecialAt p = true := by
  obtain ⟨n, hn, hl⟩ := h
  obtain ⟨e, he, rfl⟩ := Option.map_eq_some_iff.1 hn
  cases e with
  | directory mode => simp [isDirectoryAt, he]
  | link target => exact absurd rfl (hl target)
  | file k => simp [isRegularAt, he]
  | special cause => simp [isSpecialAt, he]

end Kinds

/-- A directory is where its path leads, and can be read. -/
structure Opens (d : Disk) (v : Visit) : Prop where
  resolves : d.resolve v.path = .ok v.place
  allows_read : d.allows .read v.place = true

theorem Opens.isDirectory {d : Disk} {v : Visit} (h : d.Opens v) : d.isDirectoryAt v.place = true :=
  isDirectoryAt_of_allows h.allows_read

section Opens

variable {d : Disk} {here next : Visit} {above : List Visit} {name : Name} {e : Entry} {ns : List Name}
  {wanted : String → Bool}

private theorem Opens.resolve_join (h : d.Opens here) (hsearch : d.allows .search here.place = true)
    (hfits : Path.isTooLong (Path.join here.path name.text) = false) {n : Node}
    (hn : d.node? (here.place ++ [name]) = some n) (hl : ∀ target, n ≠ .link target) :
    d.resolve (Path.join here.path name.text) = .ok (here.place ++ [name]) := by
  have hhere (q) (hq : q <+: []) : d.allows .search (here.place ++ q) = true := by
    rw [List.prefix_nil.1 hq, List.append_nil]
    exact hsearch
  have hempty : here.place ++ [] = here.place := List.append_nil here.place
  have hresolve := @resolve_below d here.path here.place [] name h.resolves hfits hhere n
  rw [hempty] at hresolve
  exact hresolve hn hl

private theorem Opens.of_enters {follow : Bool} (h : d.Opens here) (he : d.entry? (here.place ++ [name]) = some e)
    (hnext : d.Enters follow above here name e next) : d.Opens next := by
  cases hnext with
  | directory hsearch hread hfits =>
    have hn := node?_eq_directory_iff.2 he
    exact ⟨h.resolve_join hsearch hfits hn (by simp), allows_iff.2 ⟨_, hn, hread⟩⟩
  | link hfollow hr hread hnew => exact ⟨hr, hread⟩

/-- The path of a regular file leads to it, strays apart. -/
private theorem Opens.leadsTo_file (h : d.Opens here) {k : Nat}
    (he : d.entry? (here.place ++ [name]) = some (.file k)) :
    d.leadsToKind d.isRegularAt (Path.join here.path name.text) = true ∨
      d.isStray (Path.join here.path name.text) (here.place ++ [name]) = true := by
  have hregular := isRegularAt_iff.2 ⟨k, he⟩
  by_cases hstray : Path.isTooLong (Path.join here.path name.text) = true ∨ d.allows .search here.place = false
  · right
    rcases hstray with hlong | hsearch
    · simp [isStray, hregular, hlong]
    · simp [isStray, hregular, hsearch]
  · obtain ⟨hfits, hsearch⟩ := not_or.1 hstray
    have hn : d.node? (here.place ++ [name]) = some (d.view (.file k)) := by rw [node?, he]; rfl
    have hr := h.resolve_join (by simpa using hsearch) (by simpa using hfits) hn (by simp [view])
    exact .inl (leadsToKind_iff.2 ⟨_, hr, hregular⟩)

/-- A link that leads to no directory leads somewhere just when it leads to a regular file or is a stray. -/
private theorem IsTree.exists_resolve_link_iff (htree : d.IsTree) {path target : String} {p : Place}
    (he : d.entry? p = some (.link target)) (hno : ∀ q, d.resolve path = .ok q → d.isDirectoryAt q = false) :
    (∃ q, d.resolve path = .ok q) ↔ d.leadsToKind d.isRegularAt path = true ∨ d.isStray path p = true := by
  have hstray : d.isStray path p = d.leadsToKind d.isSpecialAt path := by
    simp [isStray, isLinkAt, isRegularAt, he]
  rw [hstray, leadsToKind_iff, leadsToKind_iff]
  constructor
  · rintro ⟨q, hq⟩
    rcases (htree.stands_of_resolve hq).kind with hd | hregular | hspecial
    · rw [hno q hq] at hd
      cases hd
    · exact .inl ⟨q, hq, hregular⟩
    · exact .inr ⟨q, hq, hspecial⟩
  · rintro (⟨q, hq, -⟩ | ⟨q, hq, -⟩)
    · exact ⟨q, hq⟩
    · exact ⟨q, hq⟩

/-- If links are followed, what counts as a file leads to a regular one, strays apart. -/
theorem Opens.isFileFor_iff (h : d.Opens here) (htree : d.IsTree)
    (he : d.entry? (here.place ++ [name]) = some e) :
    d.IsFileFor true (Path.join here.path name.text) e ↔
      d.IsFileFor false (Path.join here.path name.text) e ∧
        (d.leadsToKind d.isRegularAt (Path.join here.path name.text) = true ∨
          d.isStray (Path.join here.path name.text) (here.place ++ [name]) = true) := by
  cases e with
  | directory mode => simp [IsFileFor]
  | special cause => simp [IsFileFor]
  | file k => exact iff_of_true trivial ⟨trivial, h.leadsTo_file he⟩
  | link target =>
    constructor
    · rintro ⟨hno, hsome⟩
      exact ⟨⟨hno, by simp⟩, (htree.exists_resolve_link_iff he hno).1 (hsome rfl)⟩
    · rintro ⟨⟨hno, -⟩, hleads⟩
      exact ⟨hno, fun _ => (htree.exists_resolve_link_iff he hno).2 hleads⟩

/-- The directory that a listed file is in is where its path leads, and the file counts. -/
theorem Opens.exists_of_listed (h : d.Opens here) (htree : d.IsTree)
    (hlisted : d.Listed true wanted above here ns) :
    ∃ dirs name q, ns = dirs ++ [name] ∧ wanted name.text = true ∧
      d.Opens ⟨Path.below here.path dirs, q⟩ ∧
      (d.leadsToKind d.isRegularAt (Path.below here.path ns) = true ∨
        d.isStray (Path.below here.path ns) (q ++ [name]) = true) := by
  induction hlisted with
  | @file above here name e he hf hw =>
    exact ⟨[], name, here.place, rfl, hw, h, ((h.isFileFor_iff htree he).1 hf).2⟩
  | @inside above here next first e ns he hnext hlisted ih =>
    obtain ⟨dirs, name, q, rfl, hw, hopens, hfile⟩ := ih (h.of_enters he hnext)
    rw [hnext.path_eq] at hopens hfile
    exact ⟨first :: dirs, name, q, rfl, hw, hopens, hfile⟩

private theorem isDirect_singleton (hhere : d.isDirectoryAt here.place = true) :
    d.isDirect here.place [name] = true := by
  simpa [isDirect] using hhere

private theorem isDirect_cons (hhere : d.isDirectoryAt here.place = true) (hne : ns ≠ []) :
    d.isDirect here.place (name :: ns) = d.isDirect (here.place ++ [name]) ns := by
  simp [isDirect, List.dropLast_cons_of_ne_nil hne, hhere, Function.comp_def]

/-- Through directories alone the walk comes to the same files, of which it then leaves out the links that
lead nowhere. -/
theorem Opens.listed_iff (h : d.Opens here) (htree : d.IsTree) :
    d.Listed true wanted above here ns ∧ d.isDirect here.place ns = true ↔
      d.Found wanted here ns ∧ (d.leadsToKind d.isRegularAt (Path.below here.path ns) = true ∨
        d.isStray (Path.below here.path ns) (here.place ++ ns) = true) := by
  constructor
  · rintro ⟨hlisted, hdirect⟩
    induction hlisted with
    | file he hf hw =>
      obtain ⟨hfile, hregular⟩ := (h.isFileFor_iff htree he).1 hf
      exact ⟨.file (isFileAt_iff.2 ⟨_, he, hfile⟩) hw, hregular⟩
    | @inside above here next name e ns he hnext hlisted ih =>
      obtain ⟨first, tail, -, hns, -⟩ := hlisted.exists_entry
      rw [isDirect_cons h.isDirectory (by simp [hns])] at hdirect
      cases hnext with
      | @directory mode hsearch hread hfits =>
        have hnext := h.of_enters he (.directory hsearch hread hfits : d.Enters true above here name _ _)
        obtain ⟨hfound, hregular⟩ := ih hnext hdirect
        rw [List.append_assoc] at hregular
        exact ⟨.inside hsearch hnext.allows_read hfits hfound, hregular⟩
      | link hfollow hr hread hnew =>
        have hlink : d.isDirectoryAt (here.place ++ [name]) = true := by
          simpa using List.all_eq_true.1 hdirect [] (by simp)
        simp [isDirectoryAt, he] at hlink
  · rintro ⟨hfound, hregular⟩
    induction hfound generalizing above with
    | file hf hw =>
      obtain ⟨e, he, hfile⟩ := isFileAt_iff.1 hf
      exact ⟨.file he ((h.isFileFor_iff htree he).2 ⟨hfile, hregular⟩) hw, isDirect_singleton h.isDirectory⟩
    | @inside here name ns hsearch hread hfits hfound ih =>
      obtain ⟨mode, hn, hmay⟩ := allows_iff.1 hread
      have he := node?_eq_directory_iff.1 hn
      have hnext : d.Enters true above here name (.directory mode) _ := .directory hsearch hmay hfits
      obtain ⟨hlisted, hdirect⟩ := ih (h.of_enters he hnext) (by rwa [List.append_assoc])
      obtain ⟨first, tail, -, hns, -⟩ := hlisted.exists_entry
      exact ⟨.inside he hnext hlisted, by rwa [isDirect_cons h.isDirectory (by simp [hns])]⟩

end Opens

end Disk

/-- A search that follows links comes to an end: there is a bound on how many directories it is in at once.
It lists every path once, and each of them has the extension and leads to a regular file. Those that go through
no link to a directory are, in the same order, the ones listed without following links that lead to a regular
file. The exception in both are strays. -/
theorem Search.discover_following (d : Disk) (root extension : String) (p : Place) (htree : d.IsTree)
    (hroot : d.resolve root = .ok p) (hdir : d.isDirectoryAt p = true) :
    (∀ here above, d.Nests ⟨root, extension, true⟩ here above →
      above.length < d.directories.length * (d.height + 2)) ∧
    (discover ⟨root, extension, true⟩ d).files.Nodup ∧
    ∃ ways plain : List (List Name),
      (discover ⟨root, extension, true⟩ d).files = ways.map (Path.below root) ∧
      (discover ⟨root, extension, false⟩ d).files = plain.map (Path.below root) ∧
      (∀ ns ∈ ways, ∃ dirs name q, ns = dirs ++ [name] ∧ HasExtension extension name.text ∧
        d.Opens ⟨Path.below root dirs, q⟩ ∧
        (d.leadsToKind d.isRegularAt (Path.below root ns) = true ∨
          d.isStray (Path.below root ns) (q ++ [name]) = true)) ∧
      ways.filter (d.isDirect p) = plain.filter fun ns => d.leadsToKind d.isRegularAt (Path.below root ns) ||
        d.isStray (Path.below root ns) (p ++ ns) := by
  have hne := (Disk.resolve_eq_ok_iff.1 hroot).1.ne_empty
  obtain ⟨ways, hways⟩ := @Search.exists_lists ⟨root, extension, true⟩ d p hroot hdir
  obtain ⟨plain, hplain⟩ := @Search.exists_lists_findings ⟨root, extension, false⟩ d p rfl hroot hdir
  refine ⟨fun here above h => h.length_lt, hways.nodup_files hne, ways, plain, hways.files_eq,
    hplain.files_eq, fun ns hns => ?_, ?_⟩
  · obtain ⟨hread, hlisted⟩ := (hways.mem_iff ns).1 hns
    have hopens : d.Opens ⟨root, p⟩ := ⟨hroot, hread⟩
    obtain ⟨dirs, name, q, hns, hw, hopens, hfile⟩ := hopens.exists_of_listed htree hlisted
    exact ⟨dirs, name, q, hns, (Search.wanted_iff _ _).1 hw, hopens, hfile⟩
  · refine Name.eq_of_before (hways.sorted.filter _) (hplain.sorted.filter _) fun ns => ?_
    rw [List.mem_filter, List.mem_filter, hways.mem_iff, hplain.mem_iff, Bool.or_eq_true, and_assoc, and_assoc]
    refine and_congr_right fun hread => ?_
    have hopens : d.Opens ⟨root, p⟩ := ⟨hroot, hread⟩
    exact hopens.listed_iff htree

namespace Woven

theorem isTree : disk.IsTree := ⟨by decide, rfl⟩

private theorem mem_files_twin : "./twin/top.dart" ∈ (Search.discover ⟨".", "dart", true⟩ disk).files := by
  have hpath : Path.below "." [twin, top] = "./twin/top.dart" ∧ Path.join "." twin.text = "./twin" := by
    decide
  obtain ⟨ways, hways⟩ := @Search.exists_lists ⟨".", "dart", true⟩ disk [] resolve rfl
  have henters : disk.Enters true [] ⟨".", []⟩ twin (.link "pages") ⟨Path.join "." twin.text, [pages]⟩ :=
    .link rfl (hpath.2 ▸ resolve_twin) rfl (by simp)
  have hm : [twin, top] ∈ ways := by
    rw [hways.mem_iff]
    exact ⟨rfl, .inside rfl henters (.file rfl trivial (by decide))⟩
  rw [Search.discover, hways.files_eq, ← hpath.1]
  exact List.mem_map_of_mem hm

private theorem mem_files_odd : "./odd.dart" ∈ (Search.discover ⟨".", "dart", true⟩ disk).files := by
  have hpath : Path.below "." [odd] = "./odd.dart" ∧ Path.join "." odd.text = "./odd.dart" := by decide
  obtain ⟨ways, hways⟩ := @Search.exists_lists ⟨".", "dart", true⟩ disk [] resolve rfl
  have hfile : disk.IsFileFor true (Path.join "." odd.text) (.link "plug") := by
    rw [hpath.2]
    refine ⟨fun q hq => ?_, fun _ => ⟨_, resolve_odd⟩⟩
    obtain rfl := Except.ok.inj (resolve_odd.symm.trans hq)
    rfl
  have hm : [odd] ∈ ways := by
    rw [hways.mem_iff]
    exact ⟨rfl, .file rfl hfile (by decide)⟩
  rw [Search.discover, hways.files_eq, ← hpath.1]
  exact List.mem_map_of_mem hm

/-- A file is listed by way of the link to its directory too, and the link to nothing is not listed. -/
theorem discover_following_woven :
    disk.IsTree ∧ disk.resolve "." = .ok [] ∧
      (∀ here above, disk.Nests ⟨".", "dart", true⟩ here above → above.length < 8) ∧
      (Search.discover ⟨".", "dart", true⟩ disk).files.Nodup ∧
      "./twin/top.dart" ∈ (Search.discover ⟨".", "dart", true⟩ disk).files ∧
      "./gone.dart" ∉ (Search.discover ⟨".", "dart", true⟩ disk).files := by
  obtain ⟨hdepth, hnodup, ways, plain, hfiles, -, -, hfilter⟩ :=
    Search.discover_following disk "." "dart" [] isTree resolve rfl
  refine ⟨isTree, resolve, hdepth, hnodup, mem_files_twin, fun hgone => ?_⟩
  have hpath : Path.below "." [gone] = "./gone.dart" := by decide
  rw [hfiles, ← hpath] at hgone
  obtain ⟨ns, hns, heq⟩ := List.mem_map.1 hgone
  obtain rfl := Path.below_inj (by decide) heq
  have hdirect : [gone] ∈ ways.filter (disk.isDirect []) := List.mem_filter.2 ⟨hns, rfl⟩
  rw [hfilter, List.mem_filter, hpath, Disk.isStray, Disk.leadsToKind, Disk.leadsToKind, resolve_gone] at hdirect
  exact absurd hdirect.2 (by decide)

end Woven

namespace Fixture.Slashes

private theorem mem_files_leaf {mode n : Nat} (hn : n + 3 ≤ Path.sizeLimit) (hread : (disk mode).may .read mode = true) :
    Path.below (root n) [inner, leaf] ∈ (Search.discover ⟨root n, "dart", true⟩ (disk mode)).files := by
  have hfits : Path.isTooLong (Path.join (root n) inner.text) = false := by
    have hinner : inner.text.utf8ByteSize = 1 := by decide
    have hslash : (Path.asDirectory (root n)).utf8ByteSize ≤ n + 2 := by
      rw [Path.asDirectory]
      split
      · rw [utf8ByteSize_root]
        omega
      · rw [String.utf8ByteSize_append, utf8ByteSize_root]
        exact Nat.le_refl (n + 2)
    rw [Path.join_eq (root_ne_empty n) inner.isAbsolute_text, Path.isTooLong, decide_eq_false_iff_not,
      String.utf8ByteSize_append]
    omega
  have hroot := allows_root mode
  obtain ⟨ways, hways⟩ := @Search.exists_lists ⟨root n, "dart", true⟩ (disk mode) []
    (resolve (hroot .search) (by omega)) rfl
  have hm : [inner, leaf] ∈ ways := by
    rw [hways.mem_iff]
    exact ⟨hroot .read, .inside rfl (.directory (hroot .search) hread hfits)
      (.file rfl trivial ((Search.wanted_iff _ _).2 hasExtension_leaf))⟩
  rw [Search.discover, hways.files_eq]
  exact List.mem_map_of_mem hm

/-- Nothing in the directory is reached if it cannot be searched. -/
theorem resolve_leaf_ne {mode : Nat} (hsearch : (disk mode).may .search mode = false) (q : Place) :
    (disk mode).resolve (Path.below (root 0) [inner, leaf]) ≠ .ok q := by
  have hwritten : Disk.IsWritten (Path.below (root 0) [inner, leaf]) := by decide
  have hsteps : Path.steps (Path.below (root 0) [inner, leaf]) = "." :: ([inner] ++ [leaf]).map Name.text := by decide
  have hstay : (disk mode).Moves Disk.linkLimit [] "." ⟨Disk.linkLimit, [], []⟩ :=
    .stay _ _ (allows_root mode .search)
  have hdirs (r) (hr : r <+: [inner]) : (disk mode).isDirectoryAt ([] ++ r) = true := by
    rcases List.prefix_cons_iff.1 hr with rfl | ⟨tail, rfl, htail⟩
    · rfl
    · rw [List.prefix_nil.1 htail]
      rfl
  have hdenied : ([inner].inits.all fun r => (disk mode).allows .search ([] ++ r)) = false := by
    have hinner : (disk mode).allows .search [inner] = false := hsearch
    simp [hinner]
  have htrace := @Disk.trace_directories (disk mode) Disk.linkLimit [] leaf true [inner] hdirs []
  rw [hdenied, List.append_nil] at htrace
  rw [Disk.resolve, hwritten.locate, Disk.start_eq_nil rfl, hsteps, hstay.trace, List.nil_append, htrace]
  simp [Lookup.place]

/-- Three paths are listed that lead to no regular file: one is too long, one goes through a directory that can be
read but not searched, and one leads to a socket. -/
theorem discover_lists_strays :
    ((disk 0o755).IsTree ∧ (disk 0o755).resolve (root 4088) = .ok [] ∧
      Path.below (root 4088) [inner, leaf] ∈ (Search.discover ⟨root 4088, "dart", true⟩ (disk 0o755)).files ∧
      ∀ q, (disk 0o755).resolve (Path.below (root 4088) [inner, leaf]) ≠ .ok q) ∧
    ((disk 0o644).IsTree ∧ (disk 0o644).resolve (root 0) = .ok [] ∧
      Path.below (root 0) [inner, leaf] ∈ (Search.discover ⟨root 0, "dart", true⟩ (disk 0o644)).files ∧
      ∀ q, (disk 0o644).resolve (Path.below (root 0) [inner, leaf]) ≠ .ok q) ∧
    (Woven.disk.IsTree ∧ Woven.disk.resolve "." = .ok [] ∧
      "./odd.dart" ∈ (Search.discover ⟨".", "dart", true⟩ Woven.disk).files ∧
      Woven.disk.resolve "./odd.dart" = .ok [Woven.plug] ∧ Woven.disk.isRegularAt [Woven.plug] = false) := by
  refine ⟨⟨⟨by decide, rfl⟩, resolve rfl (by decide), mem_files_leaf (by decide) (by decide), fun q hq => ?_⟩,
    ⟨⟨by decide, rfl⟩, resolve rfl (by decide), mem_files_leaf (by decide) (by decide),
      resolve_leaf_ne (by decide)⟩,
    Woven.isTree, Woven.resolve, Woven.mem_files_odd, Woven.resolve_odd, rfl⟩
  have hfits := (Disk.resolve_eq_ok_iff.1 hq).1.fits
  rw [isTooLong_below (by decide)] at hfits
  cases hfits

end Fixture.Slashes

end CommentStrip
