import CommentStrip.Process
import CommentStrip.Proofs.RealPath

/-! Stripping one file: what each outcome means for the tree, and which outcome comes when. -/
namespace CommentStrip

theorem File.text?_toUTF8 (mode : Nat) (text : String) : File.text? ⟨text.toUTF8, mode⟩ = some text :=
  dif_pos text.isValidUTF8

theorem Processed.changed_ofTexts {path before after : String} :
    (Processed.ofTexts path before after).changed = false ↔ after = before := by
  rw [Processed.ofTexts, bne_eq_false_iff_eq]
  exact eq_comm

namespace Disk

/-- A path leads, through all links, to a file that may be read and is text. -/
structure LeadsToText (d : Disk) (path : String) (p : Place) (f : File) (text : String) : Prop where
  resolves : d.resolve path = .ok p
  isFile : d.node? p = some (.file f)
  mayRead : d.may .read f.mode = true
  isText : f.text? = some text

/-- The system can make and move files in the directory of what a path leads to. -/
def CanReplace (d : Disk) (path : String) : Prop :=
  ∀ p, d.resolve path = .ok p → d.obstacleIn? p.dropLast = none

/-- A tree of short paths, in whose directories anything can be reached and changed. -/
structure IsOpen (d : Disk) : Prop extends IsTree d where
  short : ∀ entry ∈ d.entries, Path.isTooLong (Place.path entry.1 ++ "/" ++ temporaryName) = false
  changes : ∀ entry ∈ d.entries, d.isDirectoryAt entry.1 = true → d.canChange entry.1 = true
  changesRoot : d.canChange [] = true

theorem IsOpen.canChange {d : Disk} (h : d.IsOpen) {p : Place} (hp : d.isDirectoryAt p = true) :
    d.canChange p = true := by
  by_cases hne : p = []
  · exact hne ▸ h.changesRoot
  · obtain ⟨mode, hn⟩ := isDirectoryAt_iff.1 hp
    exact h.changes (p, _) ((mem_entries_iff hne).2 (node?_eq_directory_iff.1 hn)) hp

theorem IsOpen.canonicalize {d : Disk} (h : d.IsOpen) {path : String} {p : Place}
    (hp : d.resolve path = .ok p) : d.canonicalize path = .ok p := by
  obtain ⟨hw, hl⟩ := resolve_eq_ok_iff.1 hp
  rw [hw.canonicalize]
  refine hl.realFrom_of_short h.toIsTree (fun entry he => ?_) fun q hq => ?_
  · have hfits := h.short entry he
    simp only [Path.isTooLong, decide_eq_false_iff_not, String.utf8ByteSize_append] at hfits ⊢
    omega
  · exact (Bool.and_eq_true_iff.1 (h.canChange hq)).2

theorem IsOpen.canReplace {d : Disk} (h : d.IsOpen) (path : String) : d.CanReplace path := by
  intro p hp
  obtain ⟨n, hn, -⟩ := h.stands_of_resolve hp
  have hdir := h.isDirectoryAt_dropLast hn
  have hfits : Path.isTooLong (Path.join (Place.path p.dropLast) temporaryName) = false := by
    by_cases hroot : p.dropLast = []
    · rw [hroot]
      decide
    · obtain ⟨mode, hn⟩ := isDirectoryAt_iff.1 hdir
      have hshort := h.short (p.dropLast, _) ((mem_entries_iff hroot).2 (node?_eq_directory_iff.1 hn))
      rw [Path.join_eq (Place.path_ne_empty _) (by decide), Path.asDirectory]
      split
      · simp only [Path.isTooLong, decide_eq_false_iff_not, String.utf8ByteSize_append] at hshort ⊢
        omega
      · exact hshort
  rw [obstacleIn?, hfits, h.canChange hdir]
  rfl

/-- Why the file that a path leads to is not replaced. The order of the checks is the order of the causes. -/
def refusal? (d : Disk) (path : String) (f : File) : Option IoError :=
  match d.canonicalize path with
  | .error cause => some cause
  | .ok p => if f.isReadOnly then some .readOnly else d.obstacleIn? p.dropLast

theorem LeadsToText.unique {d : Disk} {path text text' : String} {p p' : Place} {f f' : File}
    (h : d.LeadsToText path p f text) (h' : d.LeadsToText path p' f' text') :
    p = p' ∧ f = f' ∧ text = text' := by
  obtain rfl : p = p' := Except.ok.inj (h.resolves.symm.trans h'.resolves)
  obtain rfl : f = f' := by simpa using h.isFile.symm.trans h'.isFile
  exact ⟨rfl, rfl, Option.some.inj (h.isText.symm.trans h'.isText)⟩

private theorem readFile_eq_ok_iff {d : Disk} {path : String} {f : File} :
    d.readFile path = .ok f ↔
      ∃ p, d.resolve path = .ok p ∧ d.fileAt? p = some f ∧ d.may .read f.mode = true := by
  cases hr : d.resolve path with
  | error e => simp [readFile, hr, bind, Except.bind]
  | ok p =>
    simp only [readFile, hr, bind, Except.bind, Except.ok.injEq, exists_eq_left', fileAt?]
    rcases d.entry? p with _ | _ | _ | n | _
    · simp
    · simp
    · simp
    · by_cases hm : d.may .read (d.files n).mode = true
      · simp only [hm, if_true, Except.ok.injEq, Option.some.injEq]
        exact ⟨fun h => ⟨h, h ▸ hm⟩, fun h => h.1⟩
      · simp only [hm]
        refine iff_of_false (by simp) ?_
        rintro ⟨h, hf⟩
        exact hm (Option.some.inj h ▸ hf)
    · simp

theorem readText_eq_ok_iff {d : Disk} {path text : String} :
    d.readText path = .ok text ↔ ∃ p f, d.LeadsToText path p f text := by
  constructor
  · intro h
    cases hr : d.readFile path with
    | error e => simp [readText, hr, bind, Except.bind] at h
    | ok f =>
      obtain ⟨p, hp, hf, hm⟩ := readFile_eq_ok_iff.1 hr
      refine ⟨p, f, hp, node?_eq_file_iff.2 hf, hm, ?_⟩
      cases ht : f.text? <;> simp_all [readText, bind, Except.bind]
  · rintro ⟨p, f, hp, hf, hm, ht⟩
    have hr := readFile_eq_ok_iff.2 ⟨p, hp, node?_eq_file_iff.1 hf, hm⟩
    simp [readText, hr, ht, bind, Except.bind]

section Text

variable {d : Disk} {path text : String} {p : Place} {f : File} {cause : IoError}

theorem process_of_refused (h : d.LeadsToText path p f text) (hr : d.refusal? path f = some cause) :
    d.process path = (.error (.write path cause), d) := by
  have ht := readText_eq_ok_iff.2 ⟨p, f, h⟩
  simp only [process, ht, replaceText, bind, Except.bind]
  cases hc : d.canonicalize path with
  | error e =>
    obtain rfl : e = cause := by simpa [refusal?, hc] using hr
    rfl
  | ok q =>
    obtain rfl := eq_of_canonicalize h.resolves hc
    simp only [refusal?, hc] at hr
    simp only [node?_eq_file_iff.1 h.isFile]
    split at hr
    · next hw => simp [hw, Option.some.inj hr]
    · next hw => simp [hw, hr]

theorem process_of_not_refused (h : d.LeadsToText path p f text) (hr : d.refusal? path f = none) :
    d.process path = (.ok (.ofTexts path text (stripComments text)),
      d.insertFile p { f with bytes := (stripComments text).toUTF8 }) := by
  have ht := readText_eq_ok_iff.2 ⟨p, f, h⟩
  simp only [process, ht, replaceText, bind, Except.bind]
  cases hc : d.canonicalize path with
  | error e => simp [refusal?, hc] at hr
  | ok q =>
    obtain rfl := eq_of_canonicalize h.resolves hc
    simp only [refusal?, hc] at hr
    simp only [node?_eq_file_iff.1 h.isFile]
    split at hr
    · cases hr
    · next hw => simp [hw, hr]

/-- Where the new file can be made, it is refused for want of a real path or of a bit that lets anyone write. -/
theorem CanReplace.refusal?_eq_none_iff (hc : d.CanReplace path) (h : d.LeadsToText path p f text) :
    d.refusal? path f = none ↔ d.canonicalize path = .ok p ∧ f.isReadOnly = false := by
  cases hq : d.canonicalize path with
  | error e => simp [refusal?, hq]
  | ok q =>
    obtain rfl := eq_of_canonicalize h.resolves hq
    cases hw : f.isReadOnly <;> simp [refusal?, hq, hw, hc _ h.resolves]

theorem CanReplace.refusal?_eq_some_iff (hc : d.CanReplace path) (h : d.LeadsToText path p f text) :
    d.refusal? path f = some cause ↔ d.canonicalize path = .error cause ∨
      d.canonicalize path = .ok p ∧ f.isReadOnly = true ∧ cause = .readOnly := by
  cases hq : d.canonicalize path with
  | error e => simp [refusal?, hq]
  | ok q =>
    obtain rfl := eq_of_canonicalize h.resolves hq
    cases hw : f.isReadOnly <;> simp [refusal?, hq, hw, hc _ h.resolves, eq_comm]

theorem IsOpen.refusal?_eq_none (h : d.IsOpen) (hl : d.LeadsToText path p f text)
    (hw : f.isReadOnly = false) : d.refusal? path f = none :=
  ((h.canReplace path).refusal?_eq_none_iff hl).2 ⟨h.canonicalize hl.resolves, hw⟩

end Text

theorem process_of_not_leadsToText {d : Disk} {path : String}
    (h : ¬ ∃ p f text, d.LeadsToText path p f text) :
    ∃ cause, d.process path = (.error (.read path cause), d) := by
  cases ht : d.readText path with
  | error e => exact ⟨e, by simp [process, ht]⟩
  | ok text =>
    obtain ⟨p, f, hl⟩ := readText_eq_ok_iff.1 ht
    exact absurd ⟨p, f, text, hl⟩ h

theorem process_error {d : Disk} {path : String} {e : FileError}
    (h : (d.process path).1 = .error e) : (d.process path).2 = d := by
  unfold process at h ⊢
  split
  · rfl
  · next text ht =>
    cases hr : d.replaceText path (stripComments text) with
    | error cause => simp [hr]
    | ok replaced => simp [ht, hr] at h

theorem process_ok {d : Disk} {path : String} {r : Processed} (h : (d.process path).1 = .ok r) :
    ∃ p f text, d.LeadsToText path p f text ∧ d.refusal? path f = none ∧
      (d.process path).2 = d.insertFile p { f with bytes := (stripComments text).toUTF8 } := by
  by_cases hl : ∃ p f text, d.LeadsToText path p f text
  · obtain ⟨p, f, text, hl⟩ := hl
    cases hr : d.refusal? path f with
    | none => exact ⟨p, f, text, hl, hr, by rw [process_of_not_refused hl hr]⟩
    | some cause =>
      rw [process_of_refused hl hr] at h
      cases h
  · obtain ⟨cause, hp⟩ := process_of_not_leadsToText hl
    rw [hp] at h
    cases h

theorem process_ok_iff {d : Disk} {path : String} {r : Processed} :
    (d.process path).1 = .ok r ↔ ∃ p f text, d.LeadsToText path p f text ∧
      d.refusal? path f = none ∧ r = .ofTexts path text (stripComments text) := by
  constructor
  · intro h
    obtain ⟨p, f, text, hl, hr, -⟩ := process_ok h
    rw [process_of_not_refused hl hr] at h
    exact ⟨p, f, text, hl, hr, (Except.ok.inj h).symm⟩
  · rintro ⟨p, f, text, hl, hr, rfl⟩
    rw [process_of_not_refused hl hr]

end Disk

namespace Threefold

abbrev lib : Name := ⟨"lib", by decide⟩
abbrev real : Name := ⟨"a.dart", by decide⟩
abbrev link : Name := ⟨"b.dart", by decide⟩
abbrev twin : Name := ⟨"c.dart", by decide⟩

/-- Three paths to one file: two hard links, and a link to one of them. -/
def disk : Disk where
  entries := [([lib], .directory 0o755), ([lib, twin], .file 1), ([lib, link], .link "a.dart"),
    ([lib, real], .file 1)]
  files := fun _ => ⟨"'/*x*//*y*/' // z".toUTF8, 0o640⟩
  distinct := by decide

theorem isOpen : disk.IsOpen := ⟨⟨by decide, rfl⟩, by decide, by decide, by decide⟩

theorem resolve :
    disk.resolve "/lib" = .ok [lib] ∧ disk.resolve "/lib/a.dart" = .ok [lib, real] ∧
      disk.resolve "/lib/b.dart" = .ok [lib, real] ∧ disk.resolve "/lib/c.dart" = .ok [lib, twin] := by
  have hsteps : Path.steps "/lib" = ["lib"] ∧ Path.steps "/lib/a.dart" = ["lib", "a.dart"] ∧
      Path.steps "/lib/b.dart" = ["lib", "b.dart"] ∧ Path.steps "/lib/c.dart" = ["lib", "c.dart"] ∧
      Path.steps "a.dart" = ["a.dart"] := by decide
  have hnames : Name.ofText? "lib" = some lib ∧ Name.ofText? "a.dart" = some real ∧
      Name.ofText? "b.dart" = some link ∧ Name.ofText? "c.dart" = some twin := by decide
  have hentries : disk.entry? [lib] = some (.directory 0o755) ∧ disk.entry? [lib, real] = some (.file 1) ∧
      disk.entry? [lib, link] = some (.link "a.dart") ∧ disk.entry? [lib, twin] = some (.file 1) := by
    decide
  have hdirs : disk.isDirectoryAt [] = true ∧ disk.isDirectoryAt [lib] = true ∧
      disk.allows .search [] = true ∧ disk.allows .search [lib] = true := by decide
  have habs : Path.isAbsolute "/lib" = true ∧ Path.isAbsolute "/lib/a.dart" = true ∧
      Path.isAbsolute "/lib/b.dart" = true ∧ Path.isAbsolute "/lib/c.dart" = true ∧
      Path.isAbsolute "a.dart" = false := by decide
  have hsizes : Path.isTooLong "/lib" = false ∧ Path.isTooLong "/lib/a.dart" = false ∧
      Path.isTooLong "/lib/b.dart" = false ∧ Path.isTooLong "/lib/c.dart" = false ∧
      ¬ 255 < "lib".utf8ByteSize ∧ ¬ 255 < "a.dart".utf8ByteSize ∧ ¬ 255 < "b.dart".utf8ByteSize ∧
      ¬ 255 < "c.dart".utf8ByteSize := by decide
  simp [Disk.resolve, Disk.locate, Disk.start, Disk.linkLimit, Disk.trace, Lookup.place, Name.sizeLimit, hsteps,
    hnames, hentries, hdirs, habs, hsizes]

theorem leadsToText : disk.LeadsToText "/lib/b.dart" [lib, real] ⟨"'/*x*//*y*/' // z".toUTF8, 0o640⟩
    "'/*x*//*y*/' // z" :=
  ⟨resolve.2.2.1, rfl, by decide, File.text?_toUTF8 _ _⟩

end Threefold

namespace Deep

abbrev deep : Name := ⟨"deep", by decide⟩
abbrev page : Name := ⟨"page.dart", by decide⟩
abbrev veiled : Name := ⟨"veiled.dart", by decide⟩

/-- So many directories down. -/
def down (k : Nat) : Place := List.replicate k deep

/-- Two texts near the root, and links to them from far down. -/
def texts (n : Nat) : List (Place × Entry) :=
  [([page], .file 1), ([veiled], .file 2), (down (n + 1) ++ [page], .link "/page.dart"),
    (down (n + 1) ++ [veiled], .link "/veiled.dart")]

/-- A working directory far down, from where links lead to a text and to one that may not be read. -/
def disk (n : Nat) : Disk where
  workingDir := down (n + 1)
  entries := (List.range (n + 1)).map (fun k => (down (k + 1), .directory 0o755)) ++ texts n
  files := fun number => ⟨"x // y".toUTF8, if number = 1 then 0o644 else 0o200⟩
  distinct := by
    rw [List.map_append, List.map_map, List.nodup_append]
    refine ⟨List.nodup_range.map fun a b h => ?_, by simp [texts, down, List.replicate_succ], ?_⟩
    · simpa [down] using congrArg List.length h
    · -- the way down ends in another name than the texts
      rintro p hp q hq rfl
      obtain ⟨k, -, hk⟩ := List.mem_map.1 hp
      have hlast : p.getLast? = some deep := by simp [← hk, down, List.getLast?_replicate]
      simp only [texts, List.map_cons, List.map_nil, List.mem_cons, List.not_mem_nil, or_false] at hq
      rcases hq with rfl | rfl | rfl | rfl <;> simp at hlast

section

variable (n : Nat)

theorem allows_down (a : Access) {k : Nat} (hk : k ≤ n + 1) : (disk n).allows a (down k) = true := by
  have hmay : (disk n).may a 0o755 = true := by cases a <;> rfl
  cases k with
  | zero => exact hmay
  | succ k =>
    have hm : (down (k + 1), Entry.directory 0o755) ∈ (disk n).entries :=
      List.mem_append_left _ (List.mem_map.2 ⟨k, List.mem_range.2 hk, rfl⟩)
    refine Disk.allows_iff.2 ⟨0o755, Disk.node?_eq_directory_iff.2 ((Disk.mem_entries_iff ?_).1 hm), hmay⟩
    simp [down]

theorem isTree : (disk n).IsTree := by
  have hdown {k : Nat} (hk : k ≤ n + 1) : (disk n).isDirectoryAt (down k) = true :=
    Disk.isDirectoryAt_of_allows (allows_down n .search hk)
  refine ⟨fun entry he => ?_, hdown (Nat.le_refl _)⟩
  rcases List.mem_append.1 he with he | he
  · obtain ⟨k, hk, rfl⟩ := List.mem_map.1 he
    have hup : (down (k + 1)).dropLast = down k := by simp [down]
    rw [hup]
    exact hdown (Nat.le_of_lt (List.mem_range.1 hk))
  · simp only [texts, List.mem_cons, List.not_mem_nil, or_false] at he
    rcases he with rfl | rfl | rfl | rfl
    · exact hdown (Nat.zero_le _)
    · exact hdown (Nat.zero_le _)
    · simpa using hdown (Nat.le_refl _)
    · simpa using hdown (Nat.le_refl _)

theorem entry?_of_mem {p : Place} {e : Entry} (hp : p ≠ []) (h : (p, e) ∈ texts n) :
    Disk.entry? (disk n) p = some e :=
  (Disk.mem_entries_iff hp).1 (List.mem_append_right _ h)

theorem node?_of_mem {p : Place} {e : Entry} (hp : p ≠ []) (h : (p, e) ∈ texts n) :
    (disk n).node? p = some ((disk n).view e) := by
  rw [Disk.node?, entry?_of_mem n hp h]
  rfl

/-- Both links lead to a text near the root. -/
theorem resolve_link {path target : String} {name : Name} {number : Nat} (hw : Disk.IsWritten path)
    (hrelative : Path.isAbsolute path = false) (hsteps : Path.steps path = [".", name.text])
    (hlink : (down (n + 1) ++ [name], .link target) ∈ texts n) (hfile : ([name], .file number) ∈ texts n)
    (habsolute : Path.isAbsolute target = true) (htarget : Path.steps target = [name.text]) :
    (disk n).resolve path = .ok [name] := by
  have hhere := allows_down n .search (Nat.le_refl _)
  have hroot : (disk n).allows .search [] = true := allows_down n .search (Nat.zero_le _)
  rw [Disk.resolve_eq_ok_iff, hsteps, Disk.start, hrelative]
  refine ⟨hw, .move (.stay 40 _ hhere) (.move (.follow 39 _ name target hhere
    (node?_of_mem n (by simp) hlink)) ?_)⟩
  rw [if_pos habsolute, htarget]
  exact .move (.enter 39 [] name _ hroot (node?_of_mem n (by simp) hfile) (by simp [Disk.view])) (.arrive 39 _)

theorem resolve :
    (disk n).resolve "./page.dart" = .ok [page] ∧ (disk n).resolve "./veiled.dart" = .ok [veiled] := by
  constructor
  · exact @resolve_link n "./page.dart" "/page.dart" page 1 (by decide) (by decide)
      (by decide) (by simp [texts]) (by simp [texts]) (by decide) (by decide)
  · exact @resolve_link n "./veiled.dart" "/veiled.dart" veiled 2 (by decide) (by decide)
      (by decide) (by simp [texts]) (by simp [texts]) (by decide) (by decide)

theorem canReplace {path : String} {name : Name} (h : (disk n).resolve path = .ok [name]) :
    (disk n).CanReplace path := by
  intro p hp
  obtain rfl := Except.ok.inj (h.symm.trans hp)
  have hfits : Path.isTooLong (Path.join (Place.path []) Disk.temporaryName) = false := by decide
  have hroot : (disk n).canChange [] = true :=
    Bool.and_eq_true_iff.2 ⟨allows_down n .write (Nat.zero_le _), allows_down n .search (Nat.zero_le _)⟩
  simp only [List.dropLast_singleton, Disk.obstacleIn?, hfits, hroot]
  rfl

theorem leadsToText : (disk n).LeadsToText "./page.dart" [page] ⟨"x // y".toUTF8, 0o644⟩ "x // y" :=
  ⟨(resolve n).1, @node?_of_mem n [page] (.file 1) (by simp) (by simp [texts]), rfl, File.text?_toUTF8 _ _⟩

theorem le_utf8ByteSize_path (ns : List Name) :
    4 * (n + 1) ≤ (Place.path (down (n + 1) ++ ns)).utf8ByteSize := by
  have hnames : ((down (n + 1)).map fun name => name.text.utf8ByteSize).sum = 4 * (n + 1) := by
    have hsize : deep.text.utf8ByteSize = 4 := by decide
    rw [down, List.map_replicate, hsize, List.sum_replicate_nat, Nat.mul_comm]
  have hle := Path.utf8ByteSize_below_le (by decide : "/" ≠ "") [] (down (n + 1) ++ ns)
  rw [List.map_append, List.sum_append, hnames, List.nil_append] at hle
  rw [Place.path_eq_below]
  omega

variable {n} (hn : 1023 ≤ n)

include hn

theorem canonicalize {path : String} {name : Name} (hw : Disk.IsWritten path)
    (hrelative : Path.isAbsolute path = false) (hsteps : Path.steps path = [".", name.text]) :
    (disk n).canonicalize path = .error .nameTooLong := by
  have hlong : Path.isTooLong (Place.path (down (n + 1) ++ [name])) = true := by
    have hle := le_utf8ByteSize_path n [name]
    rw [Path.isTooLong, Path.sizeLimit, decide_eq_true_iff]
    omega
  rw [hw.canonicalize, hsteps, Disk.start, hrelative, Disk.realFrom, if_pos (.inr rfl)]
  refine Disk.realFrom_of_sight_error ?_
  change (disk n).sight (down (n + 1) ++ [name]) [] = _
  rw [Disk.sight, Disk.probe_nil,
    Disk.locate_of_isTooLong (Place.path_ne_empty _) (Place.nul_not_mem_path _) hlong]
  rfl

end

end Deep

end CommentStrip
