import CommentStrip.Proofs.Rerun

/-! What a run tells and what it reports. Both are records of one loop over the files that were found: each
file has its turn, on the disk as the turns before have left it. -/
namespace CommentStrip

namespace Disk

/-- The disk when the turn of file number `i` comes. -/
def atTurn (d : Disk) (files : List String) (i : Nat) : Disk :=
  (files.take i).foldl (fun d path => (d.process path).2) d

/-- The file that a path leads to can be stripped. -/
def canStrip (d : Disk) (path : String) : Bool := (d.process path).1.toOption.isSome

private theorem canStrip_of_ok {d : Disk} {path : String} {r : Processed} (h : (d.process path).1 = .ok r) :
    d.canStrip path = true := by
  rw [canStrip, h]
  rfl

private theorem canStrip_of_error {d : Disk} {path : String} {e : FileError} (h : (d.process path).1 = .error e) :
    d.canStrip path = false := by
  rw [canStrip, h]
  rfl

private theorem SameButTexts.canStrip {d d' : Disk} (h : SameButTexts d d') (path : String) :
    d.canStrip path = d'.canStrip path := by
  cases hr : (d.process path).1 with
  | error e => rw [canStrip_of_error hr, canStrip_of_error (h.process_error hr)]
  | ok r =>
    obtain ⟨r', hr'⟩ := (h.exists_process_ok_iff path).1 ⟨r, hr⟩
    rw [canStrip_of_ok hr, canStrip_of_ok hr']

theorem path_of_process_ok {d : Disk} {path : String} {r : Processed} (h : (d.process path).1 = .ok r) :
    r.path = path := by
  obtain ⟨p, f, text, -, -, rfl⟩ := process_ok_iff.1 h
  rfl

theorem path_of_process_error {d : Disk} {path : String} {e : FileError}
    (h : (d.process path).1 = .error e) : e.path = path := by
  by_cases hl : ∃ p f text, d.LeadsToText path p f text
  · obtain ⟨p, f, text, hl⟩ := hl
    cases hr : d.refusal? path f with
    | none =>
      rw [process_of_not_refused hl hr] at h
      cases h
    | some cause =>
      rw [process_of_refused hl hr] at h
      cases h
      rfl
  · obtain ⟨cause, hp⟩ := process_of_not_leadsToText hl
    rw [hp] at h
    cases h
    rfl

private theorem atTurn_succ (d : Disk) (path : String) (files : List String) (i : Nat) :
    d.atTurn (path :: files) (i + 1) = (d.process path).2.atTurn files i := rfl

/-- Each file is tried once, in its turn. -/
theorem getElem?_processAll (d : Disk) (files : List String) (i : Nat) :
    (d.processAll files).1[i]? =
      files[i]?.map fun path => ⟨path, ((d.atTurn files i).process path).1⟩ := by
  induction files generalizing d i with
  | nil => simp [processAll]
  | cons path files ih =>
    cases i with
    | zero => simp [processAll, atTurn]
    | succ i =>
      rw [atTurn_succ, List.getElem?_cons_succ, ← ih]
      simp [processAll]

/-- A failure names the path of the file that was tried. -/
theorem path_of_mem_processAll {d : Disk} {files : List String} {a : Attempt} {e : FileError}
    (ha : a ∈ (d.processAll files).1) (he : a.outcome = .error e) : e.path = a.path := by
  obtain ⟨i, hi⟩ := List.mem_iff_getElem?.1 ha
  rw [getElem?_processAll, Option.map_eq_some_iff] at hi
  obtain ⟨path, -, rfl⟩ := hi
  exact path_of_process_error he

theorem length_processAll (d : Disk) (files : List String) :
    (d.processAll files).1.length = files.length := by
  induction files generalizing d with
  | nil => rfl
  | cons path files ih => simp [processAll, ih]

private theorem sameButTexts_atTurn (d : Disk) (files : List String) (i : Nat) :
    SameButTexts d (d.atTurn files i) := by
  induction files generalizing d i with
  | nil => simp [atTurn, SameButTexts.refl]
  | cons path files ih =>
    cases i with
    | zero => exact .refl d
    | succ i => exact (sameButTexts_process d path).trans (ih _ i)

end Disk

namespace Event

/-- The file that an event reports as stripped. -/
def processed? : Event → Option Processed
  | processed file => some file
  | _ => none

/-- The path and the failure of a file that an event reports as failed. -/
def failure? : Event → Option (String × FileError)
  | failed e => some (e.path, e)
  | _ => none

private theorem filterMap_failure?_eq_nil_iff {events : List Event} :
    events.filterMap failure? = [] ↔ ∀ e, failed e ∉ events := by
  rw [List.filterMap_eq_nil_iff]
  constructor
  · intro h e hm
    cases h _ hm
  · intro h event hm
    cases event with
    | failed e => exact absurd hm (h e)
    | _ => rfl

end Event

namespace Report

variable (dir : String)

private theorem ofAttempts_eq_filterMap_event {attempts : List Attempt}
    (h : ∀ a ∈ attempts, ∀ e, a.outcome = .error e → e.path = a.path) :
    (ofAttempts dir attempts).processed = (attempts.map Attempt.event).filterMap Event.processed? ∧
      (ofAttempts dir attempts).failures = (attempts.map Attempt.event).filterMap Event.failure? := by
  rw [List.filterMap_map, List.filterMap_map]
  refine ⟨List.filterMap_congr fun a _ => ?_, List.filterMap_congr fun a ha => ?_⟩
  · cases ho : a.outcome <;> simp [Attempt.event, ho, Event.processed?, Except.toOption]
  · cases ho : a.outcome with
    | ok file => simp [Attempt.event, ho, Event.failure?]
    | error e => simp [Attempt.event, ho, Event.failure?, h a ha e ho]

private theorem ofAttempts_cons_ok {a : Attempt} {file : Processed} (h : a.outcome = .ok file)
    (attempts : List Attempt) : ofAttempts dir (a :: attempts) =
      { ofAttempts dir attempts with processed := file :: (ofAttempts dir attempts).processed } := by
  simp [ofAttempts, h, Except.toOption]

private theorem ofAttempts_cons_error {a : Attempt} {e : FileError} (h : a.outcome = .error e)
    (attempts : List Attempt) : ofAttempts dir (a :: attempts) =
      { ofAttempts dir attempts with failures := (a.path, e) :: (ofAttempts dir attempts).failures } := by
  simp [ofAttempts, h, Except.toOption]

/-- Whether a file can be stripped does not depend on its turn, so the start of the run decides which files
are reported as stripped and which as failed. -/
theorem map_path_ofAttempts (d : Disk) (files : List String) :
    (ofAttempts dir (d.processAll files).1).processed.map Processed.path = files.filter d.canStrip ∧
      (ofAttempts dir (d.processAll files).1).failures.map Prod.fst =
        files.filter fun path => !d.canStrip path := by
  induction files generalizing d with
  | nil => exact ⟨rfl, rfl⟩
  | cons path files ih =>
    have hnext : (d.process path).2.canStrip = d.canStrip :=
      funext fun other => ((Disk.sameButTexts_process d path).canStrip other).symm
    obtain ⟨hok, herror⟩ := ih (d.process path).2
    rw [hnext] at hok herror
    rw [Disk.processAll]
    cases hr : (d.process path).1 with
    | ok r =>
      have hs := Disk.canStrip_of_ok hr
      rw [ofAttempts_cons_ok dir hr]
      simp [hs, hok, herror, Disk.path_of_process_ok hr]
    | error e =>
      have hs := Disk.canStrip_of_error hr
      rw [ofAttempts_cons_error dir hr]
      simp [hs, hok, herror]

end Report

theorem runIn_events {d : Disk} {dir : String} (h : d.pathExists dir = true) (c : Config) :
    (runIn d dir c).events = .started dir (filesBelow d dir c).length ::
      (d.processAll (filesBelow d dir c)).1.map Attempt.event ++
        [.complete (.ofAttempts dir (d.processAll (filesBelow d dir c)).1)] := by
  simp only [runIn, h, if_true]
  rfl

/-- Where there is nothing at `dir`, a run says so, tells nothing and changes nothing. Otherwise it tells
how many files it found, then of each file in turn whether it was stripped or failed, then that it is
done. The files it reports as stripped and as failed are those it told of, in their order; together they
are the files that were found. -/
theorem runIn_tells (d : Disk) (dir : String) (c : Config) :
    let files := filesBelow d dir c
    let r := runIn d dir c
    (d.pathExists dir = false →
      r.outcome = .error (.directoryNotFound dir) ∧ r.events = [] ∧ r.disk = d) ∧
    (d.pathExists dir = true → ∃ report told, r.outcome = .ok report ∧ report.targetDir = dir ∧
      r.events = .started dir files.length :: told ++ [.complete report] ∧
      told.length = files.length ∧
      (∀ i path, files[i]? = some path →
        (∀ file, ((d.atTurn files i).process path).1 = .ok file →
          told[i]? = some (.processed file) ∧ file.path = path) ∧
        (∀ e, ((d.atTurn files i).process path).1 = .error e →
          told[i]? = some (.failed e) ∧ e.path = path) ∧
        (d.atTurn files i).canStrip path = d.canStrip path) ∧
      report.processed = told.filterMap Event.processed? ∧
      report.failures = told.filterMap Event.failure? ∧
      report.processed.map Processed.path = files.filter d.canStrip ∧
      report.failures.map Prod.fst = (files.filter fun path => !d.canStrip path) ∧
      report.filesSeen = files.length ∧
      (report.isClean = true ↔ ∀ e, .failed e ∉ r.events)) := by
  intro files r
  refine ⟨fun h => ?_, fun h => ?_⟩
  · simp [r, runIn, h]
  · have hattempt (i : Nat) (path : String) (hi : files[i]? = some path) :
        (d.processAll files).1[i]? = some ⟨path, ((d.atTurn files i).process path).1⟩ := by
      rw [Disk.getElem?_processAll, hi]
      rfl
    obtain ⟨hprocessed, hfailures⟩ := Report.ofAttempts_eq_filterMap_event dir
      fun a (ha : a ∈ (d.processAll files).1) e he => Disk.path_of_mem_processAll ha he
    obtain ⟨hok, herror⟩ := Report.map_path_ofAttempts dir d files
    refine ⟨_, _, runIn_outcome h c, rfl, runIn_events h c, by rw [List.length_map, Disk.length_processAll],
      fun i path hi => ⟨fun file hf => ⟨?_, Disk.path_of_process_ok hf⟩,
        fun e he => ⟨?_, Disk.path_of_process_error he⟩, ?_⟩,
      hprocessed, hfailures, hok, herror, ?_, ?_⟩
    · rw [List.getElem?_map, hattempt i path hi, hf]
      rfl
    · rw [List.getElem?_map, hattempt i path hi, he]
      rfl
    · exact ((Disk.sameButTexts_atTurn d files i).canStrip path).symm
    · have hlen := List.length_eq_length_filter_add (l := files) d.canStrip
      rw [Report.filesSeen, ← List.length_map Processed.path, hok, ← List.length_map Prod.fst, herror]
      exact hlen.symm
    · rw [Report.isClean, List.isEmpty_iff, hfailures, Event.filterMap_failure?_eq_nil_iff, runIn_events h]
      simp [files]

namespace Mixed

open Threefold (lib)

abbrev lost : Name := ⟨"lost.dart", by decide⟩
abbrev plain : Name := ⟨"open.dart", by decide⟩
abbrev locked : Name := ⟨"shut.dart", by decide⟩

/-- A link that leads nowhere, a file with a comment, and one that nobody may write. -/
def disk : Disk where
  entries := [([lib], .directory 0o755), ([lib, locked], .file 2), ([lib, plain], .file 1),
    ([lib, lost], .link "gone")]
  files := fun number => if number = 1 then ⟨"x // y".toUTF8, 0o644⟩ else ⟨"z // w".toUTF8, 0o444⟩
  distinct := by decide

theorem isOpen : disk.IsOpen := ⟨⟨by decide, rfl⟩, by decide, by decide, by decide⟩

theorem resolve :
    disk.resolve "/lib" = .ok [lib] ∧ disk.resolve "/lib/lost.dart" = .error .noSuchFile ∧
      disk.resolve "/lib/open.dart" = .ok [lib, plain] ∧
      disk.resolve "/lib/shut.dart" = .ok [lib, locked] := by
  have hsteps : Path.steps "/lib" = ["lib"] ∧ Path.steps "/lib/lost.dart" = ["lib", "lost.dart"] ∧
      Path.steps "/lib/open.dart" = ["lib", "open.dart"] ∧
      Path.steps "/lib/shut.dart" = ["lib", "shut.dart"] ∧
      Path.steps "gone" = ["gone"] := by decide
  have hnames : Name.ofText? "lib" = some lib ∧ Name.ofText? "lost.dart" = some lost ∧
      Name.ofText? "open.dart" = some plain ∧ Name.ofText? "shut.dart" = some locked ∧
      Name.ofText? "gone" = some ⟨"gone", by decide⟩ := by decide
  have hentries : disk.entry? [lib] = some (.directory 0o755) ∧ disk.entry? [lib, lost] = some (.link "gone") ∧
      disk.entry? [lib, plain] = some (.file 1) ∧ disk.entry? [lib, locked] = some (.file 2) ∧
      disk.entry? [lib, ⟨"gone", by decide⟩] = none := by
    decide
  have hdirs : disk.isDirectoryAt [] = true ∧ disk.isDirectoryAt [lib] = true ∧
      disk.allows .search [] = true ∧ disk.allows .search [lib] = true := by decide
  have habs : Path.isAbsolute "/lib" = true ∧ Path.isAbsolute "/lib/lost.dart" = true ∧
      Path.isAbsolute "/lib/open.dart" = true ∧ Path.isAbsolute "/lib/shut.dart" = true ∧
      Path.isAbsolute "gone" = false := by decide
  have hsizes : Path.isTooLong "/lib" = false ∧ Path.isTooLong "/lib/lost.dart" = false ∧
      Path.isTooLong "/lib/open.dart" = false ∧ Path.isTooLong "/lib/shut.dart" = false ∧
      ¬ 255 < "lib".utf8ByteSize ∧ ¬ 255 < "lost.dart".utf8ByteSize ∧ ¬ 255 < "open.dart".utf8ByteSize ∧
      ¬ 255 < "shut.dart".utf8ByteSize ∧ ¬ 255 < "gone".utf8ByteSize := by decide
  simp [Disk.resolve, Disk.locate, Disk.start, Disk.linkLimit, Disk.trace, Lookup.place, Name.sizeLimit, hsteps,
    hnames, hentries, hdirs, habs, hsizes]

theorem children :
    disk.children [lib] = [(lost, .link "gone"), (plain, .file 1), (locked, .file 2)] := by
  have hab : Text.isBefore "lost.dart" "open.dart" = true := by decide
  have hbc : Text.isBefore "open.dart" "shut.dart" = true := by decide
  simp [Disk.children, disk, Disk.nameIn?, List.mergeSort, List.MergeSort.Internal.splitInTwo, hab, hbc]

abbrev found : List String := ["/lib/lost.dart", "/lib/open.dart", "/lib/shut.dart"]

theorem filesBelow_lib {c : Config} (h : c.effectiveExtension = "dart")
    (hf : c.effectiveFollowLinks = false) : filesBelow disk "/lib" c = found := by
  have hwanted : Search.wanted ⟨"/lib", "dart", false⟩ "lost.dart" = true ∧
      Search.wanted ⟨"/lib", "dart", false⟩ "open.dart" = true ∧
      Search.wanted ⟨"/lib", "dart", false⟩ "shut.dart" = true := by decide
  have hjoin : Path.join "/lib" "lost.dart" = "/lib/lost.dart" ∧
      Path.join "/lib" "open.dart" = "/lib/open.dart" ∧
      Path.join "/lib" "shut.dart" = "/lib/shut.dart" := by decide
  have hdir : disk.isDirectoryAt [lib] = true ∧ disk.allows .read [lib] = true := by decide
  have hwalk : disk.walkFrom false (Search.wanted ⟨"/lib", "dart", false⟩) [] ⟨"/lib", [lib]⟩ =
      [.file "/lib/lost.dart", .file "/lib/open.dart", .file "/lib/shut.dart"] := by
    rw [Disk.walkFrom_eq, children]
    simp [Disk.meet, Disk.meetLink, Disk.meetFile, hwanted, hjoin, resolve]
  simp [filesBelow, Search.discover, Search.ofConfig, h, hf, Search.findings, resolve, hdir, hwalk,
    Finding.file?]

private theorem process_lost : (disk.process "/lib/lost.dart").1 = .error (.read "/lib/lost.dart" .noSuchFile) := by
  rw [Disk.process, Disk.readText_of_resolve_error resolve.2.1]

private theorem process_plain :
    (disk.process "/lib/open.dart").1 = .ok ⟨"/lib/open.dart", 6, 1, true⟩ := by
  have hl : disk.LeadsToText "/lib/open.dart" [lib, plain] ⟨"x // y".toUTF8, 0o644⟩ "x // y" :=
    ⟨resolve.2.2.1, rfl, by decide, File.text?_toUTF8 _ _⟩
  rw [Disk.process_of_not_refused hl (isOpen.refusal?_eq_none hl (by decide))]
  decide

private theorem process_locked :
    (disk.process "/lib/shut.dart").1 = .error (.write "/lib/shut.dart" .readOnly) := by
  have hl : disk.LeadsToText "/lib/shut.dart" [lib, locked] ⟨"z // w".toUTF8, 0o444⟩ "z // w" :=
    ⟨resolve.2.2.2, rfl, by decide, File.text?_toUTF8 _ _⟩
  have hrefused := ((isOpen.canReplace "/lib/shut.dart").refusal?_eq_some_iff hl).2
    (.inr ⟨isOpen.canonicalize hl.resolves, by decide, rfl⟩)
  rw [Disk.process_of_refused hl hrefused]

/-- The first turn changes nothing and the second only a text, so all three go as they would at the start. -/
theorem turns :
    ((disk.atTurn found 0).process "/lib/lost.dart").1 = .error (.read "/lib/lost.dart" .noSuchFile) ∧
    ((disk.atTurn found 1).process "/lib/open.dart").1 = .ok ⟨"/lib/open.dart", 6, 1, true⟩ ∧
    ((disk.atTurn found 2).process "/lib/shut.dart").1 = .error (.write "/lib/shut.dart" .readOnly) := by
  have hfirst : disk.atTurn found 1 = disk := Disk.process_error process_lost
  refine ⟨process_lost, ?_, (Disk.sameButTexts_atTurn disk found 2).process_error process_locked⟩
  rw [hfirst]
  exact process_plain

theorem pathExists_lib : disk.pathExists "/lib" = true := by
  simp [Disk.pathExists, resolve, Except.toOption]

/-- Failures come before and after a file that is stripped; each is told in its turn. -/
theorem runIn_tells_between_failures :
    disk.pathExists "/lib" = true ∧ ∃ report,
      (runIn disk "/lib" {}).events =
        [.started "/lib" 3, .failed (.read "/lib/lost.dart" .noSuchFile),
          .processed ⟨"/lib/open.dart", 6, 1, true⟩, .failed (.write "/lib/shut.dart" .readOnly),
          .complete report] ∧
      report.isClean = false ∧ report.filesSeen = 3 := by
  have hfiles : filesBelow disk "/lib" {} = found := filesBelow_lib rfl rfl
  obtain ⟨-, hrun⟩ := runIn_tells disk "/lib" {}
  rw [hfiles] at hrun
  obtain ⟨report, told, -, -, hevents, hlen, hturn, -, -, -, -, hseen, hclean⟩ := hrun pathExists_lib
  obtain ⟨hlost, hplain, hlocked⟩ := turns
  have htold : told = [.failed (.read "/lib/lost.dart" .noSuchFile),
      .processed ⟨"/lib/open.dart", 6, 1, true⟩, .failed (.write "/lib/shut.dart" .readOnly)] := by
    refine List.ext_getElem? fun i => ?_
    match i with
    | 0 => exact ((hturn 0 _ rfl).2.1 _ hlost).1
    | 1 => exact ((hturn 1 _ rfl).1 _ hplain).1
    | 2 => exact ((hturn 2 _ rfl).2.1 _ hlocked).1
    | i + 3 => simp [hlen]
  refine ⟨pathExists_lib, report, by rw [hevents, htold]; rfl, ?_, hseen⟩
  rw [← Bool.not_eq_true, hclean, hevents, htold]
  exact fun h => h _ (.tail _ (.head _))

end Mixed

end CommentStrip
