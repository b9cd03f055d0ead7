import CommentStrip.Proofs.Process
import CommentStrip.Proofs.Walk
import CommentStrip.Run
import Mathlib.Logic.Function.Iterate

/-! Stripping all files below a directory: what is seen afterwards at every place, in whatever order the
files are taken. -/
namespace CommentStrip

namespace File

/-- A file after one pass by a program. One that it may not read, that is not text, or that nobody may write
stays as it is. -/
def stripped (c : Caller) (f : File) : File :=
  match f.text? with
  | some text =>
    if c.may .read f.mode && !f.isReadOnly then { f with bytes := (stripComments text).toUTF8 } else f
  | none => f

variable {c : Caller} {f : File} {text : String}

theorem toUTF8_of_text? (h : f.text? = some text) : text.toUTF8 = f.bytes := by
  unfold text? String.fromUTF8? at h
  split at h
  · obtain rfl := Option.some.inj h
    rfl
  · cases h

private theorem stripped_of_text (hm : c.may .read f.mode = true) (h : f.text? = some text)
    (hw : f.isReadOnly = false) : f.stripped c = { f with bytes := (stripComments text).toUTF8 } := by
  simp [stripped, h, hm, hw]

private theorem stripped_of_refused
    (h : ∀ text, c.may .read f.mode = true → f.text? = some text → f.isReadOnly = true) :
    f.stripped c = f := by
  unfold stripped
  split
  · next text ht =>
    refine if_neg fun hb => ?_
    obtain ⟨hm, hw⟩ := Bool.and_eq_true_iff.1 hb
    simp [h text hm ht] at hw
  · rfl

/-- Every pass finds text to read and a file to write, and keeps the mode. -/
theorem iterate_stripped (hm : c.may .read f.mode = true) (h : f.text? = some text)
    (hw : f.isReadOnly = false) (k : Nat) :
    (stripped c)^[k] f = { f with bytes := (stripComments^[k] text).toUTF8 } := by
  induction k with
  | zero =>
    rw [Function.iterate_zero_apply, Function.iterate_zero_apply, toUTF8_of_text? h]
  | succ k ih =>
    rw [Function.iterate_succ_apply', Function.iterate_succ_apply', ih]
    exact stripped_of_text hm (text?_toUTF8 f.mode _) hw

end File

namespace Node

def stripped (c : Caller) : Node → Node
  | .file f => .file (f.stripped c)
  | n => n

/-- A file that a pass by a program rewrites. -/
def IsStrippable (c : Caller) (n : Node) : Prop :=
  ∃ f text, n = .file f ∧ c.may .read f.mode = true ∧ f.text? = some text ∧ f.isReadOnly = false

private theorem stripped_of_not_isStrippable {c : Caller} {n : Node} (h : ¬ n.IsStrippable c) : n.stripped c = n := by
  cases n with
  | file f =>
    rw [stripped, File.stripped_of_refused]
    intro text hm ht
    by_contra hw
    exact h ⟨f, text, rfl, hm, ht, by simpa using hw⟩
  | _ => rfl

theorem iterate_stripped_file (c : Caller) (f : File) (k : Nat) :
    (stripped c)^[k] (.file f) = .file ((File.stripped c)^[k] f) := by
  induction k with
  | zero => rfl
  | succ k ih => rw [Function.iterate_succ_apply', Function.iterate_succ_apply', ih, stripped]

end Node

namespace Disk

/-- A path leads, through all links, to a place, and the real path of that place is found. -/
def leadsTo (d : Disk) (path : String) (p : Place) : Bool :=
  (d.resolve path).toOption == some p && (d.canonicalize path).toOption == some p

theorem leadsTo_iff {d : Disk} {path : String} {p : Place} :
    d.leadsTo path p = true ↔ d.resolve path = .ok p ∧ d.canonicalize path = .ok p := by
  cases h : d.resolve path <;> cases hc : d.canonicalize path <;> simp [leadsTo, h, hc, Except.toOption]

theorem IsOpen.leadsTo_iff {d : Disk} (h : d.IsOpen) {path : String} {p : Place} :
    d.leadsTo path p = true ↔ d.resolve path = .ok p :=
  ⟨fun hl => (Disk.leadsTo_iff.1 hl).1, fun hp => Disk.leadsTo_iff.2 ⟨hp, h.canonicalize hp⟩⟩

theorem SameShape.leadsTo {d d' : Disk} (h : SameShape d d') (path : String) (p : Place) :
    d.leadsTo path p = d'.leadsTo path p := by
  rw [Disk.leadsTo, h.resolve, h.canonicalize, Disk.leadsTo]

theorem SameShape.obstacleIn? {d d' : Disk} (h : SameShape d d') (p : Place) :
    d.obstacleIn? p = d'.obstacleIn? p := by
  simp only [Disk.obstacleIn?, h.canChange]

theorem SameShape.canReplace {d d' : Disk} (h : SameShape d d') {path : String} (hc : d.CanReplace path) :
    d'.CanReplace path := by
  intro p hp
  rw [← h.obstacleIn?]
  exact hc p (h.resolve path ▸ hp)

theorem sameShape_process (d : Disk) (path : String) : SameShape d (d.process path).2 := by
  cases hr : (d.process path).1 with
  | error e => rw [process_error hr]; exact .refl d
  | ok r =>
    obtain ⟨p, f, text, hl, -, hd⟩ := process_ok hr
    rw [hd]
    exact sameShape_insertFile (node?_eq_file_iff.1 hl.isFile) _

/-- One step of a run: the place where the path leads shows its file stripped, all else stays. -/
theorem node?_process {d : Disk} {path : String} (hc : d.CanReplace path) (q : Place) :
    (d.process path).2.node? q =
      if d.leadsTo path q then (d.node? q).map (Node.stripped d.toCaller) else d.node? q := by
  by_cases hs : ∃ p f text, d.LeadsToText path p f text ∧ d.canonicalize path = .ok p ∧ f.isReadOnly = false
  · obtain ⟨p, f, text, hl, hreal, hw⟩ := hs
    have hp := ne_nil_of_fileAt? (node?_eq_file_iff.1 hl.isFile)
    rw [process_of_not_refused hl ((hc.refusal?_eq_none_iff hl).2 ⟨hreal, hw⟩), node?_insertFile d hp]
    by_cases hq : q = p
    · rw [if_pos hq, if_pos (leadsTo_iff.2 (hq ▸ ⟨hl.resolves, hreal⟩)), hq, hl.isFile, Option.map_some,
        Node.stripped, File.stripped_of_text hl.mayRead hl.isText hw]
    · have hn : ¬ d.leadsTo path q = true := by
        rw [leadsTo_iff, hl.resolves]
        exact fun e => hq (Except.ok.inj e.1).symm
      rw [if_neg hq, if_neg hn]
  · have hd : (d.process path).2 = d := by
      cases hr : (d.process path).1 with
      | error e => exact process_error hr
      | ok r =>
        obtain ⟨p, f, text, hl, hno, -⟩ := process_ok hr
        exact absurd ⟨p, f, text, hl, (hc.refusal?_eq_none_iff hl).1 hno⟩ hs
    rw [hd]
    by_cases hq : d.leadsTo path q = true
    · obtain ⟨hp, hreal⟩ := leadsTo_iff.1 hq
      rw [if_pos hq]
      cases hn : d.node? q with
      | none => rfl
      | some n =>
        have hnot : ¬ n.IsStrippable d.toCaller := by
          rintro ⟨f, text, rfl, hm, ht, hw⟩
          exact hs ⟨q, f, text, ⟨hp, hn, hm, ht⟩, hreal, hw⟩
        rw [Option.map_some, Node.stripped_of_not_isStrippable hnot]
    · rw [if_neg hq]

/-- A run strips what is seen at a place once for every path that leads there. Paths are followed on the
disk as it was: no step changes where a path leads. -/
theorem node?_processAll {d : Disk} {files : List String} (hc : ∀ path ∈ files, d.CanReplace path)
    (q : Place) :
    (d.processAll files).2.node? q =
      (d.node? q).map (Node.stripped d.toCaller)^[files.countP (d.leadsTo · q)] := by
  induction files generalizing d with
  | nil => simp [processAll]
  | cons path files ih =>
    have hshape := sameShape_process d path
    have hrest := ih fun path' hm => hshape.canReplace (hc path' (by simp [hm]))
    simp only [← hshape.leadsTo, ← hshape.caller] at hrest
    rw [processAll]
    simp only [hrest, node?_process (hc path (by simp)), List.countP_cons]
    by_cases hq : d.leadsTo path q = true
    · rw [if_pos hq, if_pos hq, Option.map_map, Function.iterate_succ]
    · rw [if_neg hq, if_neg hq, Nat.add_zero]

end Disk

/-- The files that a run takes, in the order in which they are found. -/
def filesBelow (d : Disk) (dir : String) (c : Config) : List String :=
  ((Search.ofConfig dir c).discover d).files

/-- Where there is nothing at `dir` the search finds nothing, so a run is all of its steps. -/
theorem runIn_disk (d : Disk) (dir : String) (c : Config) :
    (runIn d dir c).disk = (d.processAll (filesBelow d dir c)).2 := by
  by_cases h : d.pathExists dir = true
  · simp only [runIn, h, if_true]
    rfl
  · have hf : filesBelow d dir c = [] := by
      cases hr : d.resolve dir with
      | ok p => simp [Disk.pathExists, hr, Except.toOption] at h
      | error e =>
        simp [filesBelow, Search.discover, Search.findings, Search.ofConfig, hr, Finding.file?]
    rw [hf, runIn, if_neg h]
    rfl

namespace Threefold

theorem children :
    disk.children [lib] = [(real, .file 1), (link, .link "a.dart"), (twin, .file 1)] := by
  have hab : Text.isBefore "a.dart" "b.dart" = true := by decide
  have hbc : Text.isBefore "b.dart" "c.dart" = true := by decide
  simp [Disk.children, disk, Disk.nameIn?, List.mergeSort, List.MergeSort.Internal.splitInTwo, hab, hbc]

theorem filesBelow_lib : filesBelow disk "/lib" {} = ["/lib/a.dart", "/lib/b.dart", "/lib/c.dart"] := by
  have hwanted : (Search.ofConfig "/lib" {}).wanted "a.dart" = true ∧
      (Search.ofConfig "/lib" {}).wanted "b.dart" = true ∧
      (Search.ofConfig "/lib" {}).wanted "c.dart" = true := by decide
  have hjoin : Path.join "/lib" "a.dart" = "/lib/a.dart" ∧ Path.join "/lib" "b.dart" = "/lib/b.dart" ∧
      Path.join "/lib" "c.dart" = "/lib/c.dart" := by decide
  have hdirs : disk.isDirectoryAt [lib] = true ∧ disk.isDirectoryAt [lib, real] = false ∧
      disk.allows .read [lib] = true := by decide
  have hwalk : disk.walkFrom false (Search.ofConfig "/lib" {}).wanted [] ⟨"/lib", [lib]⟩ =
      [.file "/lib/a.dart", .file "/lib/b.dart", .file "/lib/c.dart"] := by
    rw [Disk.walkFrom_eq, children]
    simp [Disk.meet, Disk.meetLink, Disk.meetFile, hwanted, hjoin, resolve, hdirs]
  have hfindings : (Search.ofConfig "/lib" {}).findings disk =
      [.file "/lib/a.dart", .file "/lib/b.dart", .file "/lib/c.dart"] := by
    rw [← hwalk]
    simp only [Search.findings, Search.ofConfig, resolve, hdirs]
    rfl
  simp [filesBelow, Search.discover, hfindings, Finding.file?]

theorem countP_leadsTo :
    (filesBelow disk "/lib" {}).countP (disk.leadsTo · [lib, real]) = 2 ∧
      (filesBelow disk "/lib" {}).countP (disk.leadsTo · [lib, twin]) = 1 := by
  simp [filesBelow_lib, isOpen.leadsTo_iff, resolve]

end Threefold

namespace Deep

section

variable (n : Nat)

theorem children :
    (disk n).children (down (n + 1)) = [(page, .link "/page.dart"), (veiled, .link "/veiled.dart")] := by
  have hway (k : Nat) (hk : k ∈ List.range (n + 1)) :
      Disk.nameIn? (down (n + 1)) (down (k + 1)) = none := by
    have hlt := List.mem_range.1 hk
    refine if_neg fun h => ?_
    have hlength := congrArg List.length h
    simp only [down, List.length_dropLast, List.length_replicate] at hlength
    omega
  have hbefore : Text.isBefore "veiled.dart" "page.dart" = false := by decide
  simp only [Disk.children, disk, List.filterMap_append, List.filterMap_map]
  rw [(List.filterMap_eq_nil_iff.2 ?_ : (List.range (n + 1)).filterMap _ = []), List.nil_append]
  · simp [texts, Disk.nameIn?, down, List.mergeSort, List.MergeSort.Internal.splitInTwo, hbefore]
  · intro k hk
    simp [hway k hk]

theorem resolve_here : (disk n).resolve "." = .ok (down (n + 1)) :=
  Disk.resolve_dot (allows_down n .search (Nat.le_refl _))

end

end Deep

end CommentStrip
