import CommentStrip.Proofs.Clean
import CommentStrip.Proofs.Run

/-! Running twice. A run changes the words of texts and nothing else, so the next run finds the same files
and fails on the same ones. What it still changes is what the first run left with a block opener. -/
namespace CommentStrip

/-- A file but for the words of its text. One that is not text is seen whole. -/
def File.blurred (f : File) : File := if f.text?.isSome then { f with bytes := "".toUTF8 } else f

private theorem File.mode_blurred (f : File) : f.blurred.mode = f.mode := by
  unfold blurred
  split <;> rfl

private theorem File.blurred_of_text {f : File} {text : String} (h : f.text? = some text) :
    f.blurred = ⟨"".toUTF8, f.mode⟩ := by
  simp [blurred, h]

private theorem File.isSome_text?_blurred (f : File) : f.blurred.text?.isSome = f.text?.isSome := by
  unfold blurred
  split
  · next h => rw [h, text?_toUTF8]; rfl
  · rfl

namespace Node

def blurred : Node → Node
  | .file f => .file f.blurred
  | n => n

/-- The kind of entry that shows a node. -/
def shape : Node → Entry
  | .directory mode => .directory mode
  | .link target => .link target
  | .file _ => .file 0
  | .special cause => .special cause

private theorem shape_blurred (n : Node) : n.blurred.shape = n.shape := by
  cases n <;> rfl

end Node

namespace Disk

private theorem shape?_eq (d : Disk) (p : Place) : d.shape? p = (d.node? p).map Node.shape := by
  rw [shape?, node?, Option.map_map]
  congr 1
  funext e
  cases e <;> rfl

/-- The text at a place, or why it cannot be read. -/
def textAt (d : Disk) (p : Place) : Except IoError String :=
  match d.node? p with
  | some (.file f) =>
    if d.may .read f.mode then
      match f.text? with
      | some text => .ok text
      | none => .error .notUtf8
    else .error .permissionDenied
  | some (.directory mode) => .error (if d.may .read mode then .isADirectory else .permissionDenied)
  | some (.special cause) => .error cause
  | _ => .error .noSuchFile

theorem readText_of_resolve_error {d : Disk} {path : String} {e : IoError}
    (h : d.resolve path = .error e) : d.readText path = .error e := by
  simp [readText, readFile, h, bind, Except.bind]

private theorem readText_of_resolve_ok {d : Disk} {path : String} {p : Place} (h : d.resolve path = .ok p) :
    d.readText path = d.textAt p := by
  simp only [readText, readFile, textAt, h, bind, Except.bind, node?]
  rcases d.entry? p with _ | _ | _ | n | _
  · rfl
  · rfl
  · rfl
  · cases hm : d.may .read (d.files n).mode with
    | false => simp [view, hm]
    | true => cases ht : (d.files n).text? <;> simp [view, hm, ht]
  · rfl

/-- Two disks that differ in the words of texts only. -/
structure SameButTexts (d d' : Disk) : Prop where
  caller : d.toCaller = d'.toCaller
  nodes : ∀ p, (d.node? p).map Node.blurred = (d'.node? p).map Node.blurred

namespace SameButTexts

variable {d d' d'' : Disk}

theorem refl (d : Disk) : SameButTexts d d := ⟨rfl, fun _ => rfl⟩

theorem symm (h : SameButTexts d d') : SameButTexts d' d :=
  ⟨h.caller.symm, fun p => (h.nodes p).symm⟩

theorem trans (h : SameButTexts d d') (h' : SameButTexts d' d'') : SameButTexts d d'' :=
  ⟨h.caller.trans h'.caller, fun p => (h.nodes p).trans (h'.nodes p)⟩

theorem sameShape (h : SameButTexts d d') : SameShape d d' := by
  refine ⟨h.caller, fun p => ?_⟩
  have hs := congrArg (Option.map Node.shape) (h.nodes p)
  simpa only [shape?_eq, Option.map_map, Function.comp_def, Node.shape_blurred] using hs

/-- Where there is a file on one, there is one on the other, and if it is text then so is that. -/
theorem exists_file (h : SameButTexts d d') {p : Place} {f : File} (hf : d.node? p = some (.file f)) :
    ∃ f', d'.node? p = some (.file f') ∧ f'.mode = f.mode ∧ f'.text?.isSome = f.text?.isSome := by
  have hp := h.nodes p
  rw [hf, Option.map_some, eq_comm, Option.map_eq_some_iff] at hp
  obtain ⟨n, hn, hb⟩ := hp
  cases n with
  | file f' =>
    have hblurred : f'.blurred = f.blurred := by simpa [Node.blurred] using hb
    refine ⟨f', hn, ?_, ?_⟩
    · rw [← File.mode_blurred, hblurred, File.mode_blurred]
    · rw [← File.isSome_text?_blurred, hblurred, File.isSome_text?_blurred]
  | _ => cases hb

/-- All that is not a file is the same on both. -/
theorem node?_of_not_file (h : SameButTexts d d') {p : Place} (hf : ∀ f, d.node? p ≠ some (.file f)) :
    d'.node? p = d.node? p := by
  have hp := h.nodes p
  cases hn : d.node? p with
  | none => simpa [hn] using hp.symm
  | some n =>
    rw [hn, Option.map_some, eq_comm, Option.map_eq_some_iff] at hp
    obtain ⟨n', hn', hb⟩ := hp
    rw [hn']
    cases n with
    | file f => exact absurd hn (hf f)
    | _ => cases n' <;> simp_all [Node.blurred]

theorem leadsToText (h : SameButTexts d d') {path text : String} {p : Place} {f : File}
    (hl : d.LeadsToText path p f text) :
    ∃ f' text', d'.LeadsToText path p f' text' ∧ f'.mode = f.mode := by
  obtain ⟨f', hf', hmode, ht⟩ := h.exists_file hl.isFile
  rw [hl.isText, Option.isSome_some] at ht
  obtain ⟨text', ht'⟩ := Option.isSome_iff_exists.1 ht
  refine ⟨f', text', ⟨h.sameShape.resolve path ▸ hl.resolves, hf', ?_, ht'⟩, hmode⟩
  rw [← h.caller, hmode]
  exact hl.mayRead

/-- Reading fails for the same cause: no cause lies in the words of a text. -/
theorem readText_error (h : SameButTexts d d') {path : String} {e : IoError}
    (he : d.readText path = .error e) : d'.readText path = .error e := by
  have hr := h.sameShape.resolve path
  cases hp : d.resolve path with
  | error cause =>
    rw [readText_of_resolve_error hp] at he
    rwa [readText_of_resolve_error (hr ▸ hp)]
  | ok p =>
    rw [readText_of_resolve_ok hp] at he
    rw [readText_of_resolve_ok (hr ▸ hp)]
    by_cases hfile : ∃ f, d.node? p = some (.file f)
    · obtain ⟨f, hf⟩ := hfile
      obtain ⟨f', hf', hmode, ht⟩ := h.exists_file hf
      simp only [textAt, hf, hf', hmode, h.caller] at he ⊢
      split
      · next hm =>
        rw [if_pos hm] at he
        cases hn : f.text? with
        | some text => simp [hn] at he
        | none =>
          have hn' : f'.text? = none := by simpa [hn] using ht
          simpa [hn, hn'] using he
      · next hm => rwa [if_neg hm] at he
    · rw [textAt, h.node?_of_not_file fun f hf => hfile ⟨f, hf⟩, ← h.caller]
      exact he

theorem refusal? (h : SameButTexts d d') (path : String) {f f' : File} (hmode : f'.mode = f.mode) :
    d'.refusal? path f' = d.refusal? path f := by
  have hro : f'.isReadOnly = f.isReadOnly := by rw [File.isReadOnly, hmode, File.isReadOnly]
  simp only [Disk.refusal?, ← h.sameShape.canonicalize, hro, ← h.sameShape.obstacleIn?]

theorem process_error (h : SameButTexts d d') {path : String} {e : FileError}
    (he : (d.process path).1 = .error e) : (d'.process path).1 = .error e := by
  by_cases hl : ∃ p f text, d.LeadsToText path p f text
  · obtain ⟨p, f, text, hl⟩ := hl
    obtain ⟨f', text', hl', hm⟩ := h.leadsToText hl
    cases hr : d.refusal? path f with
    | none =>
      rw [process_of_not_refused hl hr] at he
      cases he
    | some cause =>
      rw [process_of_refused hl hr] at he
      rw [process_of_refused hl' (h.refusal? path hm ▸ hr)]
      exact he
  · cases ht : d.readText path with
    | error cause =>
      simp only [process, ht] at he
      simpa only [process, h.readText_error ht] using he
    | ok text =>
      obtain ⟨p, f, hl'⟩ := readText_eq_ok_iff.1 ht
      exact absurd ⟨p, f, text, hl'⟩ hl

theorem exists_process_ok_iff (h : SameButTexts d d') (path : String) :
    (∃ r, (d.process path).1 = .ok r) ↔ ∃ r, (d'.process path).1 = .ok r := by
  cases hd : (d.process path).1 with
  | error e => simp [h.process_error hd]
  | ok r =>
    cases hd' : (d'.process path).1 with
    | error e => simp [h.symm.process_error hd'] at hd
    | ok r' => simp

end SameButTexts

theorem sameButTexts_process (d : Disk) (path : String) : SameButTexts d (d.process path).2 := by
  cases hr : (d.process path).1 with
  | error e => rw [process_error hr]; exact .refl d
  | ok r =>
    obtain ⟨p, f, text, hl, -, hd⟩ := process_ok hr
    have hp := ne_nil_of_fileAt? (node?_eq_file_iff.1 hl.isFile)
    refine ⟨(sameShape_process d path).caller, fun q => ?_⟩
    rw [hd, node?_insertFile d hp]
    by_cases hq : q = p
    · rw [if_pos hq, hq, hl.isFile]
      simp only [Option.map_some, Node.blurred, File.blurred_of_text hl.isText,
        File.blurred_of_text (File.text?_toUTF8 f.mode (stripComments text))]
    · rw [if_neg hq]

theorem sameButTexts_processAll (d : Disk) (files : List String) :
    SameButTexts d (d.processAll files).2 := by
  induction files generalizing d with
  | nil => exact .refl d
  | cons path files ih => exact (sameButTexts_process d path).trans (ih _)

/-- A path leads to a text that has been stripped. -/
def LeadsToStripped (d : Disk) (path : String) : Prop :=
  ∃ p f text, d.LeadsToText path p f (stripComments text)

/-- Once stripped, a text stays so, whatever else is stripped. -/
theorem LeadsToStripped.process {d : Disk} {path : String} (h : d.LeadsToStripped path)
    (other : String) : (d.process other).2.LeadsToStripped path := by
  cases hr : (d.process other).1 with
  | error e => rwa [process_error hr]
  | ok r =>
    obtain ⟨p, f, text, hl⟩ := h
    have hres := (sameShape_process d other).resolve path ▸ hl.resolves
    have hcaller := (sameShape_process d other).caller
    obtain ⟨p', f', text', hl', -, hd⟩ := process_ok hr
    have hp := ne_nil_of_fileAt? (node?_eq_file_iff.1 hl'.isFile)
    have hnode := node?_insertFile d hp { f' with bytes := (stripComments text').toUTF8 } p
    rw [← hd] at hnode
    by_cases hq : p = p'
    · rw [if_pos hq] at hnode
      exact ⟨p, _, text', hres, hnode, hcaller ▸ hl'.mayRead, File.text?_toUTF8 f'.mode _⟩
    · rw [if_neg hq] at hnode
      exact ⟨p, f, text, hres, hnode ▸ hl.isFile, hcaller ▸ hl.mayRead, hl.isText⟩

theorem LeadsToStripped.processAll {d : Disk} {path : String} (h : d.LeadsToStripped path)
    (files : List String) : (d.processAll files).2.LeadsToStripped path := by
  induction files generalizing d with
  | nil => exact h
  | cons other files ih => exact ih (h.process other)

end Disk

namespace Report

variable (dir : String)

end Report

namespace Disk

variable (dir : String)

/-- Runs over disks that differ in the words of texts only fail on the same files, for the same causes. -/
theorem SameButTexts.failures {d d' : Disk} (h : SameButTexts d d') (files : List String) :
    (Report.ofAttempts dir (d.processAll files).1).failures =
      (Report.ofAttempts dir (d'.processAll files).1).failures := by
  induction files generalizing d d' with
  | nil => rfl
  | cons path files ih =>
    have hnext : SameButTexts (d.process path).2 (d'.process path).2 :=
      (sameButTexts_process d path).symm.trans (h.trans (sameButTexts_process d' path))
    have hrest := ih hnext
    simp only [Report.ofAttempts, processAll] at hrest ⊢
    cases hr : (d.process path).1 with
    | error e => simp [h.process_error hr, hrest]
    | ok r =>
      obtain ⟨r', hr'⟩ := (h.exists_process_ok_iff path).1 ⟨r, hr⟩
      simp [hr', hrest]

end Disk

theorem runIn_outcome {d : Disk} {dir : String} (h : d.pathExists dir = true) (c : Config) :
    (runIn d dir c).outcome = .ok (.ofAttempts dir (d.processAll (filesBelow d dir c)).1) := by
  simp only [runIn, h, if_true]
  rfl

namespace Threefold

end Threefold

end CommentStrip
