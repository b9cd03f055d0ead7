import CommentStrip.Disk.Lookup
import Mathlib.Data.List.Basic

/-! What can be seen of a disk, place by place, and what a new file changes of it. -/
namespace CommentStrip

/-- What is seen at a place. Hard links to one file look alike. -/
inductive Node where
  | directory (mode : Nat)
  | link (target : String)
  | file (content : File)
  | special (cause : IoError)

namespace Disk

/-- The node that an entry shows. -/
def view (d : Disk) : Entry → Node
  | .directory mode => .directory mode
  | .link target => .link target
  | .file n => .file (d.files n)
  | .special cause => .special cause

def node? (d : Disk) (p : Place) : Option Node := d.entry? p |>.map d.view

private theorem entry?_root (d : Disk) : d.entry? [] = some (.directory d.rootMode) := rfl

theorem entry?_of_ne_nil (d : Disk) {p : Place} (h : p ≠ []) : d.entry? p = d.entries.lookup p :=
  if_neg h

theorem mem_entries_of_entry?_eq_some {d : Disk} {p : Place} {e : Entry} (hp : p ≠ [])
    (h : d.entry? p = some e) : (p, e) ∈ d.entries := by
  rw [entry?_of_ne_nil d hp] at h
  obtain ⟨before, after, he, -⟩ := List.lookup_eq_some_iff.1 h
  simp [he]

theorem node?_eq_file_iff {d : Disk} {p : Place} {f : File} :
    d.node? p = some (.file f) ↔ d.fileAt? p = some f := by
  cases he : d.entry? p with
  | none => simp [node?, fileAt?, he]
  | some e => cases e <;> simp [node?, fileAt?, he, view]

/-- No file stands at the root. -/
theorem ne_nil_of_fileAt? {d : Disk} {p : Place} {f : File} (h : d.fileAt? p = some f) : p ≠ [] := by
  rintro rfl
  simp [fileAt?, entry?_root] at h

private theorem lookup_filter_ne {α β : Type} [DecidableEq α] [BEq α] [LawfulBEq α] {a b : α}
    (h : a ≠ b) (pairs : List (α × β)) : (pairs.filter (·.1 ≠ b)).lookup a = pairs.lookup a := by
  induction pairs with
  | nil => rfl
  | cons pair pairs ih =>
    obtain ⟨k, v⟩ := pair
    by_cases hk : k = b
    · have ha : (a == k) = false := by simpa [hk] using h
      rw [List.filter_cons_of_neg (by simp [hk]), List.lookup_cons, ha, ih]
    · rw [List.filter_cons_of_pos (by simp [hk]), List.lookup_cons, List.lookup_cons, ih]

theorem entry?_insert (d : Disk) {p : Place} (hp : p ≠ []) (e : Entry) (q : Place) :
    Disk.entry? (d.insert p e) q = if q = p then some e else d.entry? q := by
  by_cases hq : q = []
  · subst hq
    rw [entry?_root, entry?_root, if_neg (Ne.symm hp)]
    rfl
  · rw [entry?_of_ne_nil _ hq, entry?_of_ne_nil _ hq, insert, List.lookup_append]
    by_cases hqp : q = p
    · have hn : (d.entries.filter (·.1 ≠ p)).lookup p = none := by
        rw [List.lookup_eq_none_iff]
        intro pair hm
        have hne : pair.1 ≠ p := by simpa using (List.mem_filter.1 hm).2
        simpa using hne.symm
      rw [if_pos hqp, hqp, hn]
      simp
    · have hb : (q == p) = false := by simpa using hqp
      rw [if_neg hqp, lookup_filter_ne hqp, List.lookup_cons, hb, List.lookup_nil, Option.or_none]

private theorem files_setFile (d : Disk) (n : Nat) (f : File) (k : Nat) :
    (d.setFile n f).files k = if k = n then f else d.files k := rfl

private theorem le_foldl_max {ns : List Nat} {n start : Nat} (h : n ≤ start ∨ n ∈ ns) :
    n ≤ ns.foldl max start := by
  induction ns generalizing start with
  | nil => simpa using h
  | cons m ns ih =>
    apply ih
    rcases h with h | h
    · exact .inl (Nat.le_trans h (Nat.le_max_left ..))
    · rcases List.mem_cons.1 h with rfl | h
      · exact .inl (Nat.le_max_right ..)
      · exact .inr h

/-- No entry has a fresh number. -/
theorem ne_freshNumber {d : Disk} {p : Place} {n : Nat} (h : d.entry? p = some (.file n)) :
    n ≠ d.freshNumber := by
  have hp : p ≠ [] := by
    rintro rfl
    simp [entry?_root] at h
  have hm := mem_entries_of_entry?_eq_some hp h
  refine Nat.ne_of_lt (Nat.lt_succ_of_le (le_foldl_max (.inr ?_)))
  exact List.mem_filterMap.2 ⟨_, hm, rfl⟩

private theorem entry?_insertFile (d : Disk) {p : Place} (hp : p ≠ []) (f : File) (q : Place) :
    Disk.entry? (d.insertFile p f) q = if q = p then some (.file d.freshNumber) else d.entry? q :=
  entry?_insert d hp (.file d.freshNumber) q

/-- A new file is seen where it was put, and nothing else changes to the eye. -/
theorem node?_insertFile (d : Disk) {p : Place} (hp : p ≠ []) (f : File) (q : Place) :
    (d.insertFile p f).node? q = if q = p then some (.file f) else d.node? q := by
  rw [node?, entry?_insertFile d hp]
  by_cases hq : q = p
  · simp [hq, view, insertFile, files_setFile]
  · rw [if_neg hq, if_neg hq, node?]
    cases he : d.entry? q with
    | none => rfl
    | some e =>
      cases e with
      | file n =>
        have hl : (d.insertFile p f).files n = d.files n := by
          rw [insertFile, files_setFile, if_neg (ne_freshNumber he)]
          rfl
        simp [view, hl]
      | _ => rfl

/-- An entry but for the number of its file. -/
def shape : Entry → Entry
  | .file _ => .file 0
  | e => e

def shape? (d : Disk) (p : Place) : Option Entry := d.entry? p |>.map shape

/-- Two disks with the same places, directories and links, used by the same program. -/
structure SameShape (d d' : Disk) : Prop where
  caller : d.toCaller = d'.toCaller
  entries : ∀ p, d.shape? p = d'.shape? p

namespace SameShape

variable {d d' : Disk}

theorem refl (d : Disk) : SameShape d d := ⟨rfl, fun _ => rfl⟩

theorem symm (h : SameShape d d') : SameShape d' d := ⟨h.caller.symm, fun p => (h.entries p).symm⟩

private theorem entry?_eq_none (h : SameShape d d') {p : Place} (he : d.entry? p = none) :
    d'.entry? p = none := by
  have hp := h.entries p
  simpa [shape?, he] using hp.symm

private theorem entry?_eq_link (h : SameShape d d') {p : Place} {target : String}
    (he : d.entry? p = some (.link target)) : d'.entry? p = some (.link target) := by
  have hp := h.entries p
  rcases he' : d'.entry? p with _ | _ | _ | _ | _ <;> simp_all [shape?, shape]

private theorem entry?_ne_link (h : SameShape d d') {p : Place} {e : Entry} (he : d.entry? p = some e)
    (hl : ∀ target, e = .link target → False) :
    ∃ e', d'.entry? p = some e' ∧ ∀ target, e' = .link target → False := by
  have hp := h.entries p
  rcases he' : d'.entry? p with _ | _ | _ | _ | _ <;> cases e <;> simp_all [shape?, shape]

theorem isDirectoryAt (h : SameShape d d') (p : Place) : d.isDirectoryAt p = d'.isDirectoryAt p := by
  have hp := h.entries p
  unfold Disk.isDirectoryAt
  rcases he : d.entry? p with _ | _ | _ | _ | _ <;> rcases he' : d'.entry? p with _ | _ | _ | _ | _ <;>
    simp_all [shape?, shape]

theorem isLinkAt (h : SameShape d d') (p : Place) : d.isLinkAt p = d'.isLinkAt p := by
  have hp := h.entries p
  unfold Disk.isLinkAt
  rcases he : d.entry? p with _ | _ | _ | _ | _ <;> rcases he' : d'.entry? p with _ | _ | _ | _ | _ <;>
    simp_all [shape?, shape]

theorem allows (h : SameShape d d') (a : Access) (p : Place) : d.allows a p = d'.allows a p := by
  have hp := h.entries p
  unfold Disk.allows
  rw [h.caller]
  rcases he : d.entry? p with _ | _ | _ | _ | _ <;> rcases he' : d'.entry? p with _ | _ | _ | _ | _ <;>
    simp_all [shape?, shape]

theorem canChange (h : SameShape d d') (p : Place) : d.canChange p = d'.canChange p := by
  rw [Disk.canChange, h.allows, h.allows, Disk.canChange]

/-- A path takes the same way on both: only directories and links lead on. -/
theorem trace (h : SameShape d d') (through : Bool) (links : Nat) (here : Place) (steps : List String) :
    d.trace through links here steps = d'.trace through links here steps := by
  have hd := h.isDirectoryAt
  have ha := h.allows .search
  fun_induction Disk.trace d through links here steps with
  | case1 => rw [Disk.trace]
  | case2 links here step rest hh => rw [Disk.trace, ← hd, if_pos hh]
  | case3 links here rest hh ih => rw [Disk.trace, ← hd, if_neg hh, if_pos rfl, ih]
  | case4 links here step rest hh hstay hs =>
    rw [Disk.trace, ← hd, ← ha, if_neg hh, if_neg hstay, if_pos hs]
  | case5 links here rest hh hstay hs ih =>
    rw [Disk.trace, ← hd, ← ha, if_neg hh, if_neg hstay, if_neg hs, if_pos rfl, ih]
  | case6 links here rest hh hstay hs hdot ih =>
    rw [Disk.trace, ← hd, ← ha, if_neg hh, if_neg hstay, if_neg hs, if_neg hdot, if_pos rfl, ih]
  | case7 links here step rest hh hstay hs hdot hup hlong =>
    rw [Disk.trace, ← hd, ← ha, if_neg hh, if_neg hstay, if_neg hs, if_neg hdot, if_neg hup, if_pos hlong]
  | case8 links here step rest hh hstay hs hdot hup hlong hn =>
    rw [Disk.trace, ← hd, ← ha, if_neg hh, if_neg hstay, if_neg hs, if_neg hdot, if_neg hup, if_neg hlong, hn]
  | case9 links here step rest hh hstay hs hdot hup hlong name hn he hr =>
    rw [Disk.trace, ← hd, ← ha, if_neg hh, if_neg hstay, if_neg hs, if_neg hdot, if_neg hup, if_neg hlong, hn]
    simp only [h.entry?_eq_none he, hr, if_true]
  | case10 links here step rest hh hstay hs hdot hup hlong name hn he hr =>
    rw [Disk.trace, ← hd, ← ha, if_neg hh, if_neg hstay, if_neg hs, if_neg hdot, if_neg hup, if_neg hlong, hn]
    simp only [h.entry?_eq_none he, hr]
    rfl
  | case11 links here step rest hh hstay hs hdot hup hlong name hn target he hr =>
    rw [Disk.trace, ← hd, ← ha, if_neg hh, if_neg hstay, if_neg hs, if_neg hdot, if_neg hup, if_neg hlong, hn]
    simp only [h.entry?_eq_link he, hr, if_true]
  | case12 here step rest hh hstay hs hdot hup hlong name hn target he hr =>
    rw [Disk.trace, ← hd, ← ha, if_neg hh, if_neg hstay, if_neg hs, if_neg hdot, if_neg hup, if_neg hlong, hn]
    simp only [h.entry?_eq_link he, hr]
    rfl
  | case13 here step rest hh hstay hs hdot hup hlong name hn target he hr links start ih =>
    rw [Disk.trace, ← hd, ← ha, if_neg hh, if_neg hstay, if_neg hs, if_neg hdot, if_neg hup, if_neg hlong, hn]
    simp only [h.entry?_eq_link he, hr]
    exact ih
  | case14 links here step rest hh hstay hs hdot hup hlong name hn e hl he ih =>
    obtain ⟨e', he', hl'⟩ := h.entry?_ne_link he hl
    rw [Disk.trace, ← hd, ← ha, if_neg hh, if_neg hstay, if_neg hs, if_neg hdot, if_neg hup, if_neg hlong, hn,
      ih]
    cases e' with
    | link target => exact (hl' target rfl).elim
    | _ => simp only [he']

theorem start (h : SameShape d d') (path : String) : d.start path = d'.start path := by
  rw [Disk.start, Disk.start, h.caller]

theorem locate (h : SameShape d d') (through : Bool) (path : String) :
    d.locate through path = d'.locate through path := by
  simp only [Disk.locate, h.start, h.trace]

theorem resolve (h : SameShape d d') (path : String) : d.resolve path = d'.resolve path := by
  rw [Disk.resolve, h.locate, Disk.resolve]

theorem realFrom (h : SameShape d d') (links : Nat) (here : Place) (steps : List String) :
    d.realFrom links here steps = d'.realFrom links here steps := by
  have hprobe (p : Place) (rest : List String) : d.probe p rest = d'.probe p rest := by
    rw [Disk.probe, h.isLinkAt, Disk.probe]
  have hlocate (path : String) : d.locate false path = d'.locate false path := h.locate false path
  fun_induction Disk.realFrom d links here steps with
  | case1 => rw [Disk.realFrom]
  | case2 links here step rest hstay ih => rw [Disk.realFrom, if_pos hstay, ih]
  | case3 links here rest hstay ih => rw [Disk.realFrom, if_neg hstay, if_pos rfl, ih]
  | case4 links here step rest hstay hup hlong =>
    rw [Disk.realFrom, if_neg hstay, if_neg hup, if_pos hlong]
  | case5 links here step rest hstay hup hlong hn =>
    rw [Disk.realFrom, if_neg hstay, if_neg hup, if_neg hlong, hn]
  | case6 links here step rest hstay hup hlong name hn e hp =>
    rw [hprobe, hlocate] at hp
    rw [Disk.realFrom, if_neg hstay, if_neg hup, if_neg hlong, hn]
    simp only [hp]
  | case7 here step rest hstay hup hlong name hn p hp target he =>
    rw [hprobe, hlocate] at hp
    rw [Disk.realFrom, if_neg hstay, if_neg hup, if_neg hlong, hn]
    simp only [hp, h.entry?_eq_link he]
  | case8 here step rest hstay hup hlong name hn p hp target he links start ih =>
    rw [hprobe, hlocate] at hp
    rw [Disk.realFrom, if_neg hstay, if_neg hup, if_neg hlong, hn]
    simp only [hp, h.entry?_eq_link he]
    exact ih
  | case9 links here step rest hstay hup hlong name hn p hp hl ih =>
    rw [hprobe, hlocate] at hp
    rw [Disk.realFrom, if_neg hstay, if_neg hup, if_neg hlong, hn, ih]
    simp only [hp]
    split
    · next target he => exact (hl target (h.symm.entry?_eq_link he)).elim
    · rfl

theorem canonicalize (h : SameShape d d') (path : String) : d.canonicalize path = d'.canonicalize path := by
  simp only [Disk.canonicalize, h.start, h.realFrom]

end SameShape

/-- A file in place of a file leads no path elsewhere. -/
theorem sameShape_insertFile {d : Disk} {p : Place} {old : File} (h : d.fileAt? p = some old) (f : File) :
    SameShape d (d.insertFile p f) := by
  refine ⟨rfl, fun q => ?_⟩
  rw [shape?, shape?, entry?_insertFile d (ne_nil_of_fileAt? h)]
  by_cases hq : q = p
  · rcases he : d.entry? p with _ | _ | _ | _ | _ <;> simp_all [fileAt?, shape]
  · rw [if_neg hq]

end Disk

end CommentStrip
