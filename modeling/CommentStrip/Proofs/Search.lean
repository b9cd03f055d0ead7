import CommentStrip.Proofs.Leads
import Mathlib.Tactic.Choose

/-! What a walk finds: by which names it comes to each file, and in which order. -/
namespace CommentStrip

/-- The order of two ways: the first names that differ decide. -/
def Name.Before : List Name → List Name → Prop := List.Lex fun a b => Text.isBefore a.text b.text = true

namespace Name

private theorem before_asymm {ns ns' : List Name} (h : Before ns ns') : ¬ Before ns' ns := by
  refine List.lex_asymm (fun {a b} hab hba => ?_) h
  rw [Text.isBefore_asymm hab] at hba
  cases hba

section Sorted

variable {ways ways' : List (List Name)} (h : ways.Pairwise Before)

include h

private theorem nodup_of_before : ways.Nodup := by
  refine h.imp fun {ns ns'} hb heq => ?_
  rw [heq] at hb
  exact before_asymm hb hb

/-- There is one order for the same ways. -/
theorem eq_of_before (h' : ways'.Pairwise Before) (hmem : ∀ ns, ns ∈ ways ↔ ns ∈ ways') :
    ways = ways' := by
  have hperm := (List.perm_ext_iff_of_nodup (nodup_of_before h) (nodup_of_before h')).2 hmem
  exact hperm.eq_of_pairwise (fun ns ns' _ _ hb hb' => absurd hb' (before_asymm hb)) h h'

end Sorted

end Name

namespace Disk

/-- At a place there is a file, or a link whose path leads to no directory. -/
def IsFileAt (d : Disk) (path : String) (p : Place) : Prop :=
  match d.entry? p with
  | some (.file _) => True
  | some (.link _) => ∀ q, d.resolve path = .ok q → d.isDirectoryAt q = false
  | _ => False

/-- By these names a walk comes to a file that counts: through directories that can be searched and read, and
whose paths can be written. -/
inductive Found (d : Disk) (wanted : String → Bool) : Visit → List Name → Prop where
  | file {here : Visit} {name : Name}
      (hf : d.IsFileAt (Path.join here.path name.text) (here.place ++ [name]))
      (hw : wanted name.text = true) :
    Found d wanted here [name]
  | inside {here : Visit} {name : Name} {ns : List Name} (hsearch : d.allows .search here.place = true)
      (hread : d.allows .read (here.place ++ [name]) = true)
      (hfits : Path.isTooLong (Path.join here.path name.text) = false)
      (h : Found d wanted ⟨Path.join here.path name.text, here.place ++ [name]⟩ ns) :
    Found d wanted here (name :: ns)

section Found

variable {d : Disk}

theorem isFileAt_of_node? {path : String} {p : Place} {f : File}
    (h : d.node? p = some (.file f)) : d.IsFileAt path p := by
  cases he : d.entry? p with
  | none => simp [node?, he] at h
  | some e => cases e <;> simp_all [node?, view, IsFileAt]

theorem exists_node?_of_isFileAt {path : String} {p : Place} (h : d.IsFileAt path p) :
    ∃ n, d.node? p = some n ∧ ∀ mode, n ≠ .directory mode := by
  cases he : d.entry? p with
  | none => simp [IsFileAt, he] at h
  | some e => cases e <;> simp_all [node?, view, IsFileAt]

end Found

/-- An entry is a file to a walk: one itself, or a link that does not lead to a directory. If links are
followed, it must lead somewhere. -/
def IsFileFor (d : Disk) (follow : Bool) (path : String) : Entry → Prop
  | .file _ => True
  | .link _ => (∀ q, d.resolve path = .ok q → d.isDirectoryAt q = false) ∧
      (follow = true → ∃ q, d.resolve path = .ok q)
  | _ => False

/-- The directory that a walk enters by an entry of the directory `here`, if it can be read: the one that stands
there, or the one that a link leads to, if links are followed and the walk is not in it. -/
inductive Enters (d : Disk) (follow : Bool) (above : List Visit) (here : Visit) (name : Name) :
    Entry → Visit → Prop where
  | directory {mode : Nat} (hsearch : d.allows .search here.place = true) (hread : d.may .read mode = true)
      (hfits : Path.isTooLong (Path.join here.path name.text) = false) :
    Enters d follow above here name (.directory mode) ⟨Path.join here.path name.text, here.place ++ [name]⟩
  | link {target : String} {q : Place} (hfollow : follow = true)
      (hr : d.resolve (Path.join here.path name.text) = .ok q) (hread : d.allows .read q = true)
      (hnew : ∀ v ∈ here :: above, v.place ≠ q) :
    Enters d follow above here name (.link target) ⟨Path.join here.path name.text, q⟩

/-- By these names a walk that is in `here`, and in the directories `above`, comes to a file that counts. -/
inductive Listed (d : Disk) (follow : Bool) (wanted : String → Bool) :
    List Visit → Visit → List Name → Prop where
  | file {above : List Visit} {here : Visit} {name : Name} {e : Entry}
      (he : d.entry? (here.place ++ [name]) = some e)
      (hf : d.IsFileFor follow (Path.join here.path name.text) e) (hw : wanted name.text = true) :
    Listed d follow wanted above here [name]
  | inside {above : List Visit} {here next : Visit} {name : Name} {e : Entry} {ns : List Name}
      (he : d.entry? (here.place ++ [name]) = some e) (hnext : d.Enters follow above here name e next)
      (h : Listed d follow wanted (here :: above) next ns) :
    Listed d follow wanted above here (name :: ns)

section Meet

variable {d : Disk} {follow : Bool} {wanted : String → Bool} {above : List Visit} {here next : Visit}
  {name : Name} {e : Entry}

theorem Enters.path_eq (h : d.Enters follow above here name e next) :
    next.path = Path.join here.path name.text := by
  cases h <;> rfl

private theorem Enters.not_isFileFor (h : d.Enters follow above here name e next) :
    ¬ d.IsFileFor follow (Path.join here.path name.text) e := by
  cases h with
  | directory hsearch hread hfits => exact id
  | link hfollow hr hread hnew =>
    rintro ⟨hno, -⟩
    have hd := isDirectoryAt_of_allows hread
    rw [hno _ hr] at hd
    cases hd

private theorem Enters.meet_eq (h : d.Enters follow above here name e next) (wanted : String → Bool) :
    d.meet follow wanted above here name e = .enter next := by
  cases h with
  | directory hsearch hread hfits => simp [meet, meetDirectory, hsearch, hread, hfits]
  | @link target q hfollow hr hread hnew =>
    have hfind : (here :: above).find? (·.place == q) = none := by
      rw [List.find?_eq_none]
      intro v hv
      simpa using hnew v hv
    simp [meet, meetLink, hr, isDirectoryAt_of_allows hread, hread, hfollow, hfind]

private theorem IsFileFor.meet_eq (h : d.IsFileFor follow (Path.join here.path name.text) e) :
    d.meet follow wanted above here name e = meetFile wanted (Path.join here.path name.text) name.text := by
  cases e with
  | directory mode => exact h.elim
  | special cause => exact h.elim
  | file n => rfl
  | link target =>
    obtain ⟨hno, hsome⟩ := h
    simp only [meet, meetLink]
    cases hr : d.resolve (Path.join here.path name.text) with
    | ok q => simp [hno q hr]
    | error cause =>
      have hfollow : follow = false := by
        by_contra hf
        obtain ⟨q, hq⟩ := hsome (by simpa using hf)
        rw [hr] at hq
        cases hq
      simp [hfollow]

/-- At an entry that is neither a file nor to be entered a walk finds nothing but obstacles. -/
theorem exists_meet_eq_report (wanted : String → Bool)
    (hf : ¬ d.IsFileFor follow (Path.join here.path name.text) e)
    (hnext : ∀ next, ¬ d.Enters follow above here name e next) :
    ∃ findings, d.meet follow wanted above here name e = .report findings ∧
      findings.filterMap Finding.file? = [] := by
  cases e with
  | file n => exact absurd trivial hf
  | special cause => exact ⟨[], rfl, rfl⟩
  | directory mode =>
    simp only [meet, meetDirectory]
    split
    · exact ⟨_, rfl, rfl⟩
    · next hlong =>
      split
      · next hopen =>
        obtain ⟨hsearch, hread⟩ := Bool.and_eq_true_iff.1 hopen
        exact absurd (.directory hsearch hread (by simpa using hlong)) (hnext _)
      · exact ⟨_, rfl, rfl⟩
  | link target =>
    simp only [meet, meetLink]
    cases hr : d.resolve (Path.join here.path name.text) with
    | error cause =>
      have hfollow : follow = true := by
        by_contra hn
        refine hf ⟨fun q hq => ?_, fun h => absurd h hn⟩
        rw [hr] at hq
        cases hq
      exact ⟨[.unreadable (some (Path.join here.path name.text)) cause], by simp only [hfollow, if_true], rfl⟩
    | ok q =>
      have hd : d.isDirectoryAt q = true := by
        by_contra hn
        refine hf ⟨fun q' hq' => ?_, fun _ => ⟨q, hr⟩⟩
        rw [hr] at hq'
        cases hq'
        simpa using hn
      cases follow with
      | false => exact ⟨[], by simp [hd], rfl⟩
      | true =>
        cases hread : d.allows .read q with
        | false => exact ⟨[.unreadable none .permissionDenied], by simp [hd, hread], rfl⟩
        | true =>
          cases hfind : (here :: above).find? (·.place == q) with
          | some ancestor =>
            exact ⟨[.loop (Path.join here.path name.text) ancestor.path], by simp [hd, hread, hfind], rfl⟩
          | none =>
            refine absurd (.link rfl hr hread fun v hv => ?_) (hnext ⟨_, q⟩)
            simpa using List.find?_eq_none.1 hfind v hv

theorem Listed.exists_entry {ns : List Name} (h : d.Listed follow wanted above here ns) :
    ∃ name tail e, ns = name :: tail ∧ d.entry? (here.place ++ [name]) = some e := by
  cases h with
  | file he hf hw => exact ⟨_, _, _, rfl, he⟩
  | inside he hnext h => exact ⟨_, _, _, rfl, he⟩

private theorem listed_cons_iff {ns : List Name} (he : d.entry? (here.place ++ [name]) = some e) :
    d.Listed follow wanted above here (name :: ns) ↔
      (ns = [] ∧ d.IsFileFor follow (Path.join here.path name.text) e ∧ wanted name.text = true) ∨
      ∃ next, d.Enters follow above here name e next ∧ d.Listed follow wanted (here :: above) next ns := by
  constructor
  · rintro (⟨he', hf, hw⟩ | ⟨he', hnext, h⟩)
    · cases he.symm.trans he'
      exact .inl ⟨rfl, hf, hw⟩
    · cases he.symm.trans he'
      exact .inr ⟨_, hnext, h⟩
  · rintro (⟨rfl, hf, hw⟩ | ⟨next, hnext, h⟩)
    · exact .file he hf hw
    · exact .inside he hnext h

theorem isFileAt_iff {path : String} {p : Place} :
    d.IsFileAt path p ↔ ∃ e, d.entry? p = some e ∧ d.IsFileFor false path e := by
  cases he : d.entry? p with
  | none => simp [IsFileAt, he]
  | some e => cases e <;> simp [IsFileAt, IsFileFor, he]

/-- Without following links it does not matter in which directories a walk is. -/
theorem listed_iff_found {ns : List Name} : d.Listed false wanted above here ns ↔ d.Found wanted here ns := by
  constructor
  · intro h
    induction h with
    | file he hf hw => exact .file (isFileAt_iff.2 ⟨_, he, hf⟩) hw
    | inside he hnext h ih =>
      cases hnext with
      | directory hsearch hread hfits =>
        exact .inside hsearch (allows_iff.2 ⟨_, node?_eq_directory_iff.2 he, hread⟩) hfits ih
      | link hfollow hr hread hnew => cases hfollow
  · intro h
    induction h generalizing above with
    | file hf hw =>
      obtain ⟨e, he, hf⟩ := isFileAt_iff.1 hf
      exact .file he hf hw
    | inside hsearch hread hfits h ih =>
      obtain ⟨mode, hn, hmay⟩ := allows_iff.1 hread
      exact .inside (node?_eq_directory_iff.1 hn) (.directory hsearch hmay hfits) ih

end Meet

/-- What a walk finds at one entry and below it. -/
def findingsAt (d : Disk) (follow : Bool) (wanted : String → Bool) (above : List Visit) (here : Visit)
    (child : Name × Entry) : List Finding :=
  match d.meet follow wanted above here child.1 child.2 with
  | .report findings => findings
  | .enter next => d.walkFrom follow wanted (here :: above) next

private theorem walkFrom_eq_flatMap (d : Disk) (follow : Bool) (wanted : String → Bool) (above : List Visit)
    (here : Visit) :
    d.walkFrom follow wanted above here =
      (d.children here.place).flatMap (d.findingsAt follow wanted above here) :=
  walkFrom_eq d follow wanted above here

/-- The files among some findings as the ways to them from a directory, in order and each of them once. -/
structure Lists (findings : List Finding) (base : String) (ways : List (List Name))
    (P : List Name → Prop) : Prop where
  files_eq : findings.filterMap Finding.file? = ways.map (Path.below base)
  sorted : ways.Pairwise Name.Before
  mem_iff : ∀ ns, ns ∈ ways ↔ P ns

section Lists

variable {d : Disk} {follow : Bool} {wanted : String → Bool} {above : List Visit} {here : Visit}

theorem Lists.nodup {findings : List Finding} {base : String} {ways : List (List Name)}
    {P : List Name → Prop} (h : Lists findings base ways P) : ways.Nodup :=
  Name.nodup_of_before h.sorted

/-- One entry, if what is below it is known. -/
theorem exists_lists_findingsAt {child : Name × Entry} (hm : child ∈ d.children here.place)
    (ih : ∀ next, d.meet follow wanted above here child.1 child.2 = .enter next →
      ∃ ways, Lists (d.walkFrom follow wanted (here :: above) next) next.path ways
        (d.Listed follow wanted (here :: above) next)) :
    ∃ tails, Lists (d.findingsAt follow wanted above here child) (Path.join here.path child.1.text) tails
      fun ns => d.Listed follow wanted above here (child.1 :: ns) := by
  obtain ⟨name, e⟩ := child
  have he : d.entry? (here.place ++ [name]) = some e := (mem_entries_iff (by simp)).1 (mem_children.1 hm)
  by_cases hf : d.IsFileFor follow (Path.join here.path name.text) e
  · have hlisted (ns) : d.Listed follow wanted above here (name :: ns) ↔
        ns = [] ∧ wanted name.text = true := by
      rw [listed_cons_iff he]
      constructor
      · rintro (⟨hns, -, hw⟩ | ⟨next, hnext, -⟩)
        · exact ⟨hns, hw⟩
        · exact absurd hf hnext.not_isFileFor
      · rintro ⟨hns, hw⟩
        exact .inl ⟨hns, hf, hw⟩
    refine ⟨if wanted name.text then [[]] else [], ?_, ?_, fun ns => ?_⟩
    · simp only [findingsAt, hf.meet_eq, meetFile]
      split <;> rfl
    · split <;> simp
    · rw [hlisted]
      split <;> simp_all
  · by_cases hex : ∃ next, d.Enters follow above here name e next
    · obtain ⟨next, hnext⟩ := hex
      obtain ⟨ways, hways⟩ := ih next (hnext.meet_eq wanted)
      refine ⟨ways, ?_, hways.sorted, fun ns => ?_⟩
      · simp only [findingsAt, hnext.meet_eq]
        rw [hways.files_eq, hnext.path_eq]
      · rw [hways.mem_iff, listed_cons_iff he]
        constructor
        · intro h
          exact .inr ⟨next, hnext, h⟩
        · rintro (⟨-, hfile, -⟩ | ⟨next', hnext', h⟩)
          · exact absurd hfile hf
          · -- what is entered by an entry is one directory
            have heq := (hnext'.meet_eq wanted).symm.trans (hnext.meet_eq wanted)
            cases heq
            exact h
    · have hnone (next) : ¬ d.Enters follow above here name e next := fun h => hex ⟨next, h⟩
      obtain ⟨findings, hmeet, hfiles⟩ := exists_meet_eq_report wanted hf hnone
      refine ⟨[], ?_, .nil, fun ns => ?_⟩
      · simp only [findingsAt, hmeet, hfiles, List.map_nil]
      · rw [listed_cons_iff he]
        simp [hf, hnone]

private theorem sorted_children (d : Disk) (p : Place) :
    (d.children p).Pairwise fun a b => Text.isBefore a.1.text b.1.text = true := by
  have hnames := List.pairwise_map.1 (nodup_names_children d p)
  have hsorted := List.pairwise_map.1 (sorted_outline_children d p)
  refine (hnames.and hsorted).imp fun {a b} ⟨hne, hba⟩ => ?_
  by_contra hab
  exact hne (Name.text_inj.1 (Text.eq_of_not_isBefore (by simpa using hab) hba))

/-- The walk lists a directory's files by the ways to them: it takes the entries by name, and what is below
an entry in its place. -/
theorem exists_lists_walkFrom (d : Disk) (follow : Bool) (wanted : String → Bool) (above : List Visit)
    (here : Visit) :
    ∃ ways, Lists (d.walkFrom follow wanted above here) here.path ways
      (d.Listed follow wanted above here) := by
  induction above, here using Disk.walkFrom.induct d follow wanted with
  | case1 above here ih =>
    have hchild (child) (hm : child ∈ d.children here.place) :=
      exists_lists_findingsAt hm (ih ⟨child, hm⟩)
    choose! tails htails using hchild
    refine ⟨(d.children here.place).flatMap fun c => (tails c).map (c.1 :: ·), ?_, ?_, fun ns => ?_⟩
    · rw [walkFrom_eq_flatMap, List.filterMap_flatMap, List.map_flatMap]
      refine List.flatMap_congr fun c hm => ?_
      rw [(htails c hm).files_eq, List.map_map]
      rfl
    · rw [List.pairwise_flatMap]
      refine ⟨fun c hm => List.pairwise_map.2 ((htails c hm).sorted.imp fun h => .cons h), ?_⟩
      refine (sorted_children d here.place).imp fun {a b} hab ns hns ns' hns' => ?_
      obtain ⟨tail, -, rfl⟩ := List.mem_map.1 hns
      obtain ⟨tail', -, rfl⟩ := List.mem_map.1 hns'
      exact .rel hab
    · simp only [List.mem_flatMap, List.mem_map]
      constructor
      · rintro ⟨c, hm, tail, ht, rfl⟩
        exact ((htails c hm).mem_iff tail).1 ht
      · intro h
        obtain ⟨name, tail, e, rfl, he⟩ := h.exists_entry
        have hm : (name, e) ∈ d.children here.place := mem_children.2 ((mem_entries_iff (by simp)).2 he)
        exact ⟨(name, e), hm, tail, ((htails _ hm).mem_iff tail).2 h, rfl⟩

end Lists

end Disk

/-- The ways to the files that a search lists. If the directory cannot be read, there are none. -/
theorem Search.exists_lists {s : Search} {d : Disk} {p : Place} (hp : d.resolve s.root = .ok p)
    (hd : d.isDirectoryAt p = true) :
    ∃ ways, Disk.Lists (s.findings d) s.root ways fun ns =>
      d.allows .read p = true ∧ d.Listed s.follow s.wanted [] ⟨s.root, p⟩ ns := by
  cases hread : d.allows .read p with
  | true =>
    obtain ⟨ways, hways⟩ := Disk.exists_lists_walkFrom d s.follow s.wanted [] ⟨s.root, p⟩
    refine ⟨ways, ?_, hways.sorted, fun ns => ?_⟩
    · simp only [Search.findings, hp, hd, hread]
      exact hways.files_eq
    · simp [hways.mem_iff]
  | false =>
    refine ⟨[], ?_, .nil, by simp⟩
    simp [Search.findings, hp, hd, hread, Finding.file?]

theorem Search.exists_lists_findings {s : Search} {d : Disk} {p : Place} (hs : s.follow = false)
    (hp : d.resolve s.root = .ok p) (hd : d.isDirectoryAt p = true) :
    ∃ ways, Disk.Lists (s.findings d) s.root ways fun ns =>
      d.allows .read p = true ∧ d.Found s.wanted ⟨s.root, p⟩ ns := by
  obtain ⟨ways, hfiles, hsorted, hmem⟩ := Search.exists_lists hp hd
  refine ⟨ways, hfiles, hsorted, fun ns => ?_⟩
  rw [hmem, hs, Disk.listed_iff_found]

end CommentStrip
