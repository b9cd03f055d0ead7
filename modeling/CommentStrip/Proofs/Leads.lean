import CommentStrip.Proofs.Path
import CommentStrip.Proofs.Walk

/-! Following a path step by step: where it leads, in two parts, and on a disk that has more on it than
another. -/
namespace CommentStrip.Disk

section Nodes

variable {d : Disk} {p : Place}

theorem node?_eq_none_iff : d.node? p = none ↔ d.entry? p = none := by
  simp [node?]

theorem node?_eq_directory_iff {mode : Nat} :
    d.node? p = some (.directory mode) ↔ d.entry? p = some (.directory mode) := by
  cases he : d.entry? p with
  | none => simp [node?, he]
  | some e => cases e <;> simp [node?, he, view]

theorem node?_eq_link_iff {target : String} :
    d.node? p = some (.link target) ↔ d.entry? p = some (.link target) := by
  cases he : d.entry? p with
  | none => simp [node?, he]
  | some e => cases e <;> simp [node?, he, view]

theorem isDirectoryAt_iff : d.isDirectoryAt p = true ↔ ∃ mode, d.node? p = some (.directory mode) := by
  cases he : d.entry? p with
  | none => simp [node?, isDirectoryAt, he]
  | some e => cases e <;> simp [node?, isDirectoryAt, he, view]

theorem allows_iff {a : Access} :
    d.allows a p = true ↔ ∃ mode, d.node? p = some (.directory mode) ∧ d.may a mode = true := by
  cases he : d.entry? p with
  | none => simp [node?, allows, he]
  | some e => cases e <;> simp [node?, allows, he, view]

theorem isDirectoryAt_of_allows {a : Access} (h : d.allows a p = true) : d.isDirectoryAt p = true := by
  obtain ⟨mode, hn, -⟩ := allows_iff.1 h
  exact isDirectoryAt_iff.2 ⟨mode, hn⟩

theorem isLinkAt_iff : d.isLinkAt p = true ↔ ∃ target, d.node? p = some (.link target) := by
  cases he : d.entry? p with
  | none => simp [node?, isLinkAt, he]
  | some e => cases e <;> simp [node?, isLinkAt, he, view]

end Nodes

/-- What is left of the way after one step: how many links may still be met, the place that was reached,
and the steps that a link puts before the rest. -/
structure Rest where
  links : Nat
  place : Place
  steps : List String

/-- One step of a path that leads on, all links followed. A slash at the end asks for a directory, any other
step for one that can be searched. -/
inductive Moves (d : Disk) : Nat → Place → String → Rest → Prop where
  | stop (links : Nat) (here : Place) (h : d.isDirectoryAt here = true) :
    Moves d links here "" ⟨links, here, []⟩
  | stay (links : Nat) (here : Place) (h : d.allows .search here = true) :
    Moves d links here "." ⟨links, here, []⟩
  | up (links : Nat) (here : Place) (h : d.allows .search here = true) :
    Moves d links here ".." ⟨links, here.dropLast, []⟩
  | enter (links : Nat) (here : Place) (name : Name) (n : Node) (h : d.allows .search here = true)
      (hn : d.node? (here ++ [name]) = some n) (hl : ∀ target, n ≠ .link target) :
    Moves d links here name.text ⟨links, here ++ [name], []⟩
  | follow (links : Nat) (here : Place) (name : Name) (target : String)
      (h : d.allows .search here = true) (hn : d.node? (here ++ [name]) = some (.link target)) :
    Moves d (links + 1) here name.text
      ⟨links, if Path.isAbsolute target then [] else here, Path.steps target⟩

/-- A path leads, all links followed, to a place. -/
inductive Leads (d : Disk) : Nat → Place → List String → Place → Prop where
  | arrive (links : Nat) (here : Place) : Leads d links here [] here
  | move {links : Nat} {here p : Place} {step : String} {rest : List String} {r : Rest}
      (hm : d.Moves links here step r) (hr : Leads d r.links r.place (r.steps ++ rest) p) :
    Leads d links here (step :: rest) p

section Moves

variable {d : Disk} {links : Nat} {here p : Place} {step : String} {r : Rest}

theorem Moves.isDirectoryAt (h : d.Moves links here step r) : d.isDirectoryAt here = true := by
  cases h with
  | stop links here h => exact h
  | stay links here h => exact isDirectoryAt_of_allows h
  | up links here h => exact isDirectoryAt_of_allows h
  | enter links here name n h hn hl => exact isDirectoryAt_of_allows h
  | follow links here name target h hn => exact isDirectoryAt_of_allows h

theorem trace_enter {name : Name} {n : Node} (through : Bool) (h : d.allows .search here = true)
    (hn : d.node? (here ++ [name]) = some n) (hl : ∀ target, n ≠ .link target) (rest : List String) :
    d.trace through links here (name.text :: rest) = d.trace through links (here ++ [name]) rest := by
  have hlegal := name.legal
  obtain ⟨e, he, rfl⟩ := Option.map_eq_some_iff.1 hn
  rw [trace, isDirectoryAt_of_allows h, h, if_neg (by simp), if_neg hlegal.ne_empty, if_neg (by simp),
    if_neg hlegal.ne_dot, if_neg hlegal.ne_dots, if_neg (Nat.not_lt.2 hlegal.size_le), name.ofText?_text]
  cases e with
  | link target => exact absurd rfl (hl target)
  | _ => simp only [he]

theorem trace_absent {name : Name} (through : Bool) (h : d.allows .search here = true)
    (hn : d.node? (here ++ [name]) = none) :
    d.trace through links here [name.text] = .absent (here ++ [name]) := by
  have hlegal := name.legal
  rw [trace, isDirectoryAt_of_allows h, h, if_neg (by simp), if_neg hlegal.ne_empty, if_neg (by simp),
    if_neg hlegal.ne_dot, if_neg hlegal.ne_dots, if_neg (Nat.not_lt.2 hlegal.size_le), name.ofText?_text]
  simp [node?_eq_none_iff.1 hn]

theorem trace_follow {name : Name} {target : String} (h : d.allows .search here = true)
    (hn : d.node? (here ++ [name]) = some (.link target)) (rest : List String) :
    d.trace true (links + 1) here (name.text :: rest) =
      d.trace true links (if Path.isAbsolute target then [] else here) (Path.steps target ++ rest) := by
  have hlegal := name.legal
  rw [trace, isDirectoryAt_of_allows h, h, if_neg (by simp), if_neg hlegal.ne_empty, if_neg (by simp),
    if_neg hlegal.ne_dot, if_neg hlegal.ne_dots, if_neg (Nat.not_lt.2 hlegal.size_le), name.ofText?_text]
  simp [node?_eq_link_iff.1 hn]

theorem trace_link {name : Name} {target : String} (h : d.allows .search here = true)
    (hn : d.node? (here ++ [name]) = some (.link target)) :
    d.trace false links here [name.text] = .found (here ++ [name]) := by
  have hlegal := name.legal
  rw [trace, isDirectoryAt_of_allows h, h, if_neg (by simp), if_neg hlegal.ne_empty, if_neg (by simp),
    if_neg hlegal.ne_dot, if_neg hlegal.ne_dots, if_neg (Nat.not_lt.2 hlegal.size_le), name.ofText?_text]
  simp [node?_eq_link_iff.1 hn]

theorem trace_denied (through : Bool) (name : Name) (hd : d.isDirectoryAt here = true)
    (h : d.allows .search here = false) (rest : List String) :
    d.trace through links here (name.text :: rest) = .failed .permissionDenied := by
  rw [trace, hd, h, if_neg (by simp), if_neg name.legal.ne_empty, if_pos (by simp)]

theorem Moves.trace (h : d.Moves links here step r) (rest : List String) :
    d.trace true links here (step :: rest) = d.trace true r.links r.place (r.steps ++ rest) := by
  cases h with
  | stop links here h => rw [Disk.trace, h]; rfl
  | stay links here h => rw [Disk.trace, isDirectoryAt_of_allows h, h]; rfl
  | up links here h => rw [Disk.trace, isDirectoryAt_of_allows h, h]; rfl
  | enter links here name n h hn hl => exact trace_enter true h hn hl rest
  | follow links here name target h hn => exact trace_follow h hn rest

private theorem exists_moves {rest : List String} (h : d.trace true links here (step :: rest) = .found p) :
    ∃ r, d.Moves links here step r := by
  rw [Disk.trace] at h
  split at h
  · cases h
  · next hh =>
    have hdir : d.isDirectoryAt here = true := by simpa using hh
    split at h
    · next hs => exact hs ▸ ⟨_, .stop links here hdir⟩
    · split at h
      · cases h
      · next hsearch =>
        have hallows : d.allows .search here = true := by simpa using hsearch
        split at h
        · next hs => exact hs ▸ ⟨_, .stay links here hallows⟩
        · split at h
          · next hs => exact hs ▸ ⟨_, .up links here hallows⟩
          · split at h
            · cases h
            · split at h
              · cases h
              · next name hname =>
                obtain rfl := Name.text_of_ofText? hname
                split at h
                · split at h <;> cases h
                · next target he =>
                  split at h
                  · next hr => simp at hr
                  · split at h
                    · cases h
                    · exact ⟨_, .follow _ here name target hallows (node?_eq_link_iff.2 he)⟩
                · next e hl he =>
                  have hn : d.node? (here ++ [name]) = some (d.view e) := by rw [node?, he]; rfl
                  refine ⟨_, .enter links here name (d.view e) hallows hn fun target ht => ?_⟩
                  cases e with
                  | link target' => exact hl target' rfl
                  | _ => cases ht

/-- A step uses up a link, or it is a step less to take. -/
theorem Moves.decreases (h : d.Moves links here step r) :
    r.links < links ∨ r.links = links ∧ r.steps = [] := by
  cases h with
  | follow links here name target h hn => exact .inl (Nat.lt_succ_self links)
  | _ => exact .inr ⟨rfl, rfl⟩

theorem Moves.links_le (h : d.Moves links here step r) : r.links ≤ links := by
  rcases h.decreases with h | h <;> omega

/-- More links may be met without harm. -/
theorem Moves.mono (h : d.Moves links here step r) {more : Nat} (hle : links ≤ more) :
    ∃ left, r.links ≤ left ∧ d.Moves more here step { r with links := left } := by
  cases h with
  | stop links here h => exact ⟨more, hle, .stop more here h⟩
  | stay links here h => exact ⟨more, hle, .stay more here h⟩
  | up links here h => exact ⟨more, hle, .up more here h⟩
  | enter links here name n h hn hl => exact ⟨more, hle, .enter more here name n h hn hl⟩
  | follow links here name target h hn =>
    obtain ⟨left, rfl⟩ := Nat.exists_eq_add_of_le' (Nat.le_trans (Nat.le_add_left 1 links) hle)
    exact ⟨left, by simpa using hle, .follow left here name target h hn⟩

end Moves

section Leads

variable {d : Disk} {links : Nat} {here p : Place} {steps : List String}

theorem Leads.trace (h : d.Leads links here steps p) : d.trace true links here steps = .found p := by
  induction h with
  | arrive links here => rw [Disk.trace]
  | move hm hr ih => rw [hm.trace, ih]

private theorem leads_of_trace {links : Nat} {here p : Place} {steps : List String}
    (h : d.trace true links here steps = .found p) : d.Leads links here steps p :=
  match steps with
  | [] => by
    rw [Disk.trace] at h
    cases h
    exact .arrive links here
  | step :: rest => by
    obtain ⟨r, hm⟩ := exists_moves h
    rw [hm.trace] at h
    have hd := hm.decreases
    exact .move hm (leads_of_trace h)
termination_by (links, steps.length)
decreasing_by
  rcases hd with hd | ⟨hl, hs⟩
  · exact .left _ _ hd
  · rw [hl, hs]
    exact .right _ (by simp)

/-- What follows a path is followed from where the path leads. -/
theorem Leads.trace_append (h : d.Leads links here steps p) :
    ∃ left ≤ links, ∀ rest, d.trace true links here (steps ++ rest) = d.trace true left p rest := by
  induction h with
  | arrive links here => exact ⟨links, Nat.le_refl links, fun rest => rfl⟩
  | move hm hr ih =>
    obtain ⟨left, hle, hrest⟩ := ih
    refine ⟨left, Nat.le_trans hle hm.links_le, fun rest => ?_⟩
    rw [List.cons_append, hm.trace, ← List.append_assoc, hrest]

theorem Leads.split {first second : List String} (h : d.Leads links here (first ++ second) p) :
    ∃ q, ∃ left ≤ links, d.Leads links here first q ∧ d.Leads left q second p := by
  generalize hs : first ++ second = steps at h
  induction h generalizing first with
  | arrive links here =>
    obtain ⟨rfl, rfl⟩ := List.append_eq_nil_iff.1 hs
    exact ⟨here, links, Nat.le_refl links, .arrive links here, .arrive links here⟩
  | @move links here p step rest r hm hr ih =>
    cases first with
    | nil =>
      obtain rfl : second = step :: rest := hs
      exact ⟨here, links, Nat.le_refl links, .arrive links here, .move hm hr⟩
    | cons step' first =>
      obtain ⟨rfl, rfl⟩ := List.cons.inj hs
      obtain ⟨q, left, hle, hq, hp⟩ := ih (List.append_assoc r.steps first second)
      exact ⟨q, left, Nat.le_trans hle hm.links_le, .move hm hq, hp⟩

/-- A slash behind the path of a directory changes nothing about where it leads. -/
theorem Leads.slash (h : d.Leads links here steps p) (hp : d.isDirectoryAt p = true) :
    d.Leads links here (steps ++ [""]) p := by
  induction h with
  | arrive links here => exact .move (.stop links here hp) (.arrive links here)
  | move hm hr ih => exact .move hm (List.append_assoc _ _ _ ▸ ih hp)

theorem Leads.mono (h : d.Leads links here steps p) {more : Nat} (hle : links ≤ more) :
    d.Leads more here steps p := by
  induction h generalizing more with
  | arrive links here => exact .arrive more here
  | move hm hr ih =>
    obtain ⟨left, hl, hm'⟩ := hm.mono hle
    exact .move hm' (ih hl)

end Leads

/-- All that is seen on one disk is seen on the other. -/
structure Extends (d d' : Disk) : Prop where
  caller : d.toCaller = d'.toCaller
  nodes : ∀ p n, d.node? p = some n → d'.node? p = some n

namespace Extends

variable {d d' d'' : Disk}

theorem refl (d : Disk) : Extends d d := ⟨rfl, fun _ _ h => h⟩

theorem trans (h : Extends d d') (h' : Extends d' d'') : Extends d d'' :=
  ⟨h.caller.trans h'.caller, fun p n hn => h'.nodes p n (h.nodes p n hn)⟩

theorem isDirectoryAt (h : Extends d d') {p : Place} (hp : d.isDirectoryAt p = true) :
    d'.isDirectoryAt p = true := by
  obtain ⟨mode, hn⟩ := isDirectoryAt_iff.1 hp
  exact isDirectoryAt_iff.2 ⟨mode, h.nodes p _ hn⟩

theorem allows (h : Extends d d') (a : Access) {p : Place} (hp : d.isDirectoryAt p = true) :
    d'.allows a p = d.allows a p := by
  obtain ⟨mode, hn⟩ := isDirectoryAt_iff.1 hp
  rw [Disk.allows, Disk.allows, node?_eq_directory_iff.1 (h.nodes p _ hn), node?_eq_directory_iff.1 hn, h.caller]

private theorem allows_of_allows (h : Extends d d') {a : Access} {p : Place} (hp : d.allows a p = true) :
    d'.allows a p = true := by
  rwa [h.allows a (isDirectoryAt_of_allows hp)]

theorem canChange (h : Extends d d') {p : Place} (hp : d.canChange p = true) : d'.canChange p = true := by
  obtain ⟨hwrite, hsearch⟩ := Bool.and_eq_true_iff.1 hp
  exact Bool.and_eq_true_iff.2 ⟨h.allows_of_allows hwrite, h.allows_of_allows hsearch⟩

theorem moves (h : Extends d d') {links : Nat} {here : Place} {step : String} {r : Rest}
    (hm : d.Moves links here step r) : d'.Moves links here step r := by
  cases hm with
  | stop links here hh => exact .stop links here (h.isDirectoryAt hh)
  | stay links here hh => exact .stay links here (h.allows_of_allows hh)
  | up links here hh => exact .up links here (h.allows_of_allows hh)
  | enter links here name n hh hn hl =>
    exact .enter links here name n (h.allows_of_allows hh) (h.nodes _ _ hn) hl
  | follow links here name target hh hn =>
    exact .follow links here name target (h.allows_of_allows hh) (h.nodes _ _ hn)

private theorem leads (h : Extends d d') {links : Nat} {here p : Place} {steps : List String}
    (hl : d.Leads links here steps p) : d'.Leads links here steps p := by
  induction hl with
  | arrive links here => exact .arrive links here
  | move hm hr ih => exact .move (h.moves hm) ih

theorem start (h : Extends d d') (path : String) : d'.start path = d.start path := by
  rw [Disk.start, Disk.start, h.caller]

end Extends

section Start

theorem start_eq_nil {d : Disk} (h : d.workingDir = []) (path : String) : d.start path = [] := by
  rw [start, h, ite_self]

variable {path : String} (h : path ≠ "") (d : Disk)

include h

theorem start_append (rest : String) : d.start (path ++ rest) = d.start path := by
  rw [start, start, Path.isAbsolute_append h]

theorem start_below (ns : List Name) : d.start (Path.below path ns) = d.start path := by
  rw [start, start, Path.isAbsolute_below h]

end Start

/-- A written path that the system takes: it is there, and neither too long nor spoilt by a zero byte. -/
structure IsWritten (path : String) : Prop where
  ne_empty : path ≠ ""
  no_nul : '\x00' ∉ path.toList
  fits : Path.isTooLong path = false

instance (path : String) : Decidable (IsWritten path) :=
  decidable_of_iff (path ≠ "" ∧ '\x00' ∉ path.toList ∧ Path.isTooLong path = false)
    ⟨fun h => ⟨h.1, h.2.1, h.2.2⟩, fun h => ⟨h.ne_empty, h.no_nul, h.fits⟩⟩

theorem IsWritten.locate {path : String} (h : IsWritten path) (d : Disk) (through : Bool) :
    d.locate through path = d.trace through linkLimit (d.start path) (Path.steps path) := by
  simp [Disk.locate, h.ne_empty, h.no_nul, h.fits]

theorem locate_of_isTooLong {d : Disk} {through : Bool} {path : String} (hne : path ≠ "")
    (hnul : '\x00' ∉ path.toList) (hlong : Path.isTooLong path = true) :
    d.locate through path = .failed .nameTooLong := by
  simp [locate, hne, hnul, hlong]

/-- How long the written path is does not matter to the search for the real one. -/
theorem canonicalize_eq {path : String} (d : Disk) (hne : path ≠ "") (hnul : '\x00' ∉ path.toList) :
    d.canonicalize path = d.realFrom linkLimit (d.start path) (Path.steps path) := by
  simp [canonicalize, hne, hnul]

theorem IsWritten.canonicalize {path : String} (h : IsWritten path) (d : Disk) :
    d.canonicalize path = d.realFrom linkLimit (d.start path) (Path.steps path) :=
  canonicalize_eq d h.ne_empty h.no_nul

private theorem place_eq_ok_iff {found : Lookup} {p : Place} : found.place = .ok p ↔ found = .found p := by
  cases found <;> simp [Lookup.place]

theorem resolve_eq_ok_iff {d : Disk} {path : String} {p : Place} :
    d.resolve path = .ok p ↔ IsWritten path ∧ d.Leads linkLimit (d.start path) (Path.steps path) p := by
  rw [resolve, place_eq_ok_iff]
  constructor
  · intro hl
    unfold locate at hl
    split_ifs at hl with hnul hempty hlong
    exact ⟨⟨hempty, by simpa using hnul, by simpa using hlong⟩, leads_of_trace hl⟩
  · rintro ⟨hw, hl⟩
    rw [hw.locate, hl.trace]

theorem resolve_dot {d : Disk} (h : d.allows .search d.workingDir = true) :
    d.resolve "." = .ok d.workingDir := by
  have hdot : Path.steps "." = ["."] ∧ Path.isAbsolute "." = false := by decide
  rw [resolve_eq_ok_iff, start, hdot.1, hdot.2]
  exact ⟨by decide, .move (.stay _ _ h) (.arrive _ _)⟩

/-- A path that leads somewhere still leads there when more is on the disk. -/
theorem Extends.resolve {d d' : Disk} (h : Extends d d') {path : String} {p : Place}
    (hp : d.resolve path = .ok p) : d'.resolve path = .ok p := by
  obtain ⟨hw, hl⟩ := resolve_eq_ok_iff.1 hp
  exact resolve_eq_ok_iff.2 ⟨hw, h.start path ▸ h.leads hl⟩

/-- The names alone lead to the same place: a slash at the end asks for a directory, and changes nothing
else. -/
theorem leads_names {d : Disk} {path : String} {p : Place} (h : d.resolve path = .ok p) :
    d.Leads linkLimit (d.start path) (Path.names path) p := by
  obtain ⟨-, hl⟩ := resolve_eq_ok_iff.1 h
  rw [Path.steps_eq] at hl
  obtain ⟨q, left, -, hq, hp⟩ := hl.split
  have hqp : q = p := by
    have ht := hp.trace
    split at ht
    · rw [trace, trace] at ht
      split at ht
      · cases ht
      · exact Lookup.found.inj ht
    · rw [trace] at ht
      exact Lookup.found.inj ht
  exact hqp ▸ hq

/-- Every entry is in a directory, and relative paths start from one. -/
structure IsTree (d : Disk) : Prop where
  parent : ∀ entry ∈ d.entries, d.isDirectoryAt entry.1.dropLast = true
  workingDir : d.isDirectoryAt d.workingDir = true

section Tree

variable {d : Disk} {links : Nat} {here p q : Place} {steps : List String} {name : Name} {n : Node}

theorem IsTree.isDirectoryAt_dropLast (htree : d.IsTree) (hn : d.node? p = some n) :
    d.isDirectoryAt p.dropLast = true := by
  by_cases hp : p = []
  · subst hp
    rfl
  · obtain ⟨e, he, -⟩ := Option.map_eq_some_iff.1 hn
    exact htree.parent (p, e) ((mem_entries_iff hp).2 he)

/-- Every place above a directory is that of a directory. -/
theorem IsTree.isDirectoryAt_above (htree : d.IsTree) (hp : d.isDirectoryAt p = true) (hq : q <+: p) :
    d.isDirectoryAt q = true := by
  obtain ⟨more, rfl⟩ := hq
  induction more using List.reverseRecOn with
  | nil => simpa using hp
  | append_singleton more last ih =>
    refine ih ?_
    obtain ⟨mode, hn⟩ := isDirectoryAt_iff.1 hp
    simpa [← List.append_assoc] using htree.isDirectoryAt_dropLast hn

theorem IsTree.isDirectoryAt_of_prefix (htree : d.IsTree) (hn : d.node? (p ++ [name]) = some n)
    (hq : q <+: p) : d.isDirectoryAt q = true :=
  htree.isDirectoryAt_above (by simpa using htree.isDirectoryAt_dropLast hn) hq

/-- Something stands at a place, and it is not a link. -/
def Stands (d : Disk) (p : Place) : Prop := ∃ n, d.node? p = some n ∧ ∀ target, n ≠ .link target

private theorem stands_of_isDirectoryAt (h : d.isDirectoryAt p = true) : d.Stands p := by
  obtain ⟨mode, hn⟩ := isDirectoryAt_iff.1 h
  exact ⟨_, hn, by simp⟩

private theorem IsTree.stands_of_moves (htree : d.IsTree) {step : String} {r : Rest}
    (h : d.Moves links here step r) : d.Stands r.place := by
  have hhere := h.isDirectoryAt
  cases h with
  | stop links here h => exact stands_of_isDirectoryAt hhere
  | stay links here h => exact stands_of_isDirectoryAt hhere
  | up links here h =>
    obtain ⟨mode, hn⟩ := isDirectoryAt_iff.1 hhere
    exact stands_of_isDirectoryAt (htree.isDirectoryAt_dropLast hn)
  | enter links here name n h hn hl => exact ⟨n, hn, hl⟩
  | follow links here name target h hn =>
    refine stands_of_isDirectoryAt ?_
    dsimp only
    split
    · rfl
    · exact hhere

private theorem IsTree.stands_of_leads (htree : d.IsTree) (h : d.Leads links here steps p) (hhere : d.Stands here) :
    d.Stands p := by
  induction h with
  | arrive links here => exact hhere
  | move hm hr ih => exact ih (htree.stands_of_moves hm)

/-- What a path leads to is there, and is not a link. -/
theorem IsTree.stands_of_resolve (htree : d.IsTree) {path : String} (h : d.resolve path = .ok p) :
    d.Stands p := by
  obtain ⟨-, hleads⟩ := resolve_eq_ok_iff.1 h
  refine htree.stands_of_leads hleads (stands_of_isDirectoryAt ?_)
  rw [start]
  split
  · rfl
  · exact htree.workingDir

end Tree

end CommentStrip.Disk
