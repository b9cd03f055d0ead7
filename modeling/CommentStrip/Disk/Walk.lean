import CommentStrip.Disk.Lookup

/-! Walking through a directory and all that is below it, by name, depth first. -/

namespace CommentStrip

/-- A directory on the way of a walk: the path by which it was reached and the place where it is. -/
structure Visit where
  path : String
  place : Place
  deriving DecidableEq

/-- What a walk comes upon. -/
inductive Finding where
  /-- A file, or a link that does not lead to a directory. -/
  | file (path : String)
  /-- An entry that cannot be opened. If a link leads there, the path may not be told. -/
  | unreadable (path : Option String) (cause : IoError)
  /-- A link back to a directory that the walk is in. -/
  | loop (path ancestor : String)
  deriving DecidableEq, Repr

namespace Disk

def directories (d : Disk) : List Place := ([] :: d.entries.map Prod.fst).filter d.isDirectoryAt

/-- The directories that a walk is not in. -/
def unvisited (d : Disk) (visits : List Visit) : List Place :=
  d.directories.filter fun p => visits.all (·.place != p)

/-- The most names in a place. -/
def height (d : Disk) : Nat := (d.entries.map (·.1.length)).foldr max 0

theorem nameIn?_eq_some_iff {p q : Place} {name : Name} :
    nameIn? p q = some name ↔ q = p ++ [name] := by
  constructor
  · intro h
    rcases q.eq_nil_or_concat with rfl | ⟨front, last, rfl⟩
    · simp [nameIn?] at h
    · simp_all [nameIn?]
  · rintro rfl
    simp [nameIn?]

theorem mem_children {d : Disk} {p : Place} {child : Name × Entry} :
    child ∈ d.children p ↔ (p ++ [child.1], child.2) ∈ d.entries := by
  simp only [children, List.mem_mergeSort, List.mem_filterMap, Option.map_eq_some_iff,
    nameIn?_eq_some_iff]
  constructor
  · rintro ⟨⟨q, e⟩, h, name, hq, rfl⟩
    exact hq ▸ h
  · intro h
    exact ⟨_, h, child.1, rfl, rfl⟩

theorem length_le_height {d : Disk} {p : Place} {e : Entry} (h : (p, e) ∈ d.entries) :
    p.length ≤ d.height := by
  have bound (ns : List Nat) : ∀ n ∈ ns, n ≤ ns.foldr max 0 := by
    induction ns with
    | nil => simp
    | cons m ns ih =>
      intro n hn
      rcases List.mem_cons.1 hn with rfl | hn
      · exact Nat.le_max_left ..
      · exact Nat.le_trans (ih n hn) (Nat.le_max_right ..)
  exact bound _ _ (List.mem_map.2 ⟨_, h, rfl⟩)

theorem unvisited_cons (d : Disk) (v : Visit) (vs : List Visit) :
    d.unvisited (v :: vs) = (d.unvisited vs).filter (v.place != ·) := by
  simp [unvisited, List.filter_filter]

theorem mem_directories {d : Disk} {p : Place} (h : d.isDirectoryAt p = true) :
    p ∈ d.directories := by
  refine List.mem_filter.2 ⟨?_, h⟩
  by_cases hp : p = []
  · simp [hp]
  · simp only [isDirectoryAt, entry?, hp, if_false] at h
    split at h
    · next he =>
      obtain ⟨before, after, he, -⟩ := List.lookup_eq_some_iff.1 he
      simp [he]
    · cases h

/-- What a walk does at one entry. -/
inductive Meeting where
  | report (findings : List Finding)
  | enter (next : Visit)

/-- A file, or a link that does not lead to a directory, counts if its name does. -/
def meetFile (wanted : String → Bool) (path name : String) : Meeting :=
  .report (if wanted name then [.file path] else [])

/-- A link to a directory is entered only if `follow`, and never if the walk is in that directory
already: in `here`, or in one of those above it (the nearest first). To tell, it has to be opened. -/
def meetLink (d : Disk) (follow : Bool) (wanted : String → Bool) (above : List Visit) (here : Visit)
    (path name : String) : Meeting :=
  match d.resolve path with
  | .error e => if follow then .report [.unreadable (some path) e] else meetFile wanted path name
  | .ok target =>
    if d.isDirectoryAt target then
      if !follow then .report []
      else if !d.allows .read target then .report [.unreadable none .permissionDenied]
      else
        match (here :: above).find? (·.place == target) with
        | some ancestor => .report [.loop path ancestor.path]
        | none => .enter ⟨path, target⟩
    else meetFile wanted path name

/-- A directory is opened by its path, if that is not too long and nothing forbids it. -/
def meetDirectory (d : Disk) (here : Visit) (path : String) (name : Name) (mode : Nat) : Meeting :=
  if Path.isTooLong path then .report [.unreadable (some path) .nameTooLong]
  else if d.allows .search here.place && d.may .read mode then .enter ⟨path, here.place ++ [name]⟩
  else .report [.unreadable (some path) .permissionDenied]

/-- Decides on one entry of the directory `here`. -/
def meet (d : Disk) (follow : Bool) (wanted : String → Bool) (above : List Visit) (here : Visit)
    (name : Name) : Entry → Meeting
  | .file _ => meetFile wanted (Path.join here.path name.text) name.text
  | .directory mode => d.meetDirectory here (Path.join here.path name.text) name mode
  | .link _ => d.meetLink follow wanted above here (Path.join here.path name.text) name.text
  | .special _ => .report []

/-- A directory that is entered is a child of `here` or one that the walk is not in. -/
theorem place_of_meet_eq_enter {d : Disk} {follow : Bool} {wanted : String → Bool}
    {above : List Visit} {here next : Visit} {name : Name} {e : Entry}
    (h : d.meet follow wanted above here name e = .enter next) :
    next.place = here.place ++ [name] ∨ next.place ∈ d.unvisited (here :: above) := by
  cases e with
  | file n => simp [meet, meetFile] at h
  | special cause => simp [meet] at h
  | directory mode =>
    simp only [meet, meetDirectory] at h
    split at h
    · simp at h
    · split at h
      · obtain rfl := Meeting.enter.inj h
        exact .inl rfl
      · simp at h
  | link target =>
    simp only [meet, meetLink] at h
    split at h
    · split at h <;> simp [meetFile] at h
    · split at h
      · next hd =>
        split at h
        · simp at h
        · split at h
          · simp at h
          · split at h
            · simp at h
            · next hf =>
              obtain rfl := Meeting.enter.inj h
              exact .inr (List.mem_filter.2 ⟨mem_directories hd, by simpa using hf⟩)
      · simp [meetFile] at h

/-- Lists what is below `here`. There are only finitely many directories to enter. -/
def walkFrom (d : Disk) (follow : Bool) (wanted : String → Bool) (above : List Visit)
    (here : Visit) : List Finding :=
  (d.children here.place).attach.flatMap fun child =>
    match _h : d.meet follow wanted above here child.val.1 child.val.2 with
    | .report findings => findings
    | .enter next => d.walkFrom follow wanted (here :: above) next
termination_by ((d.unvisited (here :: above)).length, d.height + 1 - here.place.length)
decreasing_by
  rw [unvisited_cons]
  rcases place_of_meet_eq_enter _h with hp | hp
  · refine Prod.Lex.right' _ (List.length_filter_le ..) ?_
    have hl := length_le_height (mem_children.1 child.property)
    simp only [hp, List.length_append, List.length_cons, List.length_nil] at hl ⊢
    omega
  · exact .left _ _ (List.length_filter_lt_length_iff_exists.2 ⟨next.place, hp, by simp⟩)

end Disk

end CommentStrip
