import CommentStrip.Path
import Mathlib.Algebra.Ring.Nat
import Mathlib.Data.List.Infix

/-! Paths written below a directory: which names they ask for, and where they lead. -/
namespace CommentStrip

namespace Name

/-- What makes a text the name of an entry. -/
structure Legal (text : String) : Prop where
  ne_empty : text ≠ ""
  ne_dot : text ≠ "."
  ne_dots : text ≠ ".."
  size_le : text.utf8ByteSize ≤ sizeLimit
  no_separator : Path.separator ∉ text.toList
  no_nul : '\x00' ∉ text.toList

theorem isValid_iff {text : String} : isValid text = true ↔ Legal text := by
  constructor
  · intro h
    simp [isValid] at h
    obtain ⟨⟨⟨⟨⟨h1, h2⟩, h3⟩, h4⟩, h5⟩, h6⟩ := h
    exact ⟨h1, h2, h3, h4, h5, h6⟩
  · rintro ⟨h1, h2, h3, h4, h5, h6⟩
    simp [isValid, h1, h2, h3, h4, h5, h6]

theorem legal (name : Name) : Legal name.text := isValid_iff.1 name.valid

theorem text_inj {a b : Name} : a.text = b.text ↔ a = b := by
  constructor
  · intro h
    cases a
    cases b
    simpa using h
  · rintro rfl
    rfl

theorem ofText?_text (name : Name) : ofText? name.text = some name := dif_pos name.valid

theorem text_of_ofText? {text : String} {name : Name} (h : ofText? text = some name) : name.text = text := by
  unfold ofText? at h
  split at h
  · cases h
    rfl
  · cases h

theorem isAbsolute_text (name : Name) : Path.isAbsolute name.text = false := by
  rw [Path.isAbsolute, beq_eq_false_iff_ne]
  intro h
  exact name.legal.no_separator (List.mem_of_head? h)

/-- A path that ends in a name ends in no slash. -/
theorem getLast?_append_text_ne (base : String) (name : Name) :
    (base ++ name.text).toList.getLast? ≠ some Path.separator := by
  have hne : name.text.toList ≠ [] := by simpa using name.legal.ne_empty
  rw [String.toList_append, List.getLast?_append_of_ne_nil _ hne]
  exact fun h => name.legal.no_separator (List.mem_of_getLast? h)

end Name

namespace Path

/-- The names in a path. -/
def names (path : String) : List String :=
  ((path.toList.splitOn separator).filter (· ≠ [])).map String.ofList

/-- A path that ends in a slash for the sake of what is to follow. -/
def asDirectory (path : String) : String :=
  if path.toList.getLast? = some separator then path else path ++ "/"

/-- The path of what is found by its names below a path. -/
def below (root : String) (ns : List Name) : String := ns.foldl (fun base name => join base name.text) root

theorem steps_eq (path : String) :
    steps path = names path ++ if path.toList.getLast? = some separator then [""] else [] := by
  simp only [steps, names, List.map_append, beq_iff_eq]
  congr 1
  split <;> rfl

theorem join_eq {base name : String} (hb : base ≠ "") (hn : isAbsolute name = false) :
    join base name = asDirectory base ++ name := by
  cases hc : base.toList.getLast? with
  | none => exact absurd (by simpa using hc) hb
  | some c =>
    simp only [join, asDirectory, hn, hc]
    by_cases hs : c = separator
    · simp [hs]
    · simp [hs]

private theorem exists_asDirectory (path : String) :
    ∃ front, (asDirectory path).toList = front ++ [separator] ∧
      (path.toList = front ∨ path.toList = front ++ [separator]) := by
  by_cases hs : path.toList.getLast? = some separator
  · obtain ⟨front, hf⟩ := List.getLast?_eq_some_iff.1 hs
    exact ⟨front, by rw [asDirectory, if_pos hs, hf], .inr hf⟩
  · exact ⟨path.toList, by rw [asDirectory, if_neg hs]; simp [separator], .inl rfl⟩

private theorem names_asDirectory_append {path name : String} (hne : name ≠ "") (hn : separator ∉ name.toList) :
    names (asDirectory path ++ name) = names path ++ [name] := by
  obtain ⟨front, hd, hp⟩ := exists_asDirectory path
  have hname : [name.toList].filter (· ≠ []) = [name.toList] := by simp [hne]
  have hsplit : (asDirectory path ++ name).toList.splitOn separator =
      front.splitOn separator ++ [name.toList] := by
    rw [String.toList_append, hd, List.append_assoc, List.singleton_append, List.splitOn_append_cons_self,
      List.splitOn_eq_singleton hn]
  have hpath : (path.toList.splitOn separator).filter (· ≠ []) =
      (front.splitOn separator).filter (· ≠ []) := by
    rcases hp with hp | hp
    · rw [hp]
    · rw [hp, List.splitOn_append_cons_self, List.splitOn_nil]
      simp
  rw [names, hsplit, List.filter_append, hname, ← hpath, List.map_append]
  simp [names]

private theorem names_append_slash (path : String) : names (path ++ "/") = names path := by
  rw [names, String.toList_append]
  change (((path.toList ++ separator :: []).splitOn separator).filter _).map _ = _
  rw [List.splitOn_append_cons_self, List.splitOn_nil, List.filter_append]
  simp [names]

theorem steps_append_slash (path : String) : steps (path ++ "/") = names path ++ [""] := by
  rw [steps_eq, names_append_slash, if_pos (by simp [separator])]

theorem isAbsolute_append {path : String} (h : path ≠ "") (rest : String) :
    isAbsolute (path ++ rest) = isAbsolute path := by
  have hne : path.toList ≠ [] := by simpa using h
  obtain ⟨c, front, hp⟩ := List.exists_cons_of_ne_nil hne
  simp [isAbsolute, String.toList_append, hp]

private theorem isAbsolute_asDirectory_append {path : String} (h : path ≠ "") (rest : String) :
    isAbsolute (asDirectory path ++ rest) = isAbsolute path := by
  unfold asDirectory
  split
  · exact isAbsolute_append h rest
  · rw [String.append_assoc]
    exact isAbsolute_append h _

private theorem nul_not_mem_asDirectory {path : String} (h : '\x00' ∉ path.toList) :
    '\x00' ∉ (asDirectory path).toList := by
  unfold asDirectory
  split
  · exact h
  · simpa using h

section Below

variable {root : String} (hroot : root ≠ "") (ns : List Name) (name : Name)

theorem below_concat : below root (ns ++ [name]) = join (below root ns) name.text := by
  simp [below]

include hroot

theorem below_ne_empty : below root ns ≠ "" := by
  induction ns using List.reverseRecOn with
  | nil => exact hroot
  | append_singleton ns name ih =>
    rw [below_concat, join_eq ih name.isAbsolute_text]
    simp [name.legal.ne_empty]

theorem below_concat_eq : below root (ns ++ [name]) = asDirectory (below root ns) ++ name.text := by
  rw [below_concat, join_eq (below_ne_empty hroot ns) name.isAbsolute_text]

private theorem names_below : names (below root ns) = names root ++ ns.map Name.text := by
  induction ns using List.reverseRecOn with
  | nil => simp [below]
  | append_singleton ns name ih =>
    rw [below_concat_eq hroot, names_asDirectory_append name.legal.ne_empty name.legal.no_separator, ih]
    simp

theorem below_inj {ns ns' : List Name} (h : below root ns = below root ns') : ns = ns' := by
  have hnames := congrArg names h
  rw [names_below hroot, names_below hroot] at hnames
  exact List.map_injective_iff.2 (fun _ _ => Name.text_inj.1) (List.append_cancel_left hnames)

theorem isAbsolute_below : isAbsolute (below root ns) = isAbsolute root := by
  induction ns using List.reverseRecOn with
  | nil => rfl
  | append_singleton ns name ih =>
    rw [below_concat_eq hroot, isAbsolute_asDirectory_append (below_ne_empty hroot ns), ih]

theorem nul_not_mem_below (h : '\x00' ∉ root.toList) : '\x00' ∉ (below root ns).toList := by
  induction ns using List.reverseRecOn with
  | nil => exact h
  | append_singleton ns name ih =>
    rw [below_concat_eq hroot, String.toList_append, List.mem_append]
    exact not_or.2 ⟨nul_not_mem_asDirectory ih, name.legal.no_nul⟩

theorem steps_below_concat :
    steps (below root (ns ++ [name])) = names root ++ (ns ++ [name]).map Name.text := by
  have hlast := name.getLast?_append_text_ne (asDirectory (below root ns))
  rw [← below_concat_eq hroot] at hlast
  rw [steps_eq, if_neg hlast, names_below hroot, List.append_nil]

theorem utf8ByteSize_below_le (more : List Name) :
    (below root ns).utf8ByteSize + (more.map fun name => name.text.utf8ByteSize).sum ≤
      (below root (ns ++ more)).utf8ByteSize := by
  induction more using List.reverseRecOn with
  | nil => simp
  | append_singleton more name ih =>
    have hdir (path : String) : path.utf8ByteSize ≤ (asDirectory path).utf8ByteSize := by
      unfold asDirectory
      split
      · exact Nat.le_refl _
      · simp
    have hmore := hdir (below root (ns ++ more))
    rw [← List.append_assoc, below_concat_eq hroot, String.utf8ByteSize_append, List.map_append,
      List.sum_append, List.map_singleton, List.sum_singleton]
    omega

/-- The directories on the way to a path that can be written can be written too. -/
theorem isTooLong_below_of_prefix {ns ns' : List Name} (h : ns <+: ns')
    (hfits : isTooLong (below root ns') = false) : isTooLong (below root ns) = false := by
  obtain ⟨more, rfl⟩ := h
  have hle := utf8ByteSize_below_le hroot ns more
  simp only [isTooLong, decide_eq_false_iff_not] at hfits ⊢
  omega

end Below

end Path

theorem Place.path_concat (p : Place) (name : Name) :
    Place.path (p ++ [name]) = Path.asDirectory (Place.path p) ++ name.text := by
  induction p using List.reverseRecOn generalizing name with
  | nil => simp [Place.path, Path.asDirectory, Path.separator]
  | append_singleton p last ih =>
    have hlast := last.getLast?_append_text_ne (Path.asDirectory (Place.path p))
    have hmap : (p ++ [last]).map Name.text ≠ [] := by simp
    rw [← ih last] at hlast
    rw [Path.asDirectory, if_neg hlast, Place.path, List.map_append,
      String.intercalate_append_of_ne_nil hmap (by simp)]
    simp [Place.path, String.append_assoc]

theorem Place.path_ne_empty (p : Place) : Place.path p ≠ "" := by
  simp [Place.path]

theorem Place.path_append (p : Place) (ns : List Name) :
    Place.path (p ++ ns) = Path.below (Place.path p) ns := by
  induction ns using List.reverseRecOn with
  | nil => rw [List.append_nil]; rfl
  | append_singleton ns name ih =>
    rw [← List.append_assoc, Place.path_concat, ih, Path.below_concat_eq p.path_ne_empty]

theorem Place.path_eq_below (p : Place) : Place.path p = Path.below "/" p := Place.path_append [] p

private theorem Place.names_path (p : Place) : Path.names (Place.path p) = p.map Name.text := by
  have hroot : Path.names "/" = [] := by decide
  rw [Place.path_eq_below, Path.names_below (by decide), hroot, List.nil_append]

theorem Place.steps_path_concat (p : Place) (name : Name) :
    Path.steps (Place.path (p ++ [name])) = (p ++ [name]).map Name.text := by
  have hlast := name.getLast?_append_text_ne (Path.asDirectory (Place.path p))
  rw [← Place.path_concat] at hlast
  rw [Path.steps_eq, if_neg hlast, Place.names_path, List.append_nil]

theorem Place.steps_path_slash (p : Place) : Path.steps (Place.path p ++ "/") = p.map Name.text ++ [""] := by
  rw [Path.steps_append_slash, Place.names_path]

theorem Place.isAbsolute_path (p : Place) (more : String) : Path.isAbsolute (Place.path p ++ more) = true := by
  simp [Path.isAbsolute, Place.path, Path.separator]

theorem Place.nul_not_mem_path (p : Place) : '\x00' ∉ (Place.path p).toList := by
  rw [Place.path_eq_below]
  exact Path.nul_not_mem_below (by decide) p (by decide)

/-- The path of a place is longer than that of a directory above it, with a slash behind. -/
theorem Place.utf8ByteSize_path_lt (p : Place) {ns : List Name} (h : ns ≠ []) :
    (Place.path p).utf8ByteSize + 1 ≤ (Place.path (p ++ ns)).utf8ByteSize := by
  obtain ⟨name, ns, rfl⟩ := List.exists_cons_of_ne_nil h
  have hname : name.text.utf8ByteSize ≠ 0 := by
    rw [ne_eq, String.utf8ByteSize_eq_zero_iff]
    exact name.legal.ne_empty
  have hle := Path.utf8ByteSize_below_le p.path_ne_empty [] (name :: ns)
  rw [List.nil_append, ← Place.path_append, ← Place.path_append, List.append_nil, List.map_cons,
    List.sum_cons] at hle
  omega

end CommentStrip
