import CommentStrip.Proofs.Leads

/-! The real path of what a path leads to. It is found by the same steps, but each entry on the way is looked up
by its own path from the root. So a path may lead to what has no real path: one that is too long, or that leads
through a directory that cannot be searched. -/
namespace CommentStrip.Disk

section Real

variable {d : Disk} {links : Nat} {here p q : Place} {steps rest : List String} {step : String} {name : Name}

/-- What comes of looking up the entry at a place by its own path, if the steps `rest` are to follow. -/
def sight (d : Disk) (p : Place) (rest : List String) : Except IoError Place :=
  (d.locate false (d.probe p rest)).place

theorem probe_nil (d : Disk) (p : Place) : d.probe p [] = Place.path p := by
  simp [probe]

private theorem probe_directory {mode : Nat} (hn : d.node? p = some (.directory mode)) (hrest : rest ≠ []) :
    d.probe p rest = Place.path p ++ "/" := by
  simp [probe, isLinkAt, node?_eq_directory_iff.1 hn, hrest]

theorem realFrom_of_sight_error {cause : IoError} (h : d.sight (here ++ [name]) rest = .error cause) :
    d.realFrom links here (name.text :: rest) = .error cause := by
  have hlegal := name.legal
  rw [sight] at h
  rw [realFrom, if_neg (by simp [hlegal.ne_empty, hlegal.ne_dot]), if_neg hlegal.ne_dots,
    if_neg (Nat.not_lt.2 hlegal.size_le), name.ofText?_text]
  simp only [h]

private theorem realFrom_enter {n : Node} (h : d.sight (here ++ [name]) rest = .ok q)
    (hn : d.node? (here ++ [name]) = some n) (hl : ∀ target, n ≠ .link target) :
    d.realFrom links here (name.text :: rest) = d.realFrom links (here ++ [name]) rest := by
  have hlegal := name.legal
  obtain ⟨e, he, rfl⟩ := Option.map_eq_some_iff.1 hn
  rw [sight] at h
  rw [realFrom, if_neg (by simp [hlegal.ne_empty, hlegal.ne_dot]), if_neg hlegal.ne_dots,
    if_neg (Nat.not_lt.2 hlegal.size_le), name.ofText?_text]
  cases e with
  | link target => exact absurd rfl (hl target)
  | _ => simp only [h, he]

private theorem realFrom_follow {target : String} (h : d.sight (here ++ [name]) rest = .ok q)
    (hn : d.node? (here ++ [name]) = some (.link target)) :
    d.realFrom (links + 1) here (name.text :: rest) =
      d.realFrom links (if Path.isAbsolute target then [] else here) (Path.steps target ++ rest) := by
  have hlegal := name.legal
  rw [sight] at h
  rw [realFrom, if_neg (by simp [hlegal.ne_empty, hlegal.ne_dot]), if_neg hlegal.ne_dots,
    if_neg (Nat.not_lt.2 hlegal.size_le), name.ofText?_text]
  simp only [h, node?_eq_link_iff.1 hn]

/-- The entry that a step names, if it names one, is found by its own path. -/
def Sees (d : Disk) (here : Place) (step : String) (rest : List String) : Prop :=
  ∀ name : Name, step = name.text → ∃ q, d.sight (here ++ [name]) rest = .ok q

theorem Moves.realFrom {r : Rest} (h : d.Moves links here step r) (hs : d.Sees here step rest) :
    d.realFrom links here (step :: rest) = d.realFrom r.links r.place (r.steps ++ rest) := by
  cases h with
  | stop links here h => rw [Disk.realFrom, if_pos (.inl rfl)]; rfl
  | stay links here h => rw [Disk.realFrom, if_pos (.inr rfl)]; rfl
  | up links here h => rw [Disk.realFrom, if_neg (by decide), if_pos rfl]; rfl
  | enter links here name n h hn hl =>
    obtain ⟨q, hq⟩ := hs name rfl
    exact realFrom_enter hq hn hl
  | follow links here name target h hn =>
    obtain ⟨q, hq⟩ := hs name rfl
    exact realFrom_follow hq hn

private theorem exists_of_not_sees (h : ¬ d.Sees here step rest) :
    ∃ name cause, step = name.text ∧ d.sight (here ++ [name]) rest = .error cause := by
  simp only [Sees, not_forall] at h
  obtain ⟨name, hstep, hno⟩ := h
  cases hs : d.sight (here ++ [name]) rest with
  | error cause => exact ⟨name, cause, hstep, hs⟩
  | ok q => exact absurd ⟨q, hs⟩ hno

/-- The real path, if it can be found, is that of the place where the path leads. -/
theorem Leads.eq_of_realFrom (h : d.Leads links here steps p) (hq : d.realFrom links here steps = .ok q) :
    q = p := by
  induction h with
  | arrive links here =>
    rw [Disk.realFrom] at hq
    exact (Except.ok.inj hq).symm
  | @move links here p step rest r hm hr ih =>
    by_cases hs : d.Sees here step rest
    · exact ih (hm.realFrom hs ▸ hq)
    · obtain ⟨name, cause, rfl, hsight⟩ := exists_of_not_sees hs
      rw [realFrom_of_sight_error hsight] at hq
      cases hq

theorem eq_of_canonicalize {path : String} (h : d.resolve path = .ok p) (hq : d.canonicalize path = .ok q) :
    q = p := by
  obtain ⟨hw, hl⟩ := resolve_eq_ok_iff.1 h
  rw [hw.canonicalize] at hq
  exact hl.eq_of_realFrom hq

end Real

/-- All directories on the way from the root to one can be searched, and it can be too. -/
def reaches (d : Disk) (p : Place) : Bool := p.inits.all (d.allows .search)

section Tree

variable {d : Disk} {links : Nat} {here p q : Place} {steps rest : List String} {name : Name} {n : Node}

private theorem reaches_iff : d.reaches p = true ↔ ∀ q, q <+: p → d.allows .search q = true := by
  simp [reaches]

/-- From directory to directory the way is free up to the first that cannot be searched. -/
theorem trace_directories (through : Bool) (ns : List Name)
    (hdirs : ∀ q, q <+: ns → d.isDirectoryAt (here ++ q) = true) (rest : List String) :
    d.trace through links here ((ns ++ [name]).map Name.text ++ rest) =
      if ns.inits.all fun q => d.allows .search (here ++ q) then
        d.trace through links (here ++ ns) (name.text :: rest)
      else .failed .permissionDenied := by
  induction ns generalizing here with
  | nil =>
    have hhere : d.isDirectoryAt here = true := by simpa using hdirs [] List.nil_prefix
    cases hs : d.allows .search here with
    | true => simp [hs]
    | false => simpa [hs] using trace_denied through name hhere hs rest
  | cons first ns ih =>
    have hhere : d.isDirectoryAt here = true := by simpa using hdirs [] List.nil_prefix
    have hfirst : d.isDirectoryAt (here ++ [first]) = true := hdirs [first] (by simp)
    cases hs : d.allows .search here with
    | false => simpa [hs] using trace_denied through first hhere hs _
    | true =>
      obtain ⟨mode, hn⟩ := isDirectoryAt_iff.1 hfirst
      have hrest (q) (hq : q <+: ns) : d.isDirectoryAt (here ++ [first] ++ q) = true := by
        rw [List.append_assoc]
        exact hdirs (first :: q) (List.cons_prefix_cons.2 ⟨rfl, hq⟩)
      have hall : ((first :: ns).inits.all fun q => d.allows .search (here ++ q)) =
          ns.inits.all fun q => d.allows .search (here ++ [first] ++ q) := by
        simp [hs, Function.comp_def]
      rw [List.cons_append, List.map_cons, List.cons_append, trace_enter through hs hn (by simp), ih hrest, hall,
        List.append_assoc, List.singleton_append]

/-- An entry that a path leads through: those above it are directories, and steps follow only where it leads on. -/
structure OnTheWay (d : Disk) (p : Place) (name : Name) (rest : List String) (n : Node) : Prop where
  dirs : ∀ q, q <+: p → d.isDirectoryAt q = true
  node : d.node? (p ++ [name]) = some n
  leadsOn : rest ≠ [] → (∃ target, n = .link target) ∨ ∃ mode, n = .directory mode

/-- The path by which an entry is looked up, with a slash behind it or not, asks for no more than the entry is. -/
theorem OnTheWay.exists_probe (h : d.OnTheWay p name rest n) :
    ∃ more after, d.probe (p ++ [name]) rest = Place.path (p ++ [name]) ++ more ∧ '\x00' ∉ more.toList ∧
      Path.steps (Place.path (p ++ [name]) ++ more) = (p ++ [name]).map Name.text ++ after ∧
      (d.allows .search p = true → d.trace false linkLimit p (name.text :: after) = .found (p ++ [name])) := by
  cases hslash : rest.isEmpty || d.isLinkAt (p ++ [name]) with
  | true =>
    refine ⟨"", [], by simp [probe, hslash], by simp, by simpa using Place.steps_path_concat p name, fun hs => ?_⟩
    by_cases hl : ∃ target, n = .link target
    · obtain ⟨target, rfl⟩ := hl
      exact trace_link hs h.node
    · rw [trace_enter false hs h.node fun target ht => hl ⟨target, ht⟩, trace]
  | false =>
    obtain ⟨hempty, hlink⟩ := Bool.or_eq_false_iff.1 hslash
    obtain ⟨mode, rfl⟩ : ∃ mode, n = .directory mode := by
      refine (h.leadsOn (by simpa using hempty)).resolve_left ?_
      rintro ⟨target, rfl⟩
      simp [isLinkAt, node?_eq_link_iff.1 h.node] at hlink
    refine ⟨"/", [""], by simp [probe, hslash], by decide, Place.steps_path_slash _, fun hs => ?_⟩
    rw [trace_enter false hs h.node (by simp), trace, isDirectoryAt_iff.2 ⟨mode, h.node⟩, trace]
    rfl

/-- An entry is found by its own path unless that is too long or leads through a directory that cannot be
searched. -/
theorem OnTheWay.sight_eq (h : d.OnTheWay p name rest n) :
    d.sight (p ++ [name]) rest =
      if Path.isTooLong (d.probe (p ++ [name]) rest) then .error .nameTooLong
      else if d.reaches p then .ok (p ++ [name])
      else .error .permissionDenied := by
  obtain ⟨more, after, hprobe, hnul, hsteps, hfound⟩ := h.exists_probe
  have hw : '\x00' ∉ (Place.path (p ++ [name]) ++ more).toList := by
    rw [String.toList_append, List.mem_append]
    exact not_or.2 ⟨Place.nul_not_mem_path _, hnul⟩
  have hne : Place.path (p ++ [name]) ++ more ≠ "" := by simp [Place.path_ne_empty]
  rw [sight, hprobe]
  cases hlong : Path.isTooLong (Place.path (p ++ [name]) ++ more) with
  | true => rw [locate_of_isTooLong hne hw hlong]; rfl
  | false =>
    rw [IsWritten.locate ⟨hne, hw, hlong⟩, start, if_pos (Place.isAbsolute_path _ more), hsteps,
      trace_directories false p (by simpa using h.dirs)]
    change Lookup.place (if d.reaches p then _ else _) = _
    cases hreach : d.reaches p with
    | false => rfl
    | true =>
      rw [if_pos rfl, List.nil_append, hfound (reaches_iff.1 hreach p List.prefix_rfl)]
      rfl

/-- What a path leads through stands on its way. -/
theorem IsTree.exists_onTheWay (htree : d.IsTree) {step : String} {r : Rest} (hm : d.Moves links here step r)
    (hr : d.Leads r.links r.place (r.steps ++ rest) p) (hstep : step = name.text) :
    ∃ n, d.OnTheWay here name rest n := by
  cases hm with
  | stop links here h => exact absurd hstep.symm name.legal.ne_empty
  | stay links here h => exact absurd hstep.symm name.legal.ne_dot
  | up links here h => exact absurd hstep.symm name.legal.ne_dots
  | follow links here name' target h hn =>
    obtain rfl := Name.text_inj.1 hstep
    exact ⟨_, fun q hq => htree.isDirectoryAt_of_prefix hn hq, hn, fun _ => .inl ⟨target, rfl⟩⟩
  | enter links here name' n h hn hl =>
    obtain rfl := Name.text_inj.1 hstep
    refine ⟨n, fun q hq => htree.isDirectoryAt_of_prefix hn hq, hn, fun hne => .inr ?_⟩
    have hdir : d.isDirectoryAt (here ++ [name']) = true := by
      cases hr with
      | arrive => exact absurd rfl hne
      | move hm' hr' => exact hm'.isDirectoryAt
    obtain ⟨mode, hmode⟩ := isDirectoryAt_iff.1 hdir
    exact ⟨mode, Option.some.inj (hn.symm.trans hmode)⟩

/-- If no path is too long and every directory can be searched, all that a path leads to has a real path. -/
theorem Leads.realFrom_of_short (h : d.Leads links here steps p) (htree : d.IsTree)
    (hshort : ∀ entry ∈ d.entries, Path.isTooLong (Place.path entry.1 ++ "/") = false)
    (hsearch : ∀ q, d.isDirectoryAt q = true → d.allows .search q = true) :
    d.realFrom links here steps = .ok p := by
  induction h with
  | arrive links here => rw [Disk.realFrom]
  | @move links here p step rest r hm hr ih =>
    have hs : d.Sees here step rest := by
      rintro name hstep
      obtain ⟨n, hway⟩ := htree.exists_onTheWay hm hr hstep
      obtain ⟨e, he, -⟩ := Option.map_eq_some_iff.1 hway.node
      have hfits := hshort (here ++ [name], e) ((mem_entries_iff (by simp)).2 he)
      have hprobe : Path.isTooLong (d.probe (here ++ [name]) rest) = false := by
        rw [probe]
        split
        · simp only [Path.isTooLong, decide_eq_false_iff_not, String.utf8ByteSize_append] at hfits ⊢
          omega
        · exact hfits
      have hreach : d.reaches here = true := reaches_iff.2 fun q hq => hsearch q (hway.dirs q hq)
      exact ⟨here ++ [name], by rw [hway.sight_eq, hprobe, hreach]; rfl⟩
    rw [hm.realFrom hs, ih]

/-- What follows a path is followed from where the path leads, if the real path of the directory there is
found. Only whether steps follow matters to how an entry is looked up, and not which. -/
theorem Leads.realFrom_append (h : d.Leads links here steps p) :
    ∃ left ≤ links, ∀ more, more ≠ [] → d.realFrom links here (steps ++ more) =
      (d.realFrom links here (steps ++ [""])).bind fun _ => d.realFrom left p more := by
  induction h with
  | arrive links here =>
    refine ⟨links, Nat.le_refl links, fun more _ => ?_⟩
    rw [List.nil_append, List.nil_append, Disk.realFrom.eq_2, if_pos (.inl rfl), Disk.realFrom.eq_1]
    rfl
  | @move links here p step rest r hm hr ih =>
    obtain ⟨left, hle, hmore⟩ := ih
    refine ⟨left, Nat.le_trans hle hm.links_le, fun more hne => ?_⟩
    have hsight (name : Name) :
        d.sight (here ++ [name]) (rest ++ more) = d.sight (here ++ [name]) (rest ++ [""]) := by
      simp [sight, probe, hne]
    rw [List.cons_append, List.cons_append]
    by_cases hs : d.Sees here step (rest ++ [""])
    · have hs' : d.Sees here step (rest ++ more) := fun name hstep => hsight name ▸ hs name hstep
      rw [hm.realFrom hs, hm.realFrom hs', ← List.append_assoc, ← List.append_assoc, hmore more hne]
    · obtain ⟨name, cause, rfl, herror⟩ := exists_of_not_sees hs
      rw [realFrom_of_sight_error (hsight name ▸ herror), realFrom_of_sight_error herror]
      rfl

private theorem reaches_concat (h : d.reaches p = true) (hname : d.allows .search (p ++ [name]) = true) :
    d.reaches (p ++ [name]) = true := by
  rw [reaches_iff] at *
  intro q hq
  rcases List.prefix_concat_iff.1 hq with rfl | hq
  · exact hname
  · exact h q hq

/-- A name is passed on the way to a real path just when its own path is not too long and the directory before it
can be reached from the root. -/
theorem OnTheWay.realFrom_eq_ok_iff (h : d.OnTheWay p name rest n) (hl : ∀ target, n ≠ .link target) :
    d.realFrom links p (name.text :: rest) = .ok q ↔
      Path.isTooLong (d.probe (p ++ [name]) rest) = false ∧ d.reaches p = true ∧
        d.realFrom links (p ++ [name]) rest = .ok q := by
  have hsight := h.sight_eq
  split_ifs at hsight with hlong hreach
  · simp [realFrom_of_sight_error hsight, hlong]
  · simp [realFrom_enter hsight h.node hl, hlong, hreach]
  · simp [realFrom_of_sight_error hsight, hreach]

/-- From a directory names lead on to a real path just when the directory can be reached from the root and the
path is not too long. -/
theorem realFrom_names_eq_ok_iff {ns : List Name} (habove : ∀ q, q <+: p → d.isDirectoryAt q = true)
    (hdirs : ∀ q, q <+: ns → d.allows .search (p ++ q) = true) (hn : d.node? (p ++ ns ++ [name]) = some n)
    (hl : ∀ target, n ≠ .link target) :
    d.realFrom links p ((ns ++ [name]).map Name.text) = .ok (p ++ ns ++ [name]) ↔
      d.reaches p = true ∧ Path.isTooLong (Place.path (p ++ ns ++ [name])) = false := by
  induction ns generalizing p with
  | nil =>
    rw [List.append_nil] at hn ⊢
    have hway : d.OnTheWay p name [] n := ⟨habove, hn, (absurd rfl ·)⟩
    change d.realFrom links p [name.text] = _ ↔ _
    rw [hway.realFrom_eq_ok_iff hl, probe_nil, realFrom, and_comm]
    simp
  | cons first ns ih =>
    have hfirst : d.allows .search (p ++ [first]) = true := hdirs [first] (by simp)
    obtain ⟨mode, hmode⟩ := isDirectoryAt_iff.1 (isDirectoryAt_of_allows hfirst)
    have hway : d.OnTheWay p first ((ns ++ [name]).map Name.text) (.directory mode) :=
      ⟨habove, hmode, fun _ => .inr ⟨mode, rfl⟩⟩
    have hrest (q) (hq : q <+: ns) : d.allows .search (p ++ [first] ++ q) = true := by
      rw [List.append_assoc]
      exact hdirs (first :: q) (List.cons_prefix_cons.2 ⟨rfl, hq⟩)
    rw [List.append_cons p first ns] at hn ⊢
    have hnext (hreach : d.reaches p = true) := by
      have hreach' := reaches_concat hreach hfirst
      exact hreach' ▸ ih (fun q hq => isDirectoryAt_of_allows (reaches_iff.1 hreach' q hq)) hrest hn
    change d.realFrom links p (first.text :: (ns ++ [name]).map Name.text) = _ ↔ _
    rw [hway.realFrom_eq_ok_iff (by simp), probe_directory hmode (by simp)]
    constructor
    · rintro ⟨-, hreach, hreal⟩
      exact ⟨hreach, ((hnext hreach).1 hreal).2⟩
    · rintro ⟨hreach, hfits⟩
      refine ⟨?_, hreach, (hnext hreach).2 ⟨rfl, hfits⟩⟩
      -- the path of the file is longer than that of a directory above it
      have hlt := Place.utf8ByteSize_path_lt (p ++ [first]) (by simp : ns ++ [name] ≠ [])
      rw [← List.append_assoc] at hlt
      simp only [Path.isTooLong, decide_eq_false_iff_not, String.utf8ByteSize_append] at hfits ⊢
      exact fun hlong => hfits (Nat.lt_of_lt_of_le hlong hlt)

end Tree

section Extends

variable {d d' : Disk} {links : Nat} {here p : Place} {steps rest : List String} {name : Name} {n : Node}

private theorem Extends.onTheWay (h : Extends d d') (hway : d.OnTheWay p name rest n) : d'.OnTheWay p name rest n :=
  ⟨fun q hq => h.isDirectoryAt (hway.dirs q hq), h.nodes _ _ hway.node, hway.leadsOn⟩

theorem Extends.reaches (h : Extends d d') (hp : ∀ q, q <+: p → d.isDirectoryAt q = true) :
    d'.reaches p = d.reaches p := by
  rw [Bool.eq_iff_iff, reaches_iff, reaches_iff]
  exact forall₂_congr fun q hq => by rw [h.allows .search (hp q hq)]

theorem Extends.sight (h : Extends d d') (hway : d.OnTheWay p name rest n) :
    d'.sight (p ++ [name]) rest = d.sight (p ++ [name]) rest := by
  have hway' := h.onTheWay hway
  have hprobe : d'.probe (p ++ [name]) rest = d.probe (p ++ [name]) rest := by
    have hlink : d'.isLinkAt (p ++ [name]) = d.isLinkAt (p ++ [name]) := by
      rw [Bool.eq_iff_iff, isLinkAt_iff, isLinkAt_iff, hway.node, hway'.node]
    rw [probe, hlink, probe]
  rw [hway'.sight_eq, hway.sight_eq, hprobe, h.reaches hway.dirs]

/-- The real path of what is there is the same when more is on the disk. -/
theorem Extends.realFrom (h : Extends d d') (htree : d.IsTree) (hl : d.Leads links here steps p) :
    d'.realFrom links here steps = d.realFrom links here steps := by
  induction hl with
  | arrive links here => rw [Disk.realFrom, Disk.realFrom]
  | @move links here p step rest r hm hr ih =>
    have hsight (name : Name) (hstep : step = name.text) :
        d'.sight (here ++ [name]) rest = d.sight (here ++ [name]) rest := by
      obtain ⟨n, hway⟩ := htree.exists_onTheWay hm hr hstep
      exact h.sight hway
    by_cases hs : d.Sees here step rest
    · have hs' : d'.Sees here step rest := fun name hstep => hsight name hstep ▸ hs name hstep
      rw [(h.moves hm).realFrom hs', hm.realFrom hs, ih]
    · obtain ⟨name, cause, rfl, herror⟩ := exists_of_not_sees hs
      rw [realFrom_of_sight_error (hsight name rfl ▸ herror), realFrom_of_sight_error herror]

theorem Extends.canonicalize_slash (h : Extends d d') (htree : d.IsTree) {root : String}
    (hroot : d.resolve root = .ok p) (hp : d.isDirectoryAt p = true) :
    d'.canonicalize (root ++ "/") = d.canonicalize (root ++ "/") := by
  obtain ⟨hw, -⟩ := resolve_eq_ok_iff.1 hroot
  have hne : root ++ "/" ≠ "" := by simp
  have hnul : '\x00' ∉ (root ++ "/").toList := by simpa using hw.no_nul
  rw [canonicalize_eq d' hne hnul, canonicalize_eq d hne hnul, h.start, start_append hw.ne_empty,
    Path.steps_append_slash,    h.realFrom htree ((leads_names hroot).slash hp)]

end Extends

end CommentStrip.Disk
