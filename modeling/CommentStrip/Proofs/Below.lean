import CommentStrip.Disk.Build
import CommentStrip.Proofs.Rerun

/-! Paths below a directory: where they lead, and making the directories and files that they name. -/
namespace CommentStrip

/-- What the program makes is left to its owner: the owner's bits are not taken from it. -/
def Caller.KeepsOwn (c : Caller) : Prop := ∀ a : Access, c.umask &&& a.bit = 0

theorem Caller.keepsOwn_of_umask {c : Caller} (h : c.umask = 0o022) : c.KeepsOwn := by
  intro a
  rw [h]
  cases a <;> rfl

section KeepsOwn

variable {c : Caller} (h : c.KeepsOwn)

include h

private theorem Caller.KeepsOwn.masked_and (mode : Nat) (a : Access) : c.masked mode &&& a.bit = mode &&& a.bit := by
  rw [Caller.masked, Nat.and_xor_distrib_right, Nat.and_assoc, h a, Nat.and_zero, Nat.xor_zero]

theorem Caller.KeepsOwn.may_newDirectoryMode (a : Access) : c.may a c.newDirectoryMode = true := by
  have hbit : c.newDirectoryMode &&& a.bit ≠ 0 := by
    rw [Caller.newDirectoryMode, h.masked_and]
    cases a <;> decide
  simp [Caller.may, hbit]

theorem Caller.KeepsOwn.may_read_newFileMode : c.may .read c.newFileMode = true := by
  have hbit : c.newFileMode &&& Access.read.bit ≠ 0 := by
    rw [Caller.newFileMode, h.masked_and]
    decide
  simp [Caller.may, hbit]

theorem Caller.KeepsOwn.isReadOnly_newFile (bytes : ByteArray) :
    File.isReadOnly ⟨bytes, c.newFileMode⟩ = false := by
  have hbit : c.newFileMode &&& Access.write.bit ≠ 0 := by
    rw [Caller.newFileMode, h.masked_and]
    decide
  have hwrite : File.writeBits &&& Access.write.bit = Access.write.bit := by decide
  rw [File.isReadOnly, beq_eq_false_iff_ne]
  intro hnone
  apply hbit
  rw [← hwrite, ← Nat.and_assoc, hnone, Nat.zero_and]

end KeepsOwn

namespace Disk

section Below

variable {d : Disk} {root : String} {p : Place} {ns : List Name} {name : Name}

private theorem locate_below (hroot : d.resolve root = .ok p)
    (hfits : Path.isTooLong (Path.below root (ns ++ [name])) = false)
    (hdirs : ∀ q, q <+: ns → d.allows .search (p ++ q) = true) :
    ∃ left, d.locate true (Path.below root (ns ++ [name])) = d.trace true left (p ++ ns) [name.text] := by
  obtain ⟨hw, -⟩ := resolve_eq_ok_iff.1 hroot
  have hbelow : IsWritten (Path.below root (ns ++ [name])) :=
    ⟨Path.below_ne_empty hw.ne_empty _, Path.nul_not_mem_below hw.ne_empty _ hw.no_nul, hfits⟩
  obtain ⟨left, -, hrest⟩ := (leads_names hroot).trace_append
  have htrace := @trace_directories d left p name true ns (fun q hq => isDirectoryAt_of_allows (hdirs q hq)) []
  have hall : (ns.inits.all fun q => d.allows .search (p ++ q)) = true := by simpa using hdirs
  refine ⟨left, ?_⟩
  rw [hbelow.locate, start_below hw.ne_empty, Path.steps_below_concat hw.ne_empty, hrest]
  rwa [List.append_nil, if_pos hall] at htrace

theorem resolve_below (hroot : d.resolve root = .ok p)
    (hfits : Path.isTooLong (Path.below root (ns ++ [name])) = false)
    (hdirs : ∀ q, q <+: ns → d.allows .search (p ++ q) = true) {n : Node}
    (hn : d.node? (p ++ ns ++ [name]) = some n) (hl : ∀ target, n ≠ .link target) :
    d.resolve (Path.below root (ns ++ [name])) = .ok (p ++ ns ++ [name]) := by
  obtain ⟨left, hloc⟩ := locate_below hroot hfits hdirs
  rw [resolve, hloc, trace_enter true (hdirs ns List.prefix_rfl) hn hl, trace]
  rfl

private theorem locate_below_absent (hroot : d.resolve root = .ok p)
    (hfits : Path.isTooLong (Path.below root (ns ++ [name])) = false)
    (hdirs : ∀ q, q <+: ns → d.allows .search (p ++ q) = true)
    (hn : d.node? (p ++ ns ++ [name]) = none) :
    d.locate true (Path.below root (ns ++ [name])) = .absent (p ++ ns ++ [name]) := by
  obtain ⟨left, hloc⟩ := locate_below hroot hfits hdirs
  rw [hloc, trace_absent true (hdirs ns List.prefix_rfl) hn]

/-- What is found by names below a directory has a real path just when the directory has one, can be reached from
the root, and the path is not too long. -/
theorem canonicalize_below_eq_ok_iff (hroot : d.resolve root = .ok p)
    (habove : ∀ q, q <+: p → d.isDirectoryAt q = true)
    (hdirs : ∀ q, q <+: ns → d.allows .search (p ++ q) = true) {n : Node}
    (hn : d.node? (p ++ ns ++ [name]) = some n) (hl : ∀ target, n ≠ .link target) :
    d.canonicalize (Path.below root (ns ++ [name])) = .ok (p ++ ns ++ [name]) ↔
      d.canonicalize (root ++ "/") = .ok p ∧ d.reaches p = true ∧
        Path.isTooLong (Place.path (p ++ ns ++ [name])) = false := by
  obtain ⟨hw, -⟩ := resolve_eq_ok_iff.1 hroot
  have hleads := leads_names hroot
  obtain ⟨left, -, hmore⟩ := hleads.realFrom_append
  rw [canonicalize_eq d (Path.below_ne_empty hw.ne_empty _) (Path.nul_not_mem_below hw.ne_empty _ hw.no_nul),
    canonicalize_eq d (by simp) (by simpa using hw.no_nul), start_below hw.ne_empty,
    start_append hw.ne_empty, Path.steps_below_concat hw.ne_empty, Path.steps_append_slash, hmore _ (by simp)]
  cases hreal : d.realFrom linkLimit (d.start root) (Path.names root ++ [""]) with
  | error cause => simp [Except.bind]
  | ok q =>
    obtain rfl := (hleads.slash (habove p List.prefix_rfl)).eq_of_realFrom hreal
    simpa [Except.bind] using realFrom_names_eq_ok_iff habove hdirs hn hl

end Below

section Make

variable {d : Disk} {here p : Place}

/-- Nothing is made on the way to a directory that is there. -/
theorem Leads.makeFrom_append {links : Nat} {steps : List String} (h : d.Leads links here steps p)
    (hle : links ≤ linkLimit) (hp : d.isDirectoryAt p = true) (rest : List String) :
    d.makeFrom here (steps ++ rest) = d.makeFrom p rest := by
  induction steps generalizing links here with
  | nil =>
    cases h
    rfl
  | cons step steps ih =>
    have hsteps : d.Leads links here ([step] ++ steps) p := h
    obtain ⟨q, left, hleft, hq, hrest⟩ := hsteps.split
    have hdir : d.isDirectoryAt q = true := by
      cases hrest with
      | arrive => exact hp
      | move hm hr => exact hm.isDirectoryAt
    rw [List.cons_append, makeFrom, (hq.mono hle).trace]
    simp only [hdir, if_true]
    exact ih hrest (Nat.le_trans hleft hle)

private theorem node?_insert_directory (hp : p ≠ []) (mode : Nat) (q : Place) :
    (d.insert p (.directory mode)).node? q = if q = p then some (.directory mode) else d.node? q := by
  rw [node?, entry?_insert d hp, node?]
  split
  · rfl
  · congr 1

/-- At a place there is a directory such as the program makes, or room for one. -/
def HasRoomAt (d : Disk) (p : Place) : Prop :=
  d.node? p = none ∨ d.node? p = some (.directory d.newDirectoryMode)

/-- One step of making: after it the directory of that name is there, and all else is as it was. -/
theorem makeFrom_name {name : Name} (hhere : d.canChange here = true)
    (hroom : d.HasRoomAt (here ++ [name])) :
    ∃ d' : Disk, d.Extends d' ∧
      (∀ q, d'.node? q = if q = here ++ [name] then some (.directory d.newDirectoryMode) else d.node? q) ∧
      ∀ rest, d.makeFrom here (name.text :: rest) = d'.makeFrom (here ++ [name]) rest := by
  have hsearch : d.allows .search here = true := (Bool.and_eq_true_iff.1 hhere).2
  rcases hroom with hn | hn
  · have hnode (q) := @node?_insert_directory d (here ++ [name]) (by simp) d.newDirectoryMode q
    refine ⟨d.insert (here ++ [name]) (.directory d.newDirectoryMode), ⟨rfl, fun q n hq => ?_⟩, hnode,
      fun rest => ?_⟩
    · rw [hnode, if_neg, hq]
      rintro rfl
      rw [hn] at hq
      cases hq
    · rw [makeFrom, trace_absent true hsearch hn]
      simp only [List.dropLast_concat, hhere, if_true]
  · refine ⟨d, .refl d, fun q => ?_, fun rest => ?_⟩
    · split
      · next hq => rw [hq, hn]
      · rfl
    · rw [makeFrom, trace_enter true hsearch hn (by simp), trace]
      simp only [isDirectoryAt_iff.2 ⟨_, hn⟩, if_true]

/-- Making a way of names adds the directories on it, and nothing else. -/
theorem makeFrom_names {ns : List Name} (hown : d.KeepsOwn) (hhere : d.canChange here = true)
    (hroom : ∀ r, r <+: ns → r ≠ [] → d.HasRoomAt (here ++ r)) :
    ∃ made : Disk, d.makeFrom here (ns.map Name.text) = .ok made ∧ d.Extends made ∧
      (∀ r, r <+: ns → r ≠ [] → made.node? (here ++ r) = some (.directory d.newDirectoryMode)) ∧
      ∀ q, (∀ r, r <+: ns → r ≠ [] → q ≠ here ++ r) → made.node? q = d.node? q := by
  induction ns generalizing d here with
  | nil => exact ⟨d, rfl, .refl d, fun r hr hne => absurd (List.prefix_nil.1 hr) hne, fun q _ => rfl⟩
  | cons name ns ih =>
    obtain ⟨d', hext, hd', hrest⟩ := makeFrom_name hhere (hroom [name] (by simp) (by simp))
    have hmode : d'.newDirectoryMode = d.newDirectoryMode := by rw [hext.caller]
    have hname : d'.node? (here ++ [name]) = some (.directory d'.newDirectoryMode) := by
      rw [hd', if_pos rfl, hmode]
    have hown' : d'.KeepsOwn := hext.caller ▸ hown
    have hallows (a : Access) : d'.allows a (here ++ [name]) = true :=
      allows_iff.2 ⟨_, hname, hown'.may_newDirectoryMode a⟩
    have hroom' (r) (hr : r <+: ns) (hne : r ≠ []) : d'.HasRoomAt (here ++ [name] ++ r) := by
      rw [HasRoomAt, hd', if_neg (by simpa using hne), hmode, List.append_assoc]
      exact hroom (name :: r) (List.cons_prefix_cons.2 ⟨rfl, hr⟩) (by simp)
    obtain ⟨made, hmade, hext', hdirs, hothers⟩ :=
      ih hown' (Bool.and_eq_true_iff.2 ⟨hallows .write, hallows .search⟩) hroom'
    refine ⟨made, by rw [List.map_cons, hrest, hmade], hext.trans hext', fun r hr hne => ?_, fun q hq => ?_⟩
    · rcases List.prefix_cons_iff.1 hr with rfl | ⟨rest, rfl, hrest⟩
      · exact absurd rfl hne
      · rw [← List.singleton_append, ← List.append_assoc, ← hmode]
        by_cases hend : rest = []
        · rw [hend, List.append_nil]
          exact hext'.nodes _ _ hname
        · exact hdirs rest hrest hend
    · have hfirst : q ≠ here ++ [name] := hq [name] (by simp) (by simp)
      rw [hothers q fun r hr _ => ?_, hd', if_neg hfirst]
      rw [List.append_assoc]
      exact hq (name :: r) (List.cons_prefix_cons.2 ⟨rfl, hr⟩) (by simp)

theorem makeDirectory_below {root : String} {ns : List Name} {name : Name} (hown : d.KeepsOwn)
    (hroot : d.resolve root = .ok p) (hp : d.canChange p = true)
    (hfits : Path.isTooLong (Path.below root (ns ++ [name])) = false)
    (hroom : ∀ r, r <+: ns ++ [name] → r ≠ [] → d.HasRoomAt (p ++ r)) :
    ∃ made : Disk, d.makeDirectory (Path.below root (ns ++ [name])) = .ok made ∧ d.Extends made ∧
      (∀ r, r <+: ns ++ [name] → r ≠ [] → made.node? (p ++ r) = some (.directory d.newDirectoryMode)) ∧
      ∀ q, (∀ r, r <+: ns ++ [name] → r ≠ [] → q ≠ p ++ r) → made.node? q = d.node? q := by
  obtain ⟨hw, -⟩ := resolve_eq_ok_iff.1 hroot
  have hnul := Path.nul_not_mem_below hw.ne_empty (ns ++ [name]) hw.no_nul
  have hdir : d.isDirectoryAt p = true := isDirectoryAt_of_allows (Bool.and_eq_true_iff.1 hp).1
  rw [makeDirectory, if_neg (by simpa using hnul), hfits, if_neg Bool.false_ne_true,
    Path.steps_below_concat hw.ne_empty, start_below hw.ne_empty,
    (leads_names hroot).makeFrom_append (Nat.le_refl _) hdir]
  exact makeFrom_names hown hp hroom

theorem writeFile_below {root : String} {ns : List Name} {name : Name} (hroot : d.resolve root = .ok p)
    (hfits : Path.isTooLong (Path.below root (ns ++ [name])) = false)
    (hdirs : ∀ q, q <+: ns → d.canChange (p ++ q) = true)
    (hn : d.node? (p ++ ns ++ [name]) = none) (bytes : ByteArray) :
    d.writeFile (Path.below root (ns ++ [name])) bytes =
      .ok (d.insertFile (p ++ ns ++ [name]) ⟨bytes, d.newFileMode⟩) := by
  have hsearch (q) (hq : q <+: ns) : d.allows .search (p ++ q) = true :=
    (Bool.and_eq_true_iff.1 (hdirs q hq)).2
  rw [writeFile, locate_below_absent hroot hfits hsearch hn]
  simp only [List.dropLast_concat, hdirs ns List.prefix_rfl, if_true]

theorem fits_of_writeFile {d' : Disk} {path : String} {bytes : ByteArray}
    (h : d.writeFile path bytes = .ok d') : Path.isTooLong path = false := by
  by_contra hlong
  obtain ⟨e, he⟩ : ∃ e, d.locate true path = .failed e := by
    rw [Bool.not_eq_false] at hlong
    simp only [locate, hlong, if_true]
    split
    · exact ⟨_, rfl⟩
    · split
      · exact ⟨_, rfl⟩
      · exact ⟨_, rfl⟩
  rw [writeFile, he] at h
  cases h

end Make

end Disk

end CommentStrip
