import CommentStrip.Config.Toml
import CommentStrip.Proofs.TomlText

/-!
Options that are written as a document are read back as they were. A document of this kind is a header and
one line for each option that is set.
-/
namespace CommentStrip.Toml

private theorem skipSpace_of_head {cs : List Char} (h : ∀ c ∈ cs.head?, isSpace c = false) : skipSpace cs = cs := by
  cases cs with
  | nil => rfl
  | cons c cs => simp [skipSpace, h c rfl]

/-- A name that needs no quotes. -/
structure BareName where
  text : String
  nonempty : text ≠ ""
  bare : text.toList.all isBareKey = true

namespace BareName

variable (name : BareName)

private theorem exists_cons : ∃ c cs, name.text.toList = c :: cs ∧ isBareKey c = true := by
  cases h : name.text.toList with
  | nil => exact absurd (String.toList_eq_nil_iff.1 h) name.nonempty
  | cons c cs => exact ⟨c, cs, rfl, List.all_eq_true.1 name.bare c (by simp [h])⟩

/-- What a bare name begins with has no other meaning there. -/
theorem head_ne {c d : Char} {rest : List Char} (h : c ∈ (name.text.toList ++ rest).head?)
    (hd : isBareKey d = false) : c ≠ d := by
  obtain ⟨a, cs, hcs, ha⟩ := name.exists_cons
  rintro rfl
  obtain rfl : a = c := by simpa [hcs] using h
  simp [ha] at hd

private theorem skipSpace_append (rest : List Char) :
    skipSpace (name.text.toList ++ rest) = name.text.toList ++ rest := by
  refine skipSpace_of_head fun c hc => ?_
  simp [isSpace, name.head_ne hc (d := ' ') (by decide), name.head_ne hc (d := '\t') (by decide)]

private theorem name?_append {rest : List Char} (h : ∀ c ∈ rest.head?, isBareKey c = false) :
    name? (name.text.toList ++ rest) = some (name.text, rest) := by
  have hends : rest.takeWhile isBareKey = [] ∧ rest.dropWhile isBareKey = rest := by
    cases rest with
    | nil => exact ⟨rfl, rfl⟩
    | cons c rest => simp [h c rfl]
  have hbare := List.all_eq_true.1 name.bare
  have htake : (name.text.toList ++ rest).takeWhile isBareKey = name.text.toList := by
    rw [List.takeWhile_append_of_pos hbare, hends.1, List.append_nil]
  have hdrop : (name.text.toList ++ rest).dropWhile isBareKey = rest := by
    rw [List.dropWhile_append_of_pos hbare, hends.2]
  rw [name?, htake, hdrop]
  · simp [name.nonempty]
  · intro t ht
    exact name.head_ne (by rw [ht]; rfl) (by decide) rfl
  · intro t ht
    exact name.head_ne (by rw [ht]; rfl) (by decide) rfl

private theorem key?_append {rest : List Char} (h : ∀ c ∈ rest.head?, isBareKey c = false)
    (hdot : '.' ∉ (skipSpace rest).head?) :
    key? (name.text.toList ++ rest) = some ([name.text], skipSpace rest) := by
  rw [key?, nestingLimit, names?, name.skipSpace_append, name.name?_append h]
  cases hs : skipSpace rest with
  | nil => simp [hs]
  | cons c cs =>
    have hc : c ≠ '.' := by simpa [hs] using hdot
    simp [hs, hc]

end BareName

/-- A line that gives a value to a name. -/
structure Assignment where
  name : BareName
  written : List Char
  value : Value
  reads : ∀ rest,
    value? (nestingLimit - 1) (skipSpace (written ++ '\n' :: rest)) = some (value, '\n' :: rest)

namespace Assignment

def line (e : Assignment) : List Char := e.name.text.toList ++ ' ' :: '=' :: ' ' :: e.written ++ ['\n']

def statement (e : Assignment) : Statement := .assign [e.name.text] e.value

def pair (e : Assignment) : String × Value := (e.name.text, e.value)

private theorem line_append (e : Assignment) (rest : List Char) :
    e.line ++ rest = e.name.text.toList ++ ' ' :: '=' :: ' ' :: (e.written ++ '\n' :: rest) := by
  simp [line]

private theorem pair?_line (e : Assignment) (rest : List Char) :
    pair? (value? (nestingLimit - 1)) (e.line ++ rest) = some (([e.name.text], e.value), '\n' :: rest) := by
  have hkey : key? (e.line ++ rest) = some ([e.name.text], '=' :: ' ' :: (e.written ++ '\n' :: rest)) := by
    rw [e.line_append]
    exact e.name.key?_append (by simp [isBareKey]) (by simp [skipSpace, isSpace])
  have hblank : skipSpace (' ' :: (e.written ++ '\n' :: rest)) = skipSpace (e.written ++ '\n' :: rest) := rfl
  simp [pair?, hkey, hblank, e.reads]

private theorem statement?_line (e : Assignment) (rest : List Char) :
    statement? (e.line ++ rest) = some (e.statement, rest) := by
  -- a bracket would begin a header
  have hopen (t) : e.line ++ rest ≠ '[' :: t := by
    intro ht
    rw [e.line_append] at ht
    exact e.name.head_ne (by rw [ht]; rfl) (by decide) rfl
  rw [statement?, e.pair?_line]
  · rfl
  · exact fun t => hopen ('[' :: t)
  · exact hopen

end Assignment

def header (name : BareName) : List Char := '[' :: name.text.toList ++ [']', '\n']

private theorem statement?_header (name : BareName) (rest : List Char) :
    statement? (header name ++ rest) = some (.table [name.text], rest) := by
  have hkey : key? (name.text.toList ++ ']' :: '\n' :: rest) = some ([name.text], ']' :: '\n' :: rest) :=
    name.key?_append (by simp [isBareKey]) (by simp [skipSpace, isSpace])
  have hheader : header name ++ rest = '[' :: (name.text.toList ++ ']' :: '\n' :: rest) := by simp [header]
  rw [hheader, statement?, header?, hkey]
  · rfl
  · intro t ht
    exact name.head_ne (by rw [ht]; rfl) (by decide) rfl

/-- A statement that begins where the text does is the first of its statements. -/
theorem statements?_cons {c : Char} {cs rest : List Char} {s : Statement}
    (hc : c ∉ ['\r', '\n', '#', ' ', '\t']) (hs : statement? (c :: cs) = some (s, rest)) (fuel : Nat) :
    statements? (fuel + 1) (c :: cs) = (statements? fuel rest).map (s :: ·) := by
  have hskip : skipFiller false (c :: cs) = c :: cs := by
    simp only [List.mem_cons, List.not_mem_nil, or_false, not_or] at hc
    simp [skipFiller, isSpace, hc]
  rw [statements?, hskip]
  cases hrest : statements? fuel rest <;> simp [hs, hrest]

/-- Each line takes one step of the fuel, and the end of the text the last one. -/
theorem statements?_lines {es : List Assignment} {fuel : Nat} (h : es.length < fuel) :
    statements? fuel (es.flatMap Assignment.line) = some (es.map Assignment.statement) := by
  induction es generalizing fuel with
  | nil =>
    obtain ⟨fuel, rfl⟩ := Nat.exists_eq_succ_of_ne_zero (Nat.ne_of_gt h)
    rfl
  | cons e es ih =>
    obtain ⟨fuel, rfl⟩ := Nat.exists_eq_succ_of_ne_zero (Nat.ne_of_gt (Nat.zero_lt_of_lt h))
    have hs := e.statement?_line (es.flatMap Assignment.line)
    obtain ⟨c, cs, hcs, hc⟩ := e.name.exists_cons
    have hfiller : c ∉ ['\r', '\n', '#', ' ', '\t'] := by
      intro hmem
      have hnot : ['\r', '\n', '#', ' ', '\t'].all (fun d => !isBareKey d) = true := by decide
      have hother := List.all_eq_true.1 hnot c hmem
      simp [hc] at hother
    rw [e.line_append, hcs, List.cons_append] at hs
    rw [List.flatMap_cons, e.line_append, hcs, List.cons_append, statements?_cons hfiller hs,
      ih (Nat.lt_of_succ_lt_succ h)]
    rfl

/-- A document read so far that has the table `name` with these entries, and goes on in it. -/
def Draft.inTable (name : String) (entries : List (String × Value)) : Draft where
  root := ⟨.header, [(name, .table .header entries)]⟩
  current := [name]

private theorem Draft.add_table (name : String) : Draft.add {} (.table [name]) = some (.inTable name []) := rfl

private theorem Table.assign_new {key : String} {v : Value} {entries : List (String × Value)}
    (h : key ∉ entries.map Prod.fst) :
    Table.assign [key] v ⟨.header, entries⟩ = some ⟨.header, entries ++ [(key, v)]⟩ := by
  have hfree (p) (hp : p ∈ entries) : p.1 ≠ key := fun e => h (List.mem_map.2 ⟨p, hp, e⟩)
  have hfind : entries.lookup key = none := by
    rw [List.lookup_eq_none_iff]
    exact fun p hp => by simpa using Ne.symm (hfree p hp)
  have hkept : entries.filter (·.1 != key) = entries := by
    rw [List.filter_eq_self]
    exact fun p hp => by simpa using hfree p hp
  have hnew : insertNew false key v ⟨.header, entries⟩ = some ⟨.header, entries ++ [(key, v)]⟩ := by
    simp [insertNew, find?, hfind, set, hkept]
  exact hnew

private theorem Draft.add_statement {name : String} {entries : List (String × Value)} {e : Assignment}
    (h : e.name.text ∉ entries.map Prod.fst) :
    (Draft.inTable name entries).add e.statement = some (.inTable name (entries ++ [e.pair])) := by
  simp [inTable, Assignment.statement, add, Table.update, Table.find?, Table.assign_new h, Table.set,
    Table.value, Assignment.pair]

/-- Lines with new keys add to the table in their order. -/
theorem Draft.foldlM_add {name : String} {entries : List (String × Value)} {es : List Assignment}
    (h : (entries.map Prod.fst ++ es.map (·.name.text)).Nodup) :
    (es.map Assignment.statement).foldlM Draft.add (.inTable name entries) =
      some (.inTable name (entries ++ es.map Assignment.pair)) := by
  induction es generalizing entries with
  | nil => simp
  | cons e es ih =>
    have hnew : e.name.text ∉ entries.map Prod.fst := fun hm =>
      (List.nodup_append.1 h).2.2 _ hm _ (by simp) rfl
    have hrest : ((entries ++ [e.pair]).map Prod.fst ++ es.map (·.name.text)).Nodup := by
      simpa [Assignment.pair] using h
    rw [List.map_cons, List.foldlM_cons, Draft.add_statement hnew]
    simpa using ih hrest

private theorem Table.ofStatements_assignments (name : String) {es : List Assignment}
    (h : (es.map (·.name.text)).Nodup) :
    Table.ofStatements (.table [name] :: es.map Assignment.statement) =
      some ⟨.header, [(name, .table .header (es.map Assignment.pair))]⟩ := by
  have hrun := @Draft.foldlM_add name [] es h
  rw [List.nil_append] at hrun
  rw [ofStatements, List.foldlM_cons, Draft.add_table, Option.bind_eq_bind, Option.bind_some, hrun]
  rfl

private theorem length_le_lines (es : List Assignment) : es.length ≤ (es.flatMap Assignment.line).length := by
  induction es with
  | nil => exact Nat.le_refl 0
  | cons e es ih =>
    simp only [List.flatMap_cons, List.length_append, List.length_cons, Assignment.line]
    omega

/-- A header and lines below it that name each key once make up one table. -/
theorem document?_assignments (name : BareName) {es : List Assignment} (h : (es.map (·.name.text)).Nodup) :
    document? (String.ofList (header name ++ es.flatMap Assignment.line)) =
      some ⟨.header, [(name.text, .table .header (es.map Assignment.pair))]⟩ := by
  -- what begins with a bracket has no byte order mark
  obtain ⟨cs, hcs⟩ : ∃ cs, header name ++ es.flatMap Assignment.line = '[' :: cs := ⟨_, rfl⟩
  have hfuel : es.length < cs.length + 1 := by
    have hle := length_le_lines es
    have hlen := congrArg List.length hcs
    simp only [header, List.length_append, List.length_cons] at hlen
    omega
  have hread : statements? (cs.length + 1 + 1) ('[' :: cs) =
      some (.table [name.text] :: es.map Assignment.statement) := by
    have hs := statement?_header name (es.flatMap Assignment.line)
    rw [hcs] at hs
    rw [statements?_cons (by decide) hs, statements?_lines hfuel]
    rfl
  rw [hcs, document?, String.toList_ofList]
  simp [hread, Table.ofStatements_assignments name.text h]

/-! The values that options have. -/

private theorem value?_eq_scalar? {c : Char} (h : c ≠ '[' ∧ c ≠ '{') (depth : Nat) (cs : List Char) :
    value? depth (c :: cs) = scalar? (c :: cs) := by
  rw [value?]
  · rintro _ t - ht
    exact h.1 (List.cons.inj ht).1
  · rintro _ t - ht
    exact h.2 (List.cons.inj ht).1

private theorem Text.head_of_read {cs : List Char} {r : List Char × List Char} (h : read cs = some r) :
    ∃ q rest, cs = q :: rest ∧ (q = '"' ∨ q = '\'') := by
  unfold read at h
  split at h
  · exact ⟨_, _, rfl, .inl rfl⟩
  · exact ⟨_, _, rfl, .inl rfl⟩
  · exact ⟨_, _, rfl, .inr rfl⟩
  · exact ⟨_, _, rfl, .inr rfl⟩
  · cases h

def Assignment.ofText (name : BareName) (s : String) : Assignment where
  name
  written := Text.write s.toList
  value := .string s
  reads rest := by
    have hread : Text.read (Text.write s.toList ++ '\n' :: rest) = some (s.toList, '\n' :: rest) :=
      Text.read_write s.toList (by simp) (by simp)
    obtain ⟨q, cs, hcs, hq⟩ := Text.head_of_read hread
    rw [hcs] at hread ⊢
    have hskip : skipSpace (q :: cs) = q :: cs :=
      skipSpace_of_head (by rcases hq with rfl | rfl <;> simp [isSpace])
    rw [hskip, value?_eq_scalar? (by rcases hq with rfl | rfl <;> decide), scalar?, hread]
    simp

def Assignment.ofFlag (name : BareName) (b : Bool) : Assignment where
  name
  written := (toString b).toList
  value := .boolean b
  reads rest := by
    cases b with
    | false =>
      have hw : (toString false).toList = ['f', 'a', 'l', 's', 'e'] := by decide
      rw [hw]
      rfl
    | true =>
      have hw : (toString true).toList = ['t', 'r', 'u', 'e'] := by decide
      rw [hw]
      rfl

end CommentStrip.Toml

namespace CommentStrip.Config

open Toml (BareName Assignment)

def scanName : BareName := ⟨"scan", by decide, by decide⟩

def targetDirName : BareName := ⟨targetDirKey, by decide, by decide⟩

def extensionName : BareName := ⟨extensionKey, by decide, by decide⟩

def followLinksName : BareName := ⟨followLinksKey, by decide, by decide⟩

/-- The options that are set, in the order in which they are written. -/
def assignments (c : Config) : List Assignment :=
  (c.targetDir.map (Assignment.ofText targetDirName)).toList ++
    (c.extension.map (Assignment.ofText extensionName)).toList ++
    (c.followLinks.map (Assignment.ofFlag followLinksName)).toList

private theorem entry_eq (e : Assignment) : entry e.name.text e.written = String.ofList e.line := by
  simp [entry, Assignment.line, String.ofList_append, ← String.toList_inj]

private theorem optional_entry_eq {α : Type} (toAssignment : α → Assignment) (o : Option α) :
    (o.map fun a => entry (toAssignment a).name.text (toAssignment a).written).getD "" =
      String.ofList ((o.map toAssignment).toList.flatMap Assignment.line) := by
  cases o with
  | none => rfl
  | some a => simpa using entry_eq (toAssignment a)

private theorem toToml_eq (c : Config) :
    c.toToml = String.ofList (Toml.header scanName ++ c.assignments.flatMap Assignment.line) := by
  have hheader : String.ofList (Toml.header scanName) = "[scan]\n" := by decide
  simp only [assignments, List.flatMap_append, ← List.append_assoc, String.ofList_append, hheader,
    ← optional_entry_eq]
  rfl

private theorem nodup_assignments (c : Config) : (c.assignments.map (·.name.text)).Nodup := by
  obtain ⟨_ | s, _ | x, _ | b⟩ := c <;>
    simp [assignments, Assignment.ofText, Assignment.ofFlag, targetDirName, extensionName, followLinksName,
      targetDirKey, extensionKey, followLinksKey]

private theorem ofValue?_assignments (c : Config) :
    ofValue? (.table .header (c.assignments.map Assignment.pair)) = some c := by
  obtain ⟨_ | s, _ | x, _ | b⟩ := c <;> rfl

/-- Options that were written are read back as they were, whatever characters are in them. -/
theorem ofToml_toToml (path : String) (c : Config) : ofToml path c.toToml = .ok c := by
  have hdoc := Toml.document?_assignments scanName c.nodup_assignments
  rw [← toToml_eq] at hdoc
  simp [ofToml, hdoc, Toml.Table.find?, scanName, ofValue?_assignments]

end CommentStrip.Config
