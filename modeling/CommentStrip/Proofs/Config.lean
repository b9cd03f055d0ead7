import CommentStrip.Config.Load
import CommentStrip.Proofs.Below
import Mathlib.Data.List.TakeWhile

/-! The options in force: what comes of a file with options and of the variables that override them. -/
namespace CommentStrip

/-- The text that a variable is set to. -/
def Environment.value? (settings : List (String × ByteArray)) (name : String) : Option String :=
  (settings.lookup name).bind String.fromUTF8?

namespace Config

theorem toList_bareExtension {extension : String} {dots : Nat} {bare : List Char}
    (h : extension.toList = List.replicate dots '.' ++ bare) (hbare : bare.head? ≠ some '.') :
    (bareExtension extension).toList = bare := by
  rw [bareExtension, String.toList_ofList, h, List.dropWhile_append_of_pos (by simp)]
  cases bare with
  | nil => rfl
  | cons c bare =>
    have hc : c ≠ '.' := fun hc => hbare (congrArg some hc)
    simp [hc]

theorem head?_bareExtension_ne (extension : String) :
    (bareExtension extension).toList.head? ≠ some '.' := by
  rw [bareExtension, String.toList_ofList]
  intro h
  have hdot := List.head?_dropWhile_not (· == '.') extension.toList
  rw [h] at hdot
  simp at hdot

theorem exists_dots (extension : String) :
    ∃ dots, extension.toList = List.replicate dots '.' ++ (bareExtension extension).toList := by
  have hdots : extension.toList.takeWhile (· == '.') =
      List.replicate (extension.toList.takeWhile (· == '.')).length '.' := by
    refine List.eq_replicate_of_mem fun c hc => ?_
    simpa using List.all_eq_true.1 List.all_takeWhile c hc
  refine ⟨(extension.toList.takeWhile (· == '.')).length, ?_⟩
  rw [← hdots, bareExtension, String.toList_ofList, List.takeWhile_append_dropWhile]

private theorem bareExtension_ne_empty_iff {extension : String} :
    bareExtension extension ≠ "" ↔ ∃ c ∈ extension.toList, c ≠ '.' := by
  rw [bareExtension, ne_eq, ← String.toList_inj, String.toList_ofList]
  simp [List.dropWhile_eq_nil_iff]

/-- The options that are set at a path: those of the document there, or none if nothing is there. -/
inductive SetAt (d : Disk) (path : String) : Config → Prop where
  | absent (h : d.pathExists path = false) : SetAt d path {}
  | read {text : String} {c : Config} (htext : d.readText path = .ok text) (hc : ofToml path text = .ok c) :
    SetAt d path c

/-- The options of a file where variables do not set others. A flag is set by the two words for truth values
only. -/
structure Overrides (settings : List (String × ByteArray)) (file c : Config) : Prop where
  targetDir : c.targetDir = (Environment.value? settings Environment.targetDirName).or file.targetDir
  extension : c.extension = (Environment.value? settings Environment.extensionName).or file.extension
  followLinks : c.followLinks =
    if Environment.value? settings Environment.followLinksName = some "true" then some true
    else if Environment.value? settings Environment.followLinksName = some "false" then some false
    else file.followLinks

private theorem overrides_merge (settings : List (String × ByteArray)) (file : Config) :
    Overrides settings file (merge file (Environment.ofVariables settings).config) := by
  refine ⟨rfl, rfl, ?_⟩
  have hvalue : (Environment.ofVariables settings).followLinks =
      Environment.value? settings Environment.followLinksName := rfl
  simp only [merge, Environment.config, hvalue]
  split
  · rfl
  · split <;> rfl

/-- The extension, if one is set, is more than dots. -/
def HasUsableExtension (c : Config) : Prop :=
  ∀ extension, c.extension = some extension → ∃ ch ∈ extension.toList, ch ≠ '.'

section Validate

variable {c : Config}

private theorem any_extension_iff : c.extension.any (bareExtension · == "") = true ↔ ¬ c.HasUsableExtension := by
  cases hx : c.extension with
  | none => simp [HasUsableExtension, hx]
  | some extension => simp [HasUsableExtension, hx, ← bareExtension_ne_empty_iff]

private theorem validate_of_unusable (h : ¬ c.HasUsableExtension) :
    c.validate = .error (.invalid "scan.extension" "must not be empty") := by
  rw [validate, if_pos (any_extension_iff.2 h)]

private theorem validate_of_empty (h : c.HasUsableExtension) (hd : c.targetDir = some "") :
    c.validate = .error (.invalid "scan.target_dir" "must not be empty") := by
  rw [validate, if_neg fun hx => any_extension_iff.1 hx h, if_pos (by simpa using hd)]

private theorem validate_of_usable (h : c.HasUsableExtension) (hd : c.targetDir ≠ some "") :
    c.validate = .ok () := by
  rw [validate, if_neg fun hx => any_extension_iff.1 hx h, if_neg (by simpa using hd)]

private theorem usable_of_validate (hv : c.validate = .ok ()) : c.HasUsableExtension ∧ c.targetDir ≠ some "" := by
  by_cases h : c.HasUsableExtension
  · refine ⟨h, fun hd => ?_⟩
    rw [validate_of_empty h hd] at hv
    cases hv
  · rw [validate_of_unusable h] at hv
    cases hv

private theorem exists_invalid {e : ConfigError} (hv : c.validate = .error e) :
    ∃ field reason, e = .invalid field reason := by
  rw [validate] at hv
  split at hv
  · exact ⟨_, _, (Except.error.inj hv).symm⟩
  · split at hv
    · exact ⟨_, _, (Except.error.inj hv).symm⟩
    · cases hv

private theorem effectiveExtension_of_usable (h : c.HasUsableExtension) :
    c.effectiveExtension ≠ "" ∧ c.effectiveExtension.toList.head? ≠ some '.' := by
  cases hx : c.extension with
  | none =>
    rw [effectiveExtension, hx]
    decide
  | some extension =>
    rw [effectiveExtension, hx]
    exact ⟨bareExtension_ne_empty_iff.2 (h extension hx), head?_bareExtension_ne extension⟩

private theorem effectiveTargetDir_ne (h : c.targetDir ≠ some "") : c.effectiveTargetDir ≠ "" := by
  cases hd : c.targetDir with
  | none =>
    rw [effectiveTargetDir, hd]
    decide
  | some dir =>
    rw [effectiveTargetDir, hd]
    rintro rfl
    exact h hd

end Validate

section Load

variable {d : Disk} {base : String} {file : Config} {e : ConfigError}

/-- What cannot be read as options is reported under the path of the text. -/
theorem exists_malformed {path text : String} (h : ofToml path text = .error e) :
    ∃ reason, e = .malformed path reason := by
  rw [ofToml] at h
  split at h
  · exact ⟨_, (Except.error.inj h).symm⟩
  · split at h
    · cases h
    · split at h
      · cases h
      · exact ⟨_, (Except.error.inj h).symm⟩

theorem SetAt.ofFile (h : SetAt d (Path.join base fileName) file) : ofFile d base = .ok file := by
  cases h with
  | absent h => simp [Config.ofFile, h]
  | read htext hc =>
    obtain ⟨p, f, hl⟩ := Disk.readText_eq_ok_iff.1 htext
    simp [Config.ofFile, Disk.pathExists, hl.resolves, Except.toOption, htext, hc]

/-- The file is refused if it is there and cannot be read, or if its text does not set options. -/
theorem ofFile_eq_error_iff :
    ofFile d base = .error e ↔ d.pathExists (Path.join base fileName) = true ∧
      ((∃ cause, d.readText (Path.join base fileName) = .error cause ∧
          e = .unreadable (Path.join base fileName) cause) ∨
        ∃ text, d.readText (Path.join base fileName) = .ok text ∧
          ofToml (Path.join base fileName) text = .error e) := by
  cases hx : d.pathExists (Path.join base fileName) with
  | false => simp [ofFile, hx]
  | true => cases ht : d.readText (Path.join base fileName) <;> simp [ofFile, hx, ht, eq_comm]

private theorem load_of_ofFile (h : ofFile d base = .ok file) (env : Environment) :
    load d base env = (merge file env.config).validate.map fun _ => merge file env.config := by
  rw [load, h]
  simp only [bind, Except.bind, pure, Except.pure]
  cases (merge file env.config).validate <;> rfl

private theorem load_of_ofFile_error (h : ofFile d base = .error e) (env : Environment) :
    load d base env = .error e := by
  rw [load, h]
  rfl

/-- Every reason to refuse the options, except for a value that is not valid, lies in the file, whatever the
variables are. -/
theorem load_eq_error_iff {env : Environment} (he : ∀ field reason, e ≠ .invalid field reason) :
    load d base env = .error e ↔ ofFile d base = .error e := by
  refine ⟨fun hload => ?_, fun h => load_of_ofFile_error h env⟩
  cases hfile : ofFile d base with
  | error e' => rwa [load_of_ofFile_error hfile] at hload
  | ok file =>
    rw [load_of_ofFile hfile] at hload
    cases hv : (merge file env.config).validate with
    | ok u =>
      rw [hv] at hload
      cases hload
    | error e' =>
      rw [hv] at hload
      cases hload
      obtain ⟨field, reason, rfl⟩ := exists_invalid hv
      exact absurd rfl (he field reason)

private theorem validate_of_load {env : Environment} {c : Config} (h : load d base env = .ok c) :
    c.validate = .ok () := by
  cases hfile : ofFile d base with
  | error e =>
    rw [load_of_ofFile_error hfile] at h
    cases h
  | ok file =>
    rw [load_of_ofFile hfile] at h
    cases hv : (merge file env.config).validate with
    | error e =>
      rw [hv] at h
      cases h
    | ok u =>
      rw [hv] at h
      cases h
      exact hv

end Load

/-- The outcome of gathering the options. A file that is there and is not text, or not options, is refused
whatever the variables are. Otherwise the variables override the file's options, and only then are the
values checked, the extension first. What passes names files and a directory. -/
theorem load_outcome (d : Disk) (base : String) (settings : List (String × ByteArray)) :
    let path := Path.join base fileName
    let outcome := load d base (.ofVariables settings)
    (∀ p cause, outcome = .error (.unreadable p cause) ↔
      p = path ∧ d.pathExists path = true ∧ d.readText path = .error cause) ∧
    (∀ p, (∃ reason, outcome = .error (.malformed p reason)) ↔
      p = path ∧ d.pathExists path = true ∧
        ∃ text, d.readText path = .ok text ∧ ∀ c, ofToml path text ≠ .ok c) ∧
    (∀ file, SetAt d path file → ∃ c, Overrides settings file c ∧
      (c.HasUsableExtension → c.targetDir ≠ some "" → outcome = .ok c) ∧
      (¬ c.HasUsableExtension → outcome = .error (.invalid "scan.extension" "must not be empty")) ∧
      (c.HasUsableExtension → c.targetDir = some "" →
        outcome = .error (.invalid "scan.target_dir" "must not be empty"))) ∧
    ∀ c, outcome = .ok c → c.effectiveExtension ≠ "" ∧ c.effectiveExtension.toList.head? ≠ some '.' ∧
      c.effectiveTargetDir ≠ "" := by
  intro path outcome
  refine ⟨fun p cause => ?_, fun p => ?_, fun file hfile => ?_, fun c hc => ?_⟩
  · rw [load_eq_error_iff (by simp), ofFile_eq_error_iff]
    constructor
    · rintro ⟨hx, ⟨cause', hcause, he⟩ | ⟨text, -, htoml⟩⟩
      · cases he
        exact ⟨rfl, hx, hcause⟩
      · obtain ⟨reason, he⟩ := exists_malformed htoml
        cases he
    · rintro ⟨rfl, hx, hcause⟩
      exact ⟨hx, .inl ⟨cause, hcause, rfl⟩⟩
  · constructor
    · rintro ⟨reason, hload⟩
      rw [load_eq_error_iff (by simp), ofFile_eq_error_iff] at hload
      obtain ⟨hx, ⟨cause, -, he⟩ | ⟨text, htext, htoml⟩⟩ := hload
      · cases he
      · obtain ⟨reason', he⟩ := exists_malformed htoml
        cases he
        refine ⟨rfl, hx, text, htext, fun c hc => ?_⟩
        rw [htoml] at hc
        cases hc
    · rintro ⟨rfl, hx, text, htext, hno⟩
      cases htoml : ofToml path text with
      | ok c => exact absurd htoml (hno c)
      | error e =>
        obtain ⟨reason, rfl⟩ := exists_malformed htoml
        exact ⟨reason, load_of_ofFile_error (ofFile_eq_error_iff.2 ⟨hx, .inr ⟨text, htext, htoml⟩⟩) _⟩
  · have hload := load_of_ofFile hfile.ofFile (.ofVariables settings)
    refine ⟨_, overrides_merge settings file, fun h hd => ?_, fun h => ?_, fun h hd => ?_⟩
    · exact hload.trans (by rw [validate_of_usable h hd]; rfl)
    · exact hload.trans (by rw [validate_of_unusable h]; rfl)
    · exact hload.trans (by rw [validate_of_empty h hd]; rfl)
  · obtain ⟨h, hd⟩ := usable_of_validate (validate_of_load hc)
    obtain ⟨hne, hhead⟩ := effectiveExtension_of_usable h
    exact ⟨hne, hhead, effectiveTargetDir_ne hd⟩

end Config

namespace Refused

abbrev fileEntry : Name := ⟨Config.fileName, by decide⟩

/-- A file with options of which two are not valid. -/
def text : String := "[scan]\nextension = \"..\"\ntarget_dir = \"\"\nfollow_symlinks = true\n"

def disk : Disk where
  entries := [([fileEntry], .file 1)]
  files := fun _ => ⟨text.toUTF8, 0o644⟩

theorem readText : disk.readText (Path.join "/" Config.fileName) = .ok text := by
  have hpath : Path.join "/" Config.fileName = "/decomment.toml" ∧
      Path.steps "/decomment.toml" = [fileEntry.text] := by decide
  have hresolve : disk.resolve "/decomment.toml" = .ok [fileEntry] := by
    refine Disk.resolve_eq_ok_iff.2 ⟨by decide, ?_⟩
    rw [hpath.2, Disk.start_eq_nil rfl]
    exact .move (.enter _ [] fileEntry _ rfl rfl (by simp [Disk.view])) (.arrive _ _)
  rw [hpath.1]
  exact Disk.readText_eq_ok_iff.2 ⟨_, _, hresolve, rfl, by decide, File.text?_toUTF8 _ _⟩

/-- Two variables in place of the values that are not valid, and one with a word that sets no flag. -/
def settings : List (String × ByteArray) :=
  [("DECOMMENT_EXTENSION", ".txt".toUTF8), ("DECOMMENT_TARGET_DIR", "src".toUTF8),
    ("DECOMMENT_FOLLOW_SYMLINKS", "FALSE".toUTF8)]

private theorem values : Environment.value? settings Environment.targetDirName = some "src" ∧
    Environment.value? settings Environment.extensionName = some ".txt" ∧
    Environment.value? settings Environment.followLinksName = some "FALSE" := by
  have htext (text : String) : String.fromUTF8? text.toUTF8 = some text := File.text?_toUTF8 0 text
  simp [Environment.value?, settings, List.lookup_cons, Environment.targetDirName, Environment.extensionName,
    Environment.followLinksName, htext, -String.toUTF8_eq_toByteArray]

/-- The values of the file that are not valid do no harm, as they are not in force. -/
theorem load_outcome_overridden :
    Config.SetAt disk (Path.join "/" Config.fileName) ⟨some "", some "..", some true⟩ ∧
      Config.load disk "/" (.ofVariables settings) = .ok ⟨some "src", some ".txt", some true⟩ := by
  have hset : Config.SetAt disk (Path.join "/" Config.fileName) ⟨some "", some "..", some true⟩ :=
    .read readText (by decide)
  obtain ⟨-, -, hfile, -⟩ := Config.load_outcome disk "/" settings
  obtain ⟨⟨targetDir, extension, followLinks⟩, ⟨htarget, hextension, hfollow⟩, hok, -⟩ := hfile _ hset
  obtain ⟨htarget', hextension', hfollow'⟩ := values
  rw [htarget'] at htarget
  rw [hextension'] at hextension
  rw [hfollow', if_neg (by decide), if_neg (by decide)] at hfollow
  obtain rfl : targetDir = some "src" := htarget
  obtain rfl : extension = some ".txt" := hextension
  obtain rfl : followLinks = some true := hfollow
  refine ⟨hset, hok (fun extension hx => ?_) (by decide)⟩
  obtain rfl : ".txt" = extension := Option.some.inj hx
  exact ⟨'t', by decide⟩

end Refused

end CommentStrip
