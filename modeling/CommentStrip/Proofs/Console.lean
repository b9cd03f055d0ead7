import CommentStrip.Command
import CommentStrip.Proofs.Report

/-! What a call of the command comes to: its exit code, the lines it puts out, and the disk it leaves. -/
namespace CommentStrip.Command

/-- The line about a file that was tried. -/
def fileLine (a : Attempt) : String :=
  match a.outcome with
  | .ok _ => "Processed: " ++ a.path
  | .error e => "Error processing " ++ a.path ++ ": " ++ e.cause.message

private theorem line?_event {d : Disk} {files : List String} {a : Attempt} (ha : a ∈ (d.processAll files).1) :
    line? a.event = some (fileLine a) := by
  obtain ⟨i, hi⟩ := List.mem_iff_getElem?.1 ha
  rw [Disk.getElem?_processAll, Option.map_eq_some_iff] at hi
  obtain ⟨path, -, rfl⟩ := hi
  cases hr : ((d.atTurn files i).process path).1 with
  | ok file => simp [Attempt.event, line?, fileLine, Disk.path_of_process_ok hr]
  | error e => simp [Attempt.event, line?, fileLine, Disk.path_of_process_error hr]

/-- One line for each file that was found, and one at the end. -/
theorem lines_runIn {d : Disk} {dir : String} (h : d.pathExists dir = true) (c : Config) :
    lines (runIn d dir c) = (d.processAll (filesBelow d dir c)).1.map fileLine ++ [doneLine] := by
  have hfiles : ((d.processAll (filesBelow d dir c)).1.map Attempt.event).filterMap line? =
      (d.processAll (filesBelow d dir c)).1.map fileLine := by
    rw [List.filterMap_map, ← List.filterMap_eq_map]
    exact List.filterMap_congr fun a => line?_event
  rw [lines, runIn_outcome h]
  simp only [runIn_events h, List.cons_append, List.filterMap_cons, line?, List.filterMap_append, hfiles,
    List.filterMap_nil]

private theorem lines_runIn_of_not_exists {d : Disk} {dir : String} (h : d.pathExists dir = false) (c : Config) :
    lines (runIn d dir c) = ["Directory not found: " ++ dir] := by
  rw [lines, runIn, h]
  rfl

private theorem call_of_load_error {d : Disk} {base : String} {env : Environment} {e : ConfigError}
    (h : Config.load d base env = .error e) :
    (call d base env).exitCode = 1 ∧ (call d base env).output = [] ∧ (call d base env).disk = d := by
  unfold call
  rw [h]
  exact ⟨rfl, rfl, rfl⟩

private theorem call_of_load_ok {d : Disk} {base : String} {env : Environment} {c : Config}
    (h : Config.load d base env = .ok c) :
    (call d base env).exitCode = 0 ∧ (call d base env).output = lines (run d base c) ∧
      (call d base env).disk = (run d base c).disk := by
  unfold call
  rw [h]
  exact ⟨rfl, rfl, rfl⟩

/-- The options do not depend on what is to be logged. -/
theorem load_log (d : Disk) (base : String) (env : Environment) (log : Option String) :
    Config.load d base { env with log } = Config.load d base env := rfl

/-- A call fails just when its options cannot be loaded; then it puts out nothing and changes nothing.
Otherwise it leaves what the run leaves. It puts out one line if there is no directory to work in, and
else one for each file that was found, in their order, and one at the end. What is logged does not matter
to any of this. -/
theorem call_outcome (d : Disk) (base : String) (env : Environment) :
    let o := call d base env
    (o.exitCode ≠ 0 ↔ ∃ e, Config.load d base env = .error e) ∧
    (o.exitCode ≠ 0 → o.output = [] ∧ o.disk = d) ∧
    (∀ c, Config.load d base env = .ok c →
      let dir := c.resolveTargetDir base
      let files := filesBelow d dir c
      o.exitCode = 0 ∧ o.disk = (run d base c).disk ∧
      (d.pathExists dir = false → o.output = ["Directory not found: " ++ dir]) ∧
      (d.pathExists dir = true → ∃ said,
        o.output = said ++ ["Done removing comments from all files."] ∧ said.length = files.length ∧
        ∀ i path, files[i]? = some path →
          (∀ file, ((d.atTurn files i).process path).1 = .ok file →
            said[i]? = some ("Processed: " ++ path)) ∧
          (∀ e, ((d.atTurn files i).process path).1 = .error e →
            said[i]? = some ("Error processing " ++ path ++ ": " ++ e.cause.message)))) ∧
    ∀ log, let o' := call d base { env with log }
      o'.exitCode = o.exitCode ∧ o'.output = o.output ∧ o'.disk = o.disk := by
  intro o
  cases hload : Config.load d base env with
  | error e =>
    obtain ⟨hcode, hout, hdisk⟩ := call_of_load_error hload
    refine ⟨by simp [o, hcode], fun _ => ⟨hout, hdisk⟩, by simp, fun log => ?_⟩
    obtain ⟨hcode', hout', hdisk'⟩ := call_of_load_error ((load_log d base env log).trans hload)
    exact ⟨hcode'.trans hcode.symm, hout'.trans hout.symm, hdisk'.trans hdisk.symm⟩
  | ok c =>
    obtain ⟨hcode, hout, hdisk⟩ := call_of_load_ok hload
    refine ⟨by simp [o, hcode], fun h => absurd hcode h, fun c' hc => ?_, fun log => ?_⟩
    · obtain rfl := Except.ok.inj hc
      refine ⟨hcode, hdisk, fun h => hout.trans (lines_runIn_of_not_exists h c), fun h => ?_⟩
      refine ⟨_, hout.trans (lines_runIn h c), by rw [List.length_map, Disk.length_processAll],
        fun i path hi => ⟨fun file hf => ?_, fun e he => ?_⟩⟩
      · rw [List.getElem?_map, Disk.getElem?_processAll, hi]
        simp [fileLine, hf]
      · rw [List.getElem?_map, Disk.getElem?_processAll, hi]
        simp [fileLine, he]
    · obtain ⟨hcode', hout', hdisk'⟩ := call_of_load_ok ((load_log d base env log).trans hload)
      exact ⟨hcode'.trans hcode.symm, hout'.trans hout.symm, hdisk'.trans hdisk.symm⟩

end CommentStrip.Command

namespace CommentStrip.Mixed

open Command

theorem load : Config.load disk "/" { targetDir := some "lib" } = .ok { targetDir := some "lib" } := by
  have hjoin : Path.join "/" Config.fileName = "/decomment.toml" := by decide
  have hsteps : Path.steps "/decomment.toml" = ["decomment.toml"] := by decide
  have habs : Path.isAbsolute "/decomment.toml" = true := by decide
  have hname : Name.ofText? "decomment.toml" = some ⟨"decomment.toml", by decide⟩ := by decide
  have hentry : disk.entry? [⟨"decomment.toml", by decide⟩] = none := by decide
  have hdir : disk.isDirectoryAt [] = true ∧ disk.allows .search [] = true := by decide
  have hsize : Path.isTooLong "/decomment.toml" = false ∧ ¬ 255 < "decomment.toml".utf8ByteSize := by decide
  have hresolve : disk.resolve "/decomment.toml" = .error .noSuchFile := by
    simp [Disk.resolve, Disk.locate, Disk.start, Disk.linkLimit, Disk.trace, Lookup.place, Name.sizeLimit, hsteps,
      habs, hname, hentry, hdir, hsize]
  have hfile : Config.ofFile disk "/" = .ok {} := by
    simp [Config.ofFile, hjoin, Disk.pathExists, hresolve, Except.toOption]
  rw [Config.load, hfile]
  decide

/-- The lines about failures and about a file that is stripped stand in the order of the files. -/
theorem call_outcome_between_failures :
    let o := call disk "/" { targetDir := some "lib" }
    o.exitCode = 0 ∧ o.output =
      ["Error processing /lib/lost.dart: No such file or directory (os error 2)",
        "Processed: /lib/open.dart", "Error processing /lib/shut.dart: file is read-only",
        "Done removing comments from all files."] := by
  intro o
  obtain ⟨-, -, hcall, -⟩ := call_outcome disk "/" { targetDir := some "lib" }
  obtain ⟨hcode, -, -, hsaid⟩ := hcall _ load
  have hdir : Config.resolveTargetDir { targetDir := some "lib" } "/" = "/lib" := by decide
  rw [hdir, filesBelow_lib rfl rfl] at hsaid
  obtain ⟨said, hout, hlen, hturn⟩ := hsaid pathExists_lib
  obtain ⟨hlost, hplain, hlocked⟩ := turns
  refine ⟨hcode, ?_⟩
  have hlines : said = ["Error processing /lib/lost.dart: No such file or directory (os error 2)",
      "Processed: /lib/open.dart", "Error processing /lib/shut.dart: file is read-only"] := by
    refine List.ext_getElem? fun i => ?_
    match i with
    | 0 => exact (hturn 0 _ rfl).2 _ hlost
    | 1 => exact (hturn 1 _ rfl).1 _ hplain
    | 2 => exact (hturn 2 _ rfl).2 _ hlocked
    | i + 3 => simp [hlen]
  rw [hout, hlines]
  rfl

end CommentStrip.Mixed
