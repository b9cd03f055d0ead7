import CommentStrip.Discovery
import CommentStrip.Process

/-! Stripping all files below a directory, and the report on it. -/

namespace CommentStrip

/-- A file that was tried, and what came of it. -/
structure Attempt where
  path : String
  outcome : Except FileError Processed

structure Report where
  targetDir : String
  processed : List Processed := []
  failures : List (String × FileError) := []
  deriving Inhabited

namespace Report

def isClean (r : Report) : Bool := r.failures.isEmpty

def filesSeen (r : Report) : Nat := r.processed.length + r.failures.length

def filesChanged (r : Report) : Nat := r.processed.countP (·.changed)

/-- The report on a list of attempts. -/
def ofAttempts (targetDir : String) (attempts : List Attempt) : Report where
  targetDir
  processed := attempts.filterMap fun a => a.outcome.toOption
  failures := attempts.filterMap fun a =>
    match a.outcome with
    | .error e => some (a.path, e)
    | .ok _ => none

def logTarget : String := "decomment_core::runner"

def record (r : Report) : Log.Record :=
  ⟨.info, logTarget, "run complete", [("target_dir", r.targetDir),
    ("processed", toString r.processed.length), ("changed", toString r.filesChanged),
    ("failed", toString r.failures.length)]⟩

end Report

/-- What happens in a run, as it is told to whoever watches. -/
inductive Event where
  | started (targetDir : String) (count : Nat)
  | processed (file : Processed)
  | failed (error : FileError)
  | complete (report : Report)

namespace Attempt

def event (a : Attempt) : Event :=
  match a.outcome with
  | .ok file => .processed file
  | .error e => .failed e

def record (a : Attempt) : Log.Record :=
  match a.outcome with
  | .ok file => file.record
  | .error e =>
    ⟨.warn, Report.logTarget, "file left unmodified", [("path", a.path), ("error", e.message)]⟩

end Attempt

/-- A run: what it left behind, what came of it, and what was told on the way. -/
structure Run where
  disk : Disk
  outcome : Except RunError Report
  events : List Event := []
  records : List Log.Record := []

/-- Strips files one after the other. -/
def Disk.processAll (d : Disk) : List String → List Attempt × Disk
  | [] => ([], d)
  | path :: rest =>
    let (outcome, next) := d.process path
    let (attempts, final) := next.processAll rest
    (⟨path, outcome⟩ :: attempts, final)

/-- Strips all wanted files below `dir`. -/
def runIn (d : Disk) (dir : String) (c : Config) : Run :=
  if d.pathExists dir then
    let discovery := (Search.ofConfig dir c).discover d
    let (attempts, final) := d.processAll discovery.files
    let report := Report.ofAttempts dir attempts
    { disk := final
      outcome := .ok report
      events :=
        .started dir discovery.files.length :: attempts.map Attempt.event ++ [.complete report]
      records := discovery.records ++ attempts.map Attempt.record ++ [report.record] }
  else { disk := d, outcome := .error (.directoryNotFound dir) }

/-- Strips all wanted files below the configured directory, for a program that lives in `base`. -/
def run (d : Disk) (base : String) (c : Config) : Run := runIn d (c.resolveTargetDir base) c

end CommentStrip
