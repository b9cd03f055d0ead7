import CommentStrip.Config.Load
import CommentStrip.Log.Filter
import CommentStrip.Run

/-! The command: loads its options, strips the files, and says on the console what it did. -/

namespace CommentStrip.Command

def version : String := "0.1.0"

def logTarget : String := "decomment"

def doneLine : String := "Done removing comments from all files."

/-- What an event adds to the output. -/
def line? : Event → Option String
  | .started .. => none
  | .processed file => some ("Processed: " ++ file.path)
  | .failed e => some ("Error processing " ++ e.path ++ ": " ++ e.cause.message)
  | .complete _ => some doneLine

/-- Everything that a call of the command brings about. -/
structure Outcome where
  disk : Disk
  exitCode : Nat
  output : List String
  /-- The reason for not starting. -/
  refusal : Option ConfigError
  records : List Log.Record

/-- A text of several lines, each after the first set in as far as `margin`. -/
def indent (margin text : String) : String :=
  ("\n" ++ margin).intercalate ((text.toList.splitOn '\n').map String.ofList)

/-- Reasons, each the cause of the one before, numbered where there are several. -/
def causes : List String → List String
  | [text] => ["    " ++ indent "    " text]
  | texts => texts.zipIdx.map fun (text, n) => "    " ++ toString n ++ ": " ++ indent "       " text

/-- What is said of a configuration that cannot be used. -/
def refusalText (base : String) (e : ConfigError) : String :=
  "Error: invalid configuration in " ++ base ++ "\n\nCaused by:\n" ++
    "\n".intercalate (causes (e.message :: e.cause?.toList.map IoError.message)) ++ "\n"

def startRecord (base : String) : Log.Record :=
  ⟨.debug, logTarget, "resolved base directory",
    [("version", "\"" ++ version ++ "\""), ("base", base)]⟩

/-- The lines that a run puts out. -/
def lines (r : Run) : List String :=
  match r.outcome with
  | .ok _ => r.events.filterMap line?
  | .error e => [e.message]

/-- Runs the command for a program that lives in the directory `base`. -/
def call (d : Disk) (base : String) (env : Environment) : Outcome :=
  let told := (Log.Filter.ofVariable env.log).tells
  match Config.load d base env with
  | .error e => ⟨d, 1, [], some e, [startRecord base].filter told⟩
  | .ok c =>
    let r := run d base c
    ⟨r.disk, 0, lines r, none, (startRecord base :: r.records).filter told⟩

/-- The lines of the output, each with its end. -/
def Outcome.outputText (o : Outcome) : String := String.join (o.output.map (· ++ "\n"))

end CommentStrip.Command
