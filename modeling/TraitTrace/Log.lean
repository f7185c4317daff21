import TraitTrace.Datum.Inspect
import TraitTrace.Settings.Basic
import TraitTrace.Text.Blank

/-! The log: what is written to its outputs. An output takes the entries that are as severe as the
log's level and its own, and writes each as a JSON object or as a line for reading. -/

namespace TraitTrace

structure LogEntry where
  level : LogLevel
  logger : String
  name : String
  fields : Json.Members

namespace LogEntry

def callWords : List (String × LogLevel) :=
  [("debug", .debug), ("info", .info), ("msg", .info), ("warning", .warning), ("warn", .warning),
    ("error", .error), ("exception", .error), ("critical", .critical), ("fatal", .critical)]

/-- The entry made under a word, if there is such a word. An exception is marked as one, unless its
fields say otherwise. A logger without a name is the root. -/
def ofCall? (word logger name : String) (fields : Json.Members) : Option LogEntry :=
  (callWords.lookup word).map fun level =>
    let fields :=
      if word = "exception" && !Table.has fields "exc_info" then
        Table.set fields "exc_info" (.bool true)
      else fields
    ⟨level, if logger.isEmpty then "root" else logger, name, fields⟩

def ofEvent (e : Event) : LogEntry := ⟨e.level, e.logger, e.name, e.fields⟩

/-- The fields of an entry, with the number of the run unless they have one. -/
def runFields (e : LogEntry) (runId : Option String) : Json.Members :=
  match runId with
  | none => e.fields
  | some id =>
    if Table.has e.fields "run_id" then e.fields else Table.set e.fields "run_id" (.str id)

def members (e : LogEntry) (time : String) (runId : Option String) : Json.Members :=
  [("event", Json.str e.name), ("logger", .str e.logger), ("level", .str e.level.word),
    ("timestamp", .str time)].foldl (fun t m => Table.set t m.1 m.2) (e.runFields runId)

def quotedFor : List Char := [' ', '\t', '=', '\r', '\n', '"', '\'']

/-- A value in a log line: text is bare unless a character asks for quotes. -/
def fieldText : Json → String
  | .str s => if s.toList.any quotedFor.contains then Text.quoted s else s
  | v => (Datum.ofJson v).inspect

def placed : List String :=
  ["event", "logger", "level", "timestamp", "logger_name", "stack", "exception", "exc_info"]

/-- The first line of an entry for reading, with the fields in the order of their names. Empty parts
are left out. -/
def headline (e : LogEntry) (time : String) (fields : Json.Members) : String :=
  let source := ((Table.get? fields "logger_name").map fun v =>
    "[" ++ (Datum.ofJson v).shown ++ "]").toList
  let others := fields.filter fun (k, _) => !placed.contains k
  let sorted := others.mergeSort fun a b => a.1 ≤ b.1
  let parts := [time, s!"[{e.level.word}]", e.name, s!"[{e.logger}]"] ++ source ++
    sorted.map fun (k, v) => k ++ "=" ++ fieldText v
  String.ofList (Text.trimRight (· == ' ')
    (" ".intercalate (parts.filter fun part => !part.isEmpty)).toList)

def rule : String := String.ofList (List.replicate 79 '=')

/-- What stands below the first line of an entry for reading: a stack and an exception. -/
def details (fields : Json.Members) : String :=
  let text? (name : String) : Option String := (Table.get? fields name).bind Json.str?
  let isFailing := ((Table.get? fields "exc_info").map Json.isTruthy).getD false
  let error := text? "exception"
  let stack :=
    match text? "stack" with
    | none => ""
    | some s => "\n" ++ s ++ if isFailing || error.isSome then "\n\n" ++ rule ++ "\n" else ""
  stack ++ (error.map fun s => "\n" ++ s).getD ""

def line (e : LogEntry) (time : String) (runId : Option String) : String :=
  e.headline time (e.runFields runId) ++ details (e.runFields runId)

end LogEntry

inductive LogLine where
  | json (members : Json.Members)
  | console (text : String)

namespace LogSettings

def threshold (s : LogSettings) (o : LogOutput) : Nat :=
  max s.level.severity ((o.level.map LogLevel.severity).getD 0)

def linesOf (s : LogSettings) (d : Destination) (time : String) (runId : Option String)
    (e : LogEntry) : List LogLine :=
  (s.outputs.filter fun o => o.destination = d && s.threshold o ≤ e.level.severity).map fun o =>
    match o.format with
    | .json => .json (e.members time runId)
    | .console => .console (e.line time runId)

def written (s : LogSettings) (d : Destination) (time : String) (runId : Option String)
    (entries : List LogEntry) : List LogLine :=
  entries.flatMap (s.linesOf d time runId)

def fileOf? (o : LogOutput) : Option String :=
  match o.destination with
  | .file path => some path
  | _ => none

def files (s : LogSettings) : List String := (s.outputs.filterMap fileOf?).eraseDups

def firstFile? (s : LogSettings) : Option String := s.files.head?

def onStderr (level : LogLevel) (format : LogFormat) : LogSettings :=
  ⟨level, [⟨format, .stderr, none⟩]⟩

end LogSettings

end TraitTrace
