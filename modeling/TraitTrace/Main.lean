import Std.Time
import TraitTrace.CommandLine.Outcome

/-! The command as a program: reads arguments, files and the environment, and writes what the
outcome says. -/

namespace TraitTrace.CommandLine

def fileText? (path : String) : IO (Option String) := do
  try
    return some (← IO.FS.readFile path)
  catch _ =>
    return none

partial def readRest (stream : IO.FS.Stream) (text : String) : IO String := do
  let line ← stream.getLine
  if line.isEmpty then return text
  else readRest stream (text ++ line)

def environment : IO (List (String × String)) :=
  ("HOME" :: Terminal.variableNames ++ Settings.Environment.names).filterMapM fun name => do
    return (← IO.getEnv name).map fun value => (name, value)

def timeText : IO String := do
  return (← Std.Time.PlainDateTime.now).format "uuuu-MM-dd HH:mm:ss"

def newRunId : IO String := do
  let bytes ← IO.getRandomBytes 6
  return String.ofList (bytes.toList.flatMap fun b => Text.hexPadded 2 b.toNat)

def LogLine.text : LogLine → String
  | .json members => (Json.obj members).render .spaced ++ "\n"
  | .console text => text ++ "\n"

def writeLog (o : Outcome) (runId : String) (d : Destination) (put : String → IO Unit) :
    IO Unit := do
  put (String.join ((o.log.written d (← timeText) (some runId) o.entries).map LogLine.text))

def append (path text : String) : IO Unit := do
  let p := Settings.FilePath.ofText path
  IO.FS.createDirAll { p with parts := p.parts.dropLast : Settings.FilePath }.text
  let file ← IO.FS.Handle.mk path .append
  file.putStr text

def write (o : Outcome) (runId : String) : IO UInt32 := do
  writeLog o runId .stderr IO.eprint
  writeLog o runId .stdout IO.print
  for path in o.log.files do
    writeLog o runId (.file path) (append path)
  IO.print o.stdout
  IO.eprint o.stderr
  return o.exitCode.toUInt32

def answer (r : Request) : IO UInt32 := do
  let home := (← IO.getEnv "HOME").getD "/"
  let directory := (← IO.currentDir).toString
  let given ← environment
  let user := Request.userSettingsPath home
  let project := r.settingsPath directory
  let sources : Settings.Sources :=
    ⟨⟨user, ← fileText? user⟩, ⟨project, ← fileText? project⟩, given, [], ⟨home, []⟩⟩
  let input ←
    match r.inputPath? with
    | some path => IO.FS.readFile path
    | none => readRest (← IO.getStdin) ""
  let runId ← newRunId
  let terminal := Terminal.ofEnvironment given (← (← IO.getStdout).isTty)
  write (r.outcome sources terminal runId input) runId

end TraitTrace.CommandLine

def main (args : List String) : IO UInt32 := do
  match TraitTrace.CommandLine.command? args with
  | some .version =>
    IO.print TraitTrace.CommandLine.versionText
    return 0
  | some (.render r) => TraitTrace.CommandLine.answer r
  | none =>
    IO.eprintln "usage: cgp-lens [-v] render [OPTION ...] [FILE]"
    return 2
