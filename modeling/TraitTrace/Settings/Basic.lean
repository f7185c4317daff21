import TraitTrace.Event
import TraitTrace.Report.Tree

/-! Settings: how reports are rendered and where the log goes. -/

namespace TraitTrace

/-- When output is coloured; automatic leaves it to the terminal. -/
inductive ColorMode where
  | automatic
  | always
  | never
  deriving DecidableEq, Repr

/-- What a run prints: rendered text, or the messages of the stream. -/
inductive MessageFormat where
  | human
  | json
  deriving DecidableEq, Repr

inductive LogFormat where
  | json
  | console
  deriving DecidableEq, Repr

inductive Destination where
  | stderr
  | stdout
  | file (path : String)
  deriving DecidableEq, Repr

abbrev TabWidth := { n : Int // 1 ≤ n ∧ n ≤ 16 }

structure RenderSettings where
  color : ColorMode := .automatic
  charset : Charset := .unicode
  messageFormat : MessageFormat := .human
  showSource : Bool := true
  tabWidth : TabWidth := ⟨4, by decide⟩

/-- One output of the log. Without a level of its own it has that of the log. -/
structure LogOutput where
  format : LogFormat := .console
  destination : Destination := .stderr
  level : Option LogLevel := none

structure LogSettings where
  level : LogLevel := .warning
  outputs : List LogOutput := [{}]

structure Settings where
  logging : LogSettings := {}
  render : RenderSettings := {}

def LogLevel.setting : LogLevel → String
  | debug => "DEBUG"
  | info => "INFO"
  | warning => "WARNING"
  | error => "ERROR"
  | critical => "CRITICAL"

def Charset.setting : Charset → String
  | unicode => "unicode"
  | ascii => "ascii"

def ColorMode.setting : ColorMode → String
  | automatic => "auto"
  | always => "always"
  | never => "never"

def MessageFormat.setting : MessageFormat → String
  | human => "human"
  | json => "json"

def LogFormat.setting : LogFormat → String
  | json => "json"
  | console => "console"

def Destination.setting : Destination → String
  | stderr => "stderr"
  | stdout => "stdout"
  | file path => path

/-- The name of a log level in capitals, as settings have it. A dotless i is an i without its
dot. -/
def LogLevel.capitals (s : String) : String :=
  String.ofList (s.toList.map fun c => if c = 'ı' then 'I' else c.toUpper)

namespace Settings

def outputJson (o : LogOutput) : Json :=
  .obj [("format", .str o.format.setting), ("destination", .str o.destination.setting),
    ("level", .ofOption (o.level.map LogLevel.setting))]

def loggingJson (l : LogSettings) : Json :=
  .obj [("level", .str l.level.setting), ("outputs", .arr (l.outputs.map outputJson))]

def renderJson (r : RenderSettings) : Json :=
  .obj [("color", .str r.color.setting), ("charset", .str r.charset.setting),
    ("message_format", .str r.messageFormat.setting), ("show_source", .bool r.showSource),
    ("tab_width", .int r.tabWidth.val)]

def toJson (s : Settings) : Json :=
  .obj [("logging", loggingJson s.logging), ("render", renderJson s.render)]

end Settings

end TraitTrace
