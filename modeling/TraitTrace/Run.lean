import TraitTrace.Highlight.Printer
import TraitTrace.Json.Printer
import TraitTrace.Message
import TraitTrace.Session
import TraitTrace.Settings.Basic
import TraitTrace.Text.Line

/-! Runs: the lines of a build stream go through one session. What carries no diagnostic, or one
that is let through, is put out at once; the reports of the held diagnostics follow at the end. -/

namespace TraitTrace

inductive Output where
  | line (text : String)
  | diagnostic (text : String)

/-- A run so far. Held diagnostics keep their messages, by the numbers of the diagnostics. -/
structure Run where
  session : Session
  held : List (Int × Message)
  outputs : List Output
  events : List Event
  sawError : Bool

/-- The outcome of a run: what it came to, and the fault that ended it, if one did. -/
structure Ended where
  run : Run
  fault : Option Fault

namespace Run

def start (runId : String) : Run := ⟨.start runId, [], [], [], false⟩

def put (r : Run) (o : Output) : Run := { r with outputs := r.outputs ++ [o] }

def asJson (s : RenderSettings) : Bool := s.messageFormat = .json

/-- Takes a message without a diagnostic. For reading, JSON objects are left out. -/
def pass (s : RenderSettings) (r : Run) (m : Message) : Run :=
  let r :=
    match m.parseError with
    | some e => { r with events := r.events ++ [.lineUnparsed e] }
    | none => r
  if asJson s || m.envelope.isNone then r.put (.line m.line) else r

def take (s : RenderSettings) (r : Run) (m : Message) (d : Diagnostic) : Ended :=
  let i := r.session.take d
  let next := { r with session := i.session, events := r.events ++ i.events }
  match i.outcome with
  | .error fault => ⟨next, some fault⟩
  | .ok c =>
    if c.held then ⟨{ next with held := r.held ++ [((r.session.nextSeq : Int), m)] }, none⟩
    else
      let next := { next with sawError := r.sawError || d.isError }
      ⟨next.put (if asJson s then .line m.line else .diagnostic d.text), none⟩

def step (s : RenderSettings) (r : Run) (line : String) : Ended :=
  match Message.parse line with
  | .error fault => ⟨r, some fault⟩
  | .ok m =>
    match m.diagnostic with
    | none => ⟨r.pass s m, none⟩
    | some d => r.take s m d

def steps (s : RenderSettings) (r : Run) : List String → Ended
  | [] => ⟨r, none⟩
  | line :: lines =>
    match r.step s line with
    | ⟨r, none⟩ => r.steps s lines
    | ended => ended

def envelope? (r : Run) (report : Report) : Option Message :=
  report.sources.head?.bind fun source => r.held.lookup source.seq

def diagnosticLine (envelope : Option Message) (d : Diagnostic) : String :=
  match envelope with
  | some m => (Json.obj (m.withDiagnostic d)).render .spaced
  | none =>
    (Json.obj [("reason", .str Message.compilerMessage), ("message", d.toJson)]).render .spaced

/-- A report as a line of the stream, in the envelope of its first source. A report that lets its
source through is the line of that source. -/
def reportLine (r : Run) (report : Report) : Except Fault String :=
  match report.isPassThrough, r.envelope? report with
  | true, some m => .ok m.line
  | _, envelope => report.emit.map (diagnosticLine envelope)

def reportOutput (s : RenderSettings) (r : Run) (report : Report) : Except Fault Output :=
  if asJson s then (r.reportLine report).map .line
  else (report.draw s.showSource s.tabWidth.val).map .diagnostic

def putReports (s : RenderSettings) (r : Run) : List Report → Ended
  | [] => ⟨r, none⟩
  | report :: reports =>
    match r.reportOutput s report with
    | .error fault => ⟨r, some fault⟩
    | .ok o => putReports s { r.put o with sawError := r.sawError || report.isError } reports

def finish (s : RenderSettings) (r : Run) : Ended :=
  let f := r.session.conclude s.charset
  let next := { r with session := f.session, events := r.events ++ f.events }
  match f.reports with
  | .error fault => ⟨next, some fault⟩
  | .ok reports => next.putReports s reports

def ofLines (s : RenderSettings) (runId : String) (lines : List String) : Ended :=
  match (Run.start runId).steps s (lines.filter fun l => !Text.isBlankText l) with
  | ⟨r, none⟩ => r.finish s
  | ended => ended

def ofText (s : RenderSettings) (runId input : String) : Ended :=
  ofLines s runId (Text.streamLines input)

end Run

namespace Output

def isParameter (c : Char) : Bool := '0' ≤ c && c ≤ '?'

def isIntermediate (c : Char) : Bool := ' ' ≤ c && c ≤ '/'

def afterCode? : List Char → Option (List Char)
  | '[' :: s =>
    match (s.dropWhile isParameter).dropWhile isIntermediate with
    | c :: rest => if '@' ≤ c && c ≤ '~' then some rest else none
    | [] => none
  | _ => none

/-- A text without the terminal codes in it; `skip` characters belong to a code. -/
def bareFrom : Nat → List Char → List Char
  | _, [] => []
  | skip + 1, _ :: s => bareFrom skip s
  | 0, c :: s =>
    if c = '\x1b' then
      match afterCode? s with
      | some rest => bareFrom (s.length - rest.length) s
      | none => c :: bareFrom 0 s
    else c :: bareFrom 0 s

/-- An output as it is printed. Lines lose the terminal codes in them. -/
def text (palette : Palette) : Output → String
  | line s => String.ofList (bareFrom 0 s.toList) ++ "\n"
  | diagnostic s => Highlight.render palette s

end Output

end TraitTrace
