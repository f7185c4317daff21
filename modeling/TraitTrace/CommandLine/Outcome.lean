import TraitTrace.CommandLine.Arguments
import TraitTrace.CommandLine.Terminal
import TraitTrace.Log
import TraitTrace.Run
import TraitTrace.Settings.Load

/-! The outcome of the command: what it prints, what it logs, and its exit code. It is one where an
error was seen, or where the settings or the run failed. -/

namespace TraitTrace.CommandLine

structure Outcome where
  exitCode : Nat
  stdout : String
  stderr : String
  log : LogSettings
  entries : List LogEntry

def versionText : String := "cgp-lens, version 0.1.0\n"

/-- The log before settings are loaded, and instead of theirs in a verbose run. -/
def initialLog (verbose : Bool) : LogSettings :=
  .onStderr (if verbose then .debug else .warning) .console

def errorText (s : String) : String := (Output.line ("Error: " ++ s)).text .bare

/-- What is printed where settings cannot be loaded: nothing, unless the failure has a code. -/
def loadErrorText : Settings.LoadError → String
  | .failed f => errorText f.text
  | .notYaml path => errorText (Failure.settingsUnreadable path "not a YAML document").text
  | _ => ""

/-- The message of a fault. It points to the log file, where there is one. -/
def faultText (log : LogSettings) (f : Fault) : String :=
  let reason := if f.message.isEmpty then f.kind else f.message
  let failure : Failure := .unexpected reason [("error_type", .str f.kind)]
  match log.firstFile? with
  | some path => s!"{failure.text}. See {path} for details."
  | none => failure.text

def Request.runOutcome (r : Request) (s : Settings) (terminal : Terminal) (runId input : String) :
    Outcome :=
  let log := if r.verbose then initialLog true else s.logging
  let ended := Run.ofText s.render runId input
  let palette := terminal.palette s.render.color
  let stdout := String.join (ended.run.outputs.map (Output.text palette))
  let entries := ended.run.events.map LogEntry.ofEvent
  match ended.fault with
  | none => ⟨if ended.run.sawError then 1 else 0, stdout, "", log, entries⟩
  | some f =>
    ⟨1, stdout, errorText (faultText log f), log,
      entries ++ [.ofEvent (.renderFailed f.kind f.message)]⟩

def Request.outcome (r : Request) (sources : Settings.Sources) (terminal : Terminal)
    (runId input : String) : Outcome :=
  match Settings.load { sources with given := r.given } with
  | .error e => ⟨1, "", loadErrorText e, initialLog r.verbose, []⟩
  | .ok s => r.runOutcome s terminal runId input

end TraitTrace.CommandLine
