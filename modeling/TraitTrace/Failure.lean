import TraitTrace.Datum.Inspect

/-! Failures with a code: those that users can act on, and the wrapping of what they cannot. Codes
from 2000 concern settings, those from 3000 the analysis, and those from 9000 the program itself. -/

namespace TraitTrace

inductive Failure where
  | settingsUnreadable (path reason : String)
  | settingInvalid (field : String) (value : Datum) (reason : String)
  | inconsistentContext (expected : Option String) (found place : String)
  | sessionFinalized (runId : String)
  | unexpected (reason : String) (details : Json.Members)

namespace Failure

def code : Failure → Int
  | settingsUnreadable .. => 2001
  | settingInvalid .. => 2002
  | inconsistentContext .. => 3001
  | sessionFinalized _ => 3002
  | unexpected .. => 9001

def name : Failure → String
  | settingsUnreadable .. => "CONFIG_PARSE_ERROR"
  | settingInvalid .. => "CONFIG_INVALID_VALUE"
  | inconsistentContext .. => "ANALYSIS_INCONSISTENT_CONTEXT"
  | sessionFinalized _ => "ANALYSIS_SESSION_FINALIZED"
  | unexpected .. => "INTERNAL_ERROR"

def message : Failure → String
  | settingsUnreadable path reason => s!"Failed to parse config at {path}: {reason}"
  | settingInvalid field _ reason => s!"Invalid value for '{field}': {reason}"
  | inconsistentContext expected found place =>
    s!"Context `{found}` in {place} disagrees with `" ++ expected.getD "None" ++ "`"
  | sessionFinalized runId => s!"Analysis session {runId} was already finalized"
  | unexpected reason _ => s!"Internal error: {reason}"

def details : Failure → Json.Members
  | settingsUnreadable path reason => [("path", .str path), ("reason", .str reason)]
  | settingInvalid field value reason =>
    [("field", .str field), ("value", .str value.shown), ("reason", .str reason)]
  | inconsistentContext expected found place =>
    [("expected", .ofOption expected), ("found", .str found), ("where", .str place)]
  | sessionFinalized runId => [("run_id", .str runId)]
  | unexpected _ details => details

def text (f : Failure) : String := s!"[{f.code}] {f.name}: {f.message}"

end Failure

end TraitTrace
