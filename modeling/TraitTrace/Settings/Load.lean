import TraitTrace.Failure
import TraitTrace.Settings.Check
import TraitTrace.Settings.Environment
import TraitTrace.Text.Line
import TraitTrace.Yaml.Meaning

/-! Loading settings. What is given directly counts over the environment, the environment over the
project's settings file, and that over the user's. Only the first issue is reported. -/

namespace TraitTrace.Settings

structure SettingsFile where
  path : String
  text : Option String

structure Sources where
  user : SettingsFile
  project : SettingsFile
  environment : List (String × String)
  given : Json.Members
  homes : FilePath.Homes

inductive LoadError where
  | failed (f : Failure)
  | notYaml (path : String)
  /-- A value in a settings file has no meaning, or one in the environment is nested too deep. -/
  | fault (f : Fault)
  | notJson (sectionName : String)
  | nameless
  | homeless

def notJsonMessage (sectionName : String) : String :=
  s!"error parsing value for field \"{sectionName}\" from source \"EnvSettingsSource\""

def namelessMessage : String := "keywords must be strings"

/-- What a settings file says: nothing where it is absent or its document is empty. -/
def SettingsFile.read (file : SettingsFile) : Except LoadError Datum.Entries :=
  match file.text with
  | none => .ok []
  | some text =>
    match Yaml.read (Text.unifyNewlines text.toList) with
    | .error .malformed => .error (.notYaml file.path)
    | .error (.fault f) => .error (.fault f)
    | .ok (.map _ entries) => .ok entries
    | .ok v =>
      if v.isTruthy then
        .error (.failed (.settingsUnreadable file.path "top level must be a mapping"))
      else .ok []

def filed (user project : SettingsFile) : Except LoadError Datum.Entries := do
  let lower ← user.read
  let upper ← project.read
  return Datum.mergeEntries lower upper

/-- What is given directly, with the names of sections in lower case. Of several spellings of one
section the first counts. -/
def nameSections (given : Json.Members) : Json.Members :=
  given.foldl (fun named (name, value) =>
    let lowered := Environment.lowered name
    let name := if (sectionSettings.lookup lowered).isSome then lowered else name
    if Table.has named name then named else Table.set named name value) []

def refusalError : Refusal → LoadError
  | .unknownHome => .homeless
  | .issues i _ => .failed (.settingInvalid i.placeText i.input i.complaint.message)

def load (s : Sources) : Except LoadError Settings := do
  let files ← filed s.user s.project
  let environment ←
    match Environment.settings s.environment with
    | .error (.notJson sectionName) => .error (.notJson sectionName)
    | .error (.tooDeep what) => .error (.fault (.deepNesting what))
    | .ok members => .ok members
  let others := Json.mergeMembers environment (nameSections s.given)
  if Datum.Entries.hasTextKeys files then
    let all := Datum.mergeEntries files (Datum.ofMembers others)
    match ofEntries (s.homes.inEnvironment s.environment) all with
    | .ok settings => return settings
    | .error r => .error (refusalError r)
  else .error .nameless

end TraitTrace.Settings
