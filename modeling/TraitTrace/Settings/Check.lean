import TraitTrace.Decimal.Whole
import TraitTrace.Settings.Basic
import TraitTrace.Settings.FilePath
import TraitTrace.Settings.Issue
import TraitTrace.Text.Utf8

/-! Checking settings given as data. Every setting of a section is checked, and the issues stand in
the order of the settings. Integers and truth values are read leniently, and bytes count as the text
they are. Settings that a section does not know are ignored, except at the top of a settings
file. -/

namespace TraitTrace.Settings

def choice {α : Type} (word : α → String) (choices : List α) (v : Datum) : Checked α :=
  match v.text?.bind fun s => choices.find? fun a => word a == s with
  | some a => .ok a
  | none => Checked.refuse (.notAmong (choices.map word)) v

def fits64 (n : Int) : Bool := n.natAbs < 0x8000000000000000

def integerText (s : String) (v : Datum) : Checked Int :=
  match Decimal.wholeInt s.toList with
  | .ok n => .ok n
  | .error .tooLong => Checked.refuse .oversizedInteger v
  | .error .unreadable => Checked.refuse .unreadableInteger v

/-- An integer: given as one, as a truth value, as a double without a fraction, or as text. -/
def integer (v : Datum) : Checked Int :=
  match v with
  | .atom (.int n) => .ok n
  | .atom (.bool b) => .ok (if b then 1 else 0)
  | .atom (.float bits) =>
    if Decimal.isFinite bits then
      match Decimal.integral? bits with
      | some n => if fits64 n then .ok n else Checked.refuse .oversizedInteger v
      | none => Checked.refuse .fractionalInteger v
    else Checked.refuse .infiniteNumber v
  | .atom (.text s) => integerText s v
  | .atom (.bytes l) =>
    match Text.utf8? l with
    | some s => integerText s v
    | none => Checked.refuse .unreadableInteger v
  | _ => Checked.refuse .notInteger v

def trueWords : List String := ["1", "on", "t", "true", "y", "yes"]

def falseWords : List String := ["0", "off", "f", "false", "n", "no"]

def truthOfInt (n : Int) (v : Datum) : Checked Bool :=
  if n = 0 then .ok false else if n = 1 then .ok true else Checked.refuse .unreadableTruth v

def truthText (s : String) (v : Datum) : Checked Bool :=
  let word := String.ofList (s.toList.map Char.toLower)
  if trueWords.contains word then .ok true
  else if falseWords.contains word then .ok false
  else Checked.refuse .unreadableTruth v

def truth (v : Datum) : Checked Bool :=
  match v with
  | .atom (.bool b) => .ok b
  | .atom (.int n) => if fits64 n then truthOfInt n v else Checked.refuse .notTruth v
  | .atom (.float bits) =>
    match (Decimal.integral? bits).filter fits64 with
    | some n => truthOfInt n v
    | none => Checked.refuse .notTruth v
  | .atom (.text s) => truthText s v
  | .atom (.bytes l) =>
    match Text.utf8? l with
    | some s => truthText s v
    | none => Checked.refuse .unreadableTruth v
  | _ => Checked.refuse .notTruth v

def tabWidth (v : Datum) : Checked TabWidth :=
  match integer v with
  | .error r => .error r
  | .ok n =>
    if h : 1 ≤ n ∧ n ≤ 16 then .ok ⟨n, h⟩
    else Checked.refuse (.rule s!"tab_width must be 1-16, got {n}") v

/-- A log destination as text: a standard stream by its name, or an absolute path. -/
def destinationText (homes : FilePath.Homes) (s : String) (v : Datum) : Checked Destination :=
  if s = "stderr" then .ok .stderr
  else if s = "stdout" then .ok .stdout
  else
    match (FilePath.ofText s).expandHome homes with
    | .error .unknown => .error .unknownHome
    | .error .unsearchable => Checked.refuse (.rule "embedded null byte") v
    | .ok p =>
      if p.isAbsolute then .ok (.file p.text)
      else Checked.refuse (.rule s!"File destination must be absolute path: {s}") v

def destination (homes : FilePath.Homes) (v : Datum) : Checked Destination :=
  match v with
  | .atom (.text s) => destinationText homes s v
  | .atom (.bytes l) =>
    match Text.utf8? l with
    | some s => destinationText homes s v
    | none => Checked.refuse .undecodableText v
  | _ => Checked.refuse .notText v

def levels : List LogLevel := [.debug, .info, .warning, .error, .critical]

def ownLevel (v : Datum) : Checked (Option LogLevel) :=
  match v with
  | .atom .null => .ok none
  | v => (choice LogLevel.setting levels v).map some

def setting {α : Type} (given : Datum.Entries) (name : String) (fallback : α)
    (check : Datum → Checked α) : Checked α :=
  match given.value? (.text name) with
  | some v => Checked.within (.key name) (check v)
  | none => .ok fallback

def sectionEntries (name : String) (v : Datum) : Checked Datum.Entries :=
  match v with
  | .map _ given => .ok given
  | v => Checked.refuse (.notSection name) v

def logOutput (homes : FilePath.Homes) (v : Datum) : Checked LogOutput :=
  (sectionEntries "LogOutputConfig" v).bind fun given =>
    let format := setting given "format" .console (choice LogFormat.setting [.json, .console])
    let place := setting given "destination" .stderr (destination homes)
    let level := setting given "level" none ownLevel
    Checked.both (fun (f, d) l => ⟨f, d, l⟩) (Checked.both Prod.mk format place) level

def items? : Datum → Option (List Datum)
  | .list _ items => some items
  | .tuple items => some items
  | .set members => some (members.map .atom)
  | _ => none

def logOutputs (homes : FilePath.Homes) (v : Datum) : Checked (List LogOutput) :=
  match items? v with
  | some items =>
    Checked.all (items.zipIdx.map fun (o, i) => Checked.within (.index i) (logOutput homes o))
  | none => Checked.refuse .notList v

def logSettings (homes : FilePath.Homes) (v : Datum) : Checked LogSettings :=
  (sectionEntries "LoggingConfig" v).bind fun given =>
    Checked.both LogSettings.mk
      (setting given "level" LogLevel.warning (choice LogLevel.setting levels))
      (setting given "outputs" [{}] (logOutputs homes))

def renderSettings (v : Datum) : Checked RenderSettings :=
  (sectionEntries "RenderConfig" v).bind fun given =>
    let defaults : RenderSettings := {}
    let color := setting given "color" defaults.color
      (choice ColorMode.setting [.automatic, .always, .never])
    let charset := setting given "charset" defaults.charset
      (choice Charset.setting [.unicode, .ascii])
    let format := setting given "message_format" defaults.messageFormat
      (choice MessageFormat.setting [.human, .json])
    let showSource := setting given "show_source" defaults.showSource truth
    let tabs := setting given "tab_width" defaults.tabWidth tabWidth
    let drawing := Checked.both Prod.mk (Checked.both Prod.mk color charset) format
    Checked.both (fun (((c, s), f), b) t => ⟨c, s, f, b, t⟩)
      (Checked.both Prod.mk drawing showSource) tabs

def sections (homes : FilePath.Homes) (given : Datum.Entries) : Checked Settings :=
  Checked.both Settings.mk (setting given "logging" {} (logSettings homes))
    (setting given "render" {} renderSettings)

def ofDatum (homes : FilePath.Homes) (v : Datum) : Checked Settings :=
  (sectionEntries "CgpLensConfig" v).bind (sections homes)

def unknownSettings (given : Datum.Entries) : List Issue :=
  given.filterMap fun (k, _, v) =>
    match k with
    | .text name =>
      if name = "logging" ∨ name = "render" then none else some ⟨[.key name], .unknown, v⟩
    | _ => none

def ofEntries (homes : FilePath.Homes) (given : Datum.Entries) : Checked Settings :=
  let unknown : Checked Unit :=
    match unknownSettings given with
    | [] => .ok ()
    | i :: more => .error (.issues i more)
  Checked.both (fun s _ => s) (sections homes given) unknown

end TraitTrace.Settings
