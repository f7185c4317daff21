import TraitTrace.Json.Parser
import TraitTrace.Settings.Issue

/-! Settings from the environment. A variable names a section, or after further double underscores
what is inside it; letter case does not count. Sections and the list of log outputs are given as
JSON, all else as text. -/

namespace TraitTrace.Settings

def sectionSettings : List (String × List String) :=
  [("logging", ["level", "outputs"]),
    ("render", ["color", "charset", "message_format", "show_source", "tab_width"])]

namespace Environment

def mark : String := "cgplens__"

def lowered (s : String) : String := String.ofList (s.toList.map Char.toLower)

/-- The variables by their names in lower case; of two with one name the last counts. -/
def valueTable (given : List (String × String)) : Table String String :=
  Table.ofWrites (given.map fun (name, value) => (lowered name, value))

def names : List String :=
  (sectionSettings.flatMap fun (sectionName, settings) =>
    (mark ++ sectionName) :: settings.map fun s => mark ++ sectionName ++ "__" ++ s).map fun name =>
      String.ofList (name.toList.map Char.toUpper)

def after? (start text : List Char) : Option (List Char) :=
  if start.isPrefixOf text then some (text.drop start.length) else none

def pieces : List Char → List Char → List String
  | piece, [] => [String.ofList piece.reverse]
  | piece, '_' :: '_' :: s => String.ofList piece.reverse :: pieces [] s
  | piece, c :: s => pieces (c :: piece) s

/-- Writes a value at the end of a way of names. Where something other than an object is in the way,
nothing is written. -/
def assign (members : Json.Members) : List String → Json → Json.Members
  | [], _ => members
  | [name], value => Table.set members name value
  | name :: names, value =>
    match Table.get? members name with
    | none => Table.set members name (.obj (assign [] names value))
    | some (.obj inner) => Table.set members name (.obj (assign inner names value))
    | some _ => members

/-- Why the variables of a section cannot be read: one is not JSON, or is nested too deep. -/
inductive Flaw where
  | notJson (sectionName : String)
  | tooDeep (what : Json.Container)

def jsonValue (sectionName text : String) : Except Flaw Json :=
  match Json.parse text with
  | .ok v => .ok v
  | .error (.tooDeep what) => .error (.tooDeep what)
  | .error _ => .error (.notJson sectionName)

/-- The value of a variable by the way to it in a section: the list of log outputs is JSON unless it
is empty, all else is text. -/
def valueAt (sectionName : String) (way : List String) (text : String) : Except Flaw Json :=
  if sectionName = "logging" ∧ way = ["outputs"] ∧ text ≠ "" then jsonValue sectionName text
  else .ok (.str text)

def inside (vars : Table String String) (sectionName : String) : Except Flaw Json.Members :=
  vars.foldlM (fun members (name, text) =>
    match after? (mark ++ sectionName ++ "__").toList name.toList with
    | none => .ok members
    | some rest =>
      let way := pieces [] rest
      (valueAt sectionName way text).map (assign members way)) []

def nameSettings (names : List String) (members : Json.Members) : Json.Members :=
  Table.ofWrites (members.map fun (name, value) =>
    (if names.contains (lowered name) then lowered name else name, value))

def section? (vars : Table String String) (sectionName : String) : Except Flaw (Option Json) :=
  match Table.get? vars (mark ++ sectionName) with
  | none => (inside vars sectionName).map fun members =>
      if members.isEmpty then none else some (.obj members)
  | some text =>
    match jsonValue sectionName text with
    | .error f => .error f
    | .ok (.obj members) =>
      (inside vars sectionName).map fun inner => some (.obj (Json.mergeMembers members inner))
    | .ok .null => .ok none
    | .ok v => .ok (some v)

def namedSection (names : List String) : Json → Json
  | .obj members => .obj (nameSettings names members)
  | v => v

def settings (given : List (String × String)) : Except Flaw Json.Members :=
  let vars := valueTable given
  sectionSettings.foldlM (fun members (sectionName, names) =>
    match section? vars sectionName with
    | .error f => .error f
    | .ok none => .ok members
    | .ok (some v) => .ok (Table.set members sectionName (namedSection names v))) []

example : (pieces [] "outputs__0__level".toList, pieces [] "".toList, pieces [] "a___b".toList) =
    (["outputs", "0", "level"], [""], ["a", "_b"]) := by decide +kernel

end Environment

end TraitTrace.Settings
