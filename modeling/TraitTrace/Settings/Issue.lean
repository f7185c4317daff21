import TraitTrace.Datum.Basic

/-! Issues: what is wrong with a value in the settings, where it stands, and the value itself. -/

namespace TraitTrace.Settings

inductive Place where
  | key (name : String)
  | index (i : Nat)
  deriving DecidableEq, Repr

def Place.text : Place → String
  | key name => name
  | index i => toString i

inductive Complaint where
  | notAmong (words : List String)
  | notInteger
  | unreadableInteger
  | fractionalInteger
  | oversizedInteger
  | infiniteNumber
  | notTruth
  | unreadableTruth
  | notText
  | undecodableText
  | notList
  | notSection (sectionName : String)
  | rule (text : String)
  | unknown
  deriving DecidableEq, Repr

namespace Complaint

def wordList : List String → String
  | [] => ""
  | [w] => s!"'{w}'"
  | [v, w] => s!"'{v}' or '{w}'"
  | w :: ws => s!"'{w}', " ++ wordList ws

def name : Complaint → String
  | notAmong _ => "literal_error"
  | notInteger => "int_type"
  | unreadableInteger => "int_parsing"
  | fractionalInteger => "int_from_float"
  | oversizedInteger => "int_parsing_size"
  | infiniteNumber => "finite_number"
  | notTruth => "bool_type"
  | unreadableTruth => "bool_parsing"
  | notText => "string_type"
  | undecodableText => "string_unicode"
  | notList => "list_type"
  | notSection _ => "model_type"
  | rule _ => "value_error"
  | unknown => "extra_forbidden"

def message : Complaint → String
  | notAmong words => "Input should be " ++ wordList words
  | notInteger => "Input should be a valid integer"
  | unreadableInteger => "Input should be a valid integer, unable to parse string as an integer"
  | fractionalInteger => "Input should be a valid integer, got a number with a fractional part"
  | oversizedInteger => "Unable to parse input string as an integer, exceeded maximum size"
  | infiniteNumber => "Input should be a finite number"
  | notTruth => "Input should be a valid boolean"
  | unreadableTruth => "Input should be a valid boolean, unable to interpret input"
  | notText => "Input should be a valid string"
  | undecodableText =>
    "Input should be a valid string, unable to parse raw data as a unicode string"
  | notList => "Input should be a valid list"
  | notSection name => "Input should be a valid dictionary or instance of " ++ name
  | rule text => "Value error, " ++ text
  | unknown => "Extra inputs are not permitted"

end Complaint

structure Issue where
  place : List Place
  complaint : Complaint
  input : Datum

def Issue.placeText (i : Issue) : String := ".".intercalate (i.place.map Place.text)

/-- Why settings are refused: issues, in order, or a home directory that is not known. -/
inductive Refusal where
  | issues (first : Issue) (more : List Issue)
  | unknownHome

def unknownHomeMessage : String := "Could not determine home directory."

abbrev Checked (α : Type) := Except Refusal α

namespace Checked

def refuse {α : Type} (complaint : Complaint) (input : Datum) : Checked α :=
  .error (.issues ⟨[], complaint, input⟩ [])

def outward (step : Place) (i : Issue) : Issue := { i with place := step :: i.place }

def within {α : Type} (step : Place) : Checked α → Checked α
  | .ok a => .ok a
  | .error .unknownHome => .error .unknownHome
  | .error (.issues i l) => .error (.issues (outward step i) (l.map (outward step)))

/-- Two checks, both of which are carried out; their issues stand in order. -/
def both {α β γ : Type} (f : α → β → γ) : Checked α → Checked β → Checked γ
  | .ok a, .ok b => .ok (f a b)
  | .error .unknownHome, _ => .error .unknownHome
  | .error (.issues _ _), .error .unknownHome => .error .unknownHome
  | .error (.issues i l), .error (.issues j m) => .error (.issues i (l ++ j :: m))
  | .error (.issues i l), .ok _ => .error (.issues i l)
  | .ok _, .error r => .error r

def all {α : Type} : List (Checked α) → Checked (List α)
  | [] => .ok []
  | c :: cs => both List.cons c (all cs)

end Checked

end TraitTrace.Settings
