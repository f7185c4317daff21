import TraitTrace.Diagnostic.Decode
import TraitTrace.Diagnostic.Encode
import TraitTrace.Json.Parser
import TraitTrace.Text.Blank

/-! Messages of a build stream. Each line is one JSON object with a reason, and only compiler
messages carry a diagnostic; a bare diagnostic stands for itself. Every other line is kept as it is,
so that it can be echoed. -/

namespace TraitTrace

structure Message where
  line : String
  reason : Option String
  envelope : Option Json.Members
  diagnostic : Option Diagnostic
  parseError : Option String

namespace Message

def compilerMessage : String := "compiler-message"

def plain (line : String) (parseError : Option String) : Message :=
  ⟨line, none, none, none, parseError⟩

def isCompilerMessage (m : Message) : Bool := m.diagnostic.isSome

def diagnosticMembers (envelope : Json.Members) : Option Json.Members :=
  match envelope.text? "reason" with
  | some reason =>
    if reason = compilerMessage then (Table.get? envelope "message").bind Json.obj? else none
  | none => if Table.has envelope "$message_type" then some envelope else none

def ofEnvelope (line : String) (envelope : Json.Members) : Except Fault Message := do
  let diagnostic ← (diagnosticMembers envelope).mapM Diagnostic.ofMembers
  return ⟨line, envelope.text? "reason", some envelope, diagnostic, none⟩

/-- Reads one line, with room for arrays and objects in each other. What is no JSON object carries the
error or nothing; a numeral that is too long, nesting that is too deep, or a scalar in the place of
a list is a fault. -/
def parseWithin (room : Nat) (line : String) : Except Fault Message :=
  let line := String.ofList (Text.trimRight (fun c => c == '\r' || c == '\n') line.toList)
  if (Text.trimLeft Text.isBlank line.toList).head? = some '{' then
    match Json.parseWithin room line with
    | .ok (.obj envelope) => ofEnvelope line envelope
    | .ok _ => .ok (plain line (some "message is not a JSON object"))
    | .error (.flaw what position row column) =>
      .ok (plain line (some ("JSON parse error: " ++ Json.flawText what position row column)))
    | .error (.longNumeral digits) => .error (.longNumeral digits)
    | .error (.tooDeep what) => .error (.deepNesting what)
  else .ok (plain line none)

def parse (line : String) : Except Fault Message := parseWithin Json.maxNesting line

def parseStream (lines : List String) : Except Fault (List Message) :=
  (lines.filter fun l => !Text.isBlankText l).mapM parse

def withDiagnostic (m : Message) (d : Diagnostic) : Json.Members :=
  let envelope : Json.Members :=
    match m.envelope with
    | some (first :: more) => first :: more
    | _ => [("reason", .str compilerMessage)]
  Table.set envelope "message" d.toJson

end Message

end TraitTrace
