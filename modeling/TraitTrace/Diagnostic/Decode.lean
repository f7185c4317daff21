import TraitTrace.Diagnostic.Basic
import TraitTrace.Fault

/-! Decoding of compiler diagnostics from JSON. A member that is missing or of the wrong kind, an
empty text where a text is needed and a zero where a position is needed take a default. Only a
scalar in the place of a list is refused. -/

namespace TraitTrace

def Json.Members.textOr (data : Json.Members) (name fallback : String) : String :=
  match (Table.get? data name).bind Json.str? with
  | some s => if s.isEmpty then fallback else s
  | none => fallback

def Json.Members.intOr (data : Json.Members) (name : String) (fallback : Int) : Int :=
  match (Table.get? data name).bind Json.int? with
  | some n => if n = 0 then fallback else n
  | none => fallback

def Json.Members.text? (data : Json.Members) (name : String) : Option String :=
  (Table.get? data name).bind Json.str?

/-- Checks that a value that is read as a list is no scalar. Absent values and texts have no items
that are objects. -/
def Json.iterable : Json → Except Fault Unit
  | .int n => if n = 0 then .ok () else .error (.notIterable .int)
  | .bool b => if b then .error (.notIterable .bool) else .ok ()
  | .float bits => if isZeroBits bits then .ok () else .error (.notIterable .float)
  | _ => .ok ()

def Json.objects (value : Option Json) : Except Fault (List Json.Members) :=
  match value with
  | none => .ok []
  | some v => do
    v.iterable
    return (v.arr?.getD []).filterMap Json.obj?

def SpanLine.ofMembers (data : Json.Members) : SpanLine where
  text := data.textOr "text" ""
  highlightStart := data.intOr "highlight_start" 1
  highlightEnd := data.intOr "highlight_end" 1

def Span.ofMembers (data : Json.Members) : Except Fault Span := do
  let lineStart := data.intOr "line_start" 1
  let columnStart := data.intOr "column_start" 1
  let lines ← Json.objects (Table.get? data "text")
  return {
    fileName := data.textOr "file_name" "<unknown>"
    lineStart
    lineEnd := data.intOr "line_end" lineStart
    columnStart
    columnEnd := data.intOr "column_end" columnStart
    isPrimary := ((Table.get? data "is_primary").map Json.isTruthy).getD false
    byteStart := data.intOr "byte_start" 0
    byteEnd := data.intOr "byte_end" 0
    label := data.text? "label"
    lines := lines.map SpanLine.ofMembers }

namespace Diagnostic

def codeOf (data : Json.Members) : Option String :=
  ((Table.get? data "code").bind Json.obj?).bind fun code => code.text? "code"

def withChildren (data : Json.Members) (spans : List Span) (children : List Diagnostic) :
    Diagnostic where
  level := data.textOr "level" "error"
  message := data.textOr "message" ""
  code := codeOf data
  spans := spans
  children := children
  rendered := data.text? "rendered"
  origin := some data

mutual

def ofMembers (data : List (String × Json)) : Except Fault Diagnostic := do
  let ranges ← Json.objects (Table.get? data "spans")
  let spans ← ranges.mapM Span.ofMembers
  let children ← childrenAmong data
  return withChildren data spans children

def childrenAmong : List (String × Json) → Except Fault (List Diagnostic)
  | [] => .ok []
  | (name, value) :: rest =>
    if name = "children" then childrenOf value else childrenAmong rest

def childrenOf : Json → Except Fault (List Diagnostic)
  | .arr items => ofItems items
  | value => (value.iterable).map fun _ => []

def ofItems : List Json → Except Fault (List Diagnostic)
  | [] => .ok []
  | .obj data :: rest => do
    let d ← ofMembers data
    let ds ← ofItems rest
    return d :: ds
  | _ :: rest => ofItems rest

end

end Diagnostic

end TraitTrace
