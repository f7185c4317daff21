import TraitTrace.Diagnostic.Basic

/-! Encoding of compiler diagnostics as JSON. A diagnostic that was decoded is encoded as the
members it came from; a built one is written in the compiler's shape. -/

namespace TraitTrace

def SpanLine.toJson (l : SpanLine) : Json :=
  .obj [("text", .str l.text), ("highlight_start", .int l.highlightStart),
    ("highlight_end", .int l.highlightEnd)]

def Span.toJson (s : Span) : Json :=
  .obj [("file_name", .str s.fileName), ("byte_start", .int s.byteStart),
    ("byte_end", .int s.byteEnd), ("line_start", .int s.lineStart), ("line_end", .int s.lineEnd),
    ("column_start", .int s.columnStart), ("column_end", .int s.columnEnd),
    ("is_primary", .bool s.isPrimary), ("text", .arr (s.lines.map SpanLine.toJson)),
    ("label", .ofOption s.label), ("suggested_replacement", .null),
    ("suggestion_applicability", .null), ("expansion", .null)]

namespace Diagnostic

def codeJson : Option String → Json
  | some code =>
    if code.isEmpty then .null else .obj [("code", .str code), ("explanation", .null)]
  | none => .null

def builtMembers (d : Diagnostic) (children : List Json) : Json.Members :=
  [("$message_type", .str "diagnostic"), ("message", .str d.message), ("code", codeJson d.code),
    ("level", .str d.level), ("spans", .arr (d.spans.map Span.toJson)),
    ("children", .arr children), ("rendered", .ofOption d.rendered)]

mutual

def toMembers (d : Diagnostic) : List (String × Json) :=
  match d with
  | ⟨level, message, code, spans, children, rendered, origin⟩ =>
    origin.getD (builtMembers ⟨level, message, code, spans, children, rendered, none⟩
      (toItems children))

def toItems : List Diagnostic → List Json
  | [] => []
  | d :: ds => .obj (toMembers d) :: toItems ds

end

def toJson (d : Diagnostic) : Json := .obj d.toMembers

end Diagnostic

end TraitTrace
