import TraitTrace.Json.Value

/-! Compiler diagnostics: a leveled message with labeled source ranges and nested notes. A
diagnostic that was decoded keeps the members it was decoded from, so that it can be emitted again
unchanged. -/

namespace TraitTrace

/-- A place in a file; lines and columns count from one. -/
structure Location where
  file : String
  line : Int
  column : Int
  deriving DecidableEq, Repr

namespace Location

def text (l : Location) : String := s!"{l.file}:{l.line}:{l.column}"

def short (l : Location) : String := s!"{l.file}:{l.line}"

end Location

/-- A source line under a range, with the columns that the range covers. -/
structure SpanLine where
  text : String
  highlightStart : Int
  highlightEnd : Int
  deriving DecidableEq, Repr

/-- A labeled source range. -/
structure Span where
  fileName : String
  lineStart : Int
  lineEnd : Int
  columnStart : Int
  columnEnd : Int
  isPrimary : Bool
  byteStart : Int
  byteEnd : Int
  label : Option String
  lines : List SpanLine
  deriving DecidableEq, Repr

def Span.location (s : Span) : Location := ⟨s.fileName, s.lineStart, s.columnStart⟩

/-- A diagnostic with its notes. `origin` holds the members it was decoded from. -/
structure Diagnostic where
  level : String
  message : String
  code : Option String
  spans : List Span
  children : List Diagnostic
  rendered : Option String
  origin : Option Json.Members
  deriving Inhabited

namespace Diagnostic

def isErrorLevel (level : String) : Bool := "error".isPrefixOf level

def isError (d : Diagnostic) : Bool := isErrorLevel d.level

def primarySpan (d : Diagnostic) : Option Span := d.spans.find? Span.isPrimary

/-- The text of a diagnostic without line feeds at its end: the compiler's rendering, or level and
message when there is none. -/
def text (d : Diagnostic) : String :=
  let shown :=
    match d.rendered with
    | some r => if r.isEmpty then s!"{d.level}: {d.message}" else r
    | none => s!"{d.level}: {d.message}"
  String.ofList (shown.toList.reverse.dropWhile (· == '\n')).reverse

end Diagnostic

end TraitTrace
