import TraitTrace.Diagnostic.Encode
import TraitTrace.Report.Tree
import TraitTrace.Text.Tab

/-! Reports: diagnostics ready for output, as plain text in the compiler's layout and as compiler
diagnostics. A report that passes a diagnostic through emits it unchanged. -/

namespace TraitTrace

/-- A diagnostic of the stream with its number. -/
structure Source where
  seq : Int
  diagnostic : Diagnostic

/-- A diagnostic ready for output. -/
structure Report where
  rootCause : RootCause
  level : String
  title : String
  code : Option String
  spans : List Span
  help : List String
  tree : List TreeLine
  sources : List Source
  firstSeen : Int

def blanks (n : Nat) : String := String.ofList (List.replicate n ' ')

def padLeft (width : Nat) (s : String) : String := blanks (width - s.length) ++ s

namespace Report

def isError (r : Report) : Bool := Diagnostic.isErrorLevel r.level

def isPassThrough (r : Report) : Bool := r.rootCause = .passThrough

def gutterWidth (spans : List Span) : Nat :=
  match spans.map fun s => (toString s.lineEnd).length with
  | [] => 1
  | n :: ns => ns.foldl max n

def excerpt (width : Nat) (tabWidth : Int) (s : Span) : List String :=
  match s.lines with
  | [] => []
  | l :: _ =>
    let source := Text.expandTabs tabWidth l.text.toList
    let before := l.text.toList.take (l.highlightStart - 1).toNat
    let indent := (Text.expandTabs tabWidth before).length
    let length := (max (l.highlightEnd - l.highlightStart) 1).toNat
    let label :=
      match s.label with
      | some t => if t.isEmpty then "" else " " ++ t
      | none => ""
    [padLeft width (toString s.lineStart) ++ " | " ++ String.ofList source,
      blanks width ++ " | " ++ blanks indent ++ String.ofList (List.replicate length '^') ++ label]

def primarySpans (spans : List Span) : List Span :=
  let primary := spans.filter Span.isPrimary
  if primary.isEmpty then spans.take 1 else primary

def snippet (spans : List Span) (tabWidth : Int) : List String :=
  let primary := primarySpans spans
  match primary with
  | [] => []
  | first :: _ =>
    let width := gutterWidth spans
    let gutter := blanks width
    [gutter ++ "--> " ++ first.location.text, gutter ++ " |"] ++
      primary.flatMap (excerpt width tabWidth) ++ [gutter ++ " |"]

def header (r : Report) : String :=
  match r.code with
  | some code => if code.isEmpty then r.level else s!"{r.level}[{code}]"
  | none => r.level

/-- The help lines in the layout: the first after its mark, the others below it. -/
def helpLines (r : Report) : List String :=
  match r.help with
  | [] => []
  | first :: more =>
    let gutter := blanks (gutterWidth r.spans + 1)
    let pad := gutter ++ blanks "= help: ".length
    (gutter ++ "= help: " ++ first) :: more.map fun l => if l.isEmpty then "" else pad ++ l

def builtText (r : Report) (showSource : Bool) (tabWidth : Int) : String :=
  "\n".intercalate
    ((r.header ++ ": " ++ r.title) ::
      (if showSource then snippet r.spans tabWidth else []) ++ r.helpLines)

def plain (r : Report) (showSource : Bool) (tabWidth : Int) : String :=
  match r.isPassThrough, r.sources with
  | true, s :: _ => s.diagnostic.text
  | _, _ => r.builtText showSource tabWidth

/-- What stops the underlining of a range: a tab of more columns than 32 bits count, or an underline
longer than 64 bits count. -/
def excerptFault? (tabWidth : Int) (s : Span) : Option Fault :=
  match s.lines with
  | [] => none
  | l :: _ =>
    if tabWidth < -0x80000000 ∨ 0x7FFFFFFF < tabWidth then some .tabRange
    else if 0x7FFFFFFFFFFFFFFF < l.highlightEnd - l.highlightStart then some .lengthRange
    else none

def drawFault? (r : Report) (showSource : Bool) (tabWidth : Int) : Option Fault :=
  if showSource && !(r.isPassThrough && !r.sources.isEmpty) then
    (primarySpans r.spans).findSome? (excerptFault? tabWidth)
  else none

/-- The text of a report, unless something stops its drawing. -/
def draw (r : Report) (showSource : Bool) (tabWidth : Int) : Except Fault String :=
  match r.drawFault? showSource tabWidth with
  | some f => .error f
  | none => .ok (r.plain showSource tabWidth)

def usualTabWidth : Int := 4

def toDiagnostic (r : Report) : Diagnostic :=
  match r.isPassThrough, r.sources with
  | true, s :: _ => s.diagnostic
  | _, _ =>
    let children :=
      if r.help.isEmpty then []
      else [Diagnostic.mk "help" ("\n".intercalate r.help) none [] [] none none]
    ⟨r.level, r.title, r.code, r.spans, children,
      some (r.plain true usualTabWidth ++ "\n"), none⟩

/-- The report as a compiler diagnostic, unless something stops the drawing of the text inside. -/
def emit (r : Report) : Except Fault Diagnostic :=
  match r.drawFault? true usualTabWidth with
  | some f => .error f
  | none => .ok r.toDiagnostic

def passThrough (d : Diagnostic) (seq : Int) : Report where
  rootCause := .passThrough
  level := d.level
  title := d.message
  code := d.code
  spans := d.spans
  help := []
  tree := []
  sources := [⟨seq, d⟩]
  firstSeen := seq

end Report

end TraitTrace
