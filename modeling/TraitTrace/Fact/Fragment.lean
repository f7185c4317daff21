import TraitTrace.Fact.Basic
import TraitTrace.Text.Line
import TraitTrace.Text.Phrase
import TraitTrace.TypeExpr.Path

/-! Fragments of a diagnostic, its header and its notes, and the facts they state. Only the
compiler's standing phrases and the library's vocabulary are matched, never a name of the program
under analysis. -/

namespace TraitTrace

/-- One message of a diagnostic with the range attached to it. -/
structure Fragment where
  level : String
  message : String
  span : Option Span
  isRoot : Bool

namespace Fragment

open Text TypeExpr

def firstLine (f : Fragment) : String := Text.firstLine f.message

/-- The header of a diagnostic, then its notes in order. A note without a primary range has its
first range. -/
def ofDiagnostic (d : Diagnostic) : List Fragment :=
  ⟨d.level, d.message, d.primarySpan, true⟩ ::
    d.children.map fun c => ⟨c.level, c.message, c.primarySpan.or c.spans.head?, false⟩

/-- The bound that a header names: what stands between the first backtick and the last one that is
followed by the refusal. -/
def headerBound (f : Fragment) : Option (String × String) :=
  ((afterChars? "the trait bound `".toList f.firstLine.toList).bind fun s =>
    (beforeLast "` is not satisfied".toList s).filter (· ≠ [])).bind fun bound =>
      splitBound (stripPaths (String.ofList bound))

def requiredFor (f : Fragment) : Option (String × String) :=
  match phraseAt [.words "required for `", .name, .words "` to implement `", .name, .words "`"]
      f.firstLine with
  | some [subject, traitText] => some (stripPaths subject, stripPaths traitText)
  | _ => none

def notImplemented (text : String) : Option (String × String) :=
  match phraseIn [.words "the trait `", .name, .words "` is not implemented for `", .name,
      .words "`"] text with
  | some [traitText, subject] => some (traitText, subject)
  | _ => none

def butImplemented (text : String) : Option String :=
  (phraseIn [.words "but trait `", .name, .words "` is implemented for it"] text).bind List.head?

def otherTypes (text : String) : Option String :=
  (phraseIn [.words "the following other types implement trait `", .name, .words "`"] text).bind
    List.head?

def unsatisfiedBound (f : Fragment) : Option Fact :=
  if f.isRoot then
    f.headerBound.map fun (context, traitText) =>
      .unsatisfied ⟨context, traitText, f.span.map Span.location⟩
  else none

def requirement (f : Fragment) : Option Fact :=
  if f.isRoot then none
  else f.requiredFor.map fun (subject, traitText) =>
    .required ⟨subject, traitText, f.firstLine⟩

def requiredByBound (f : Fragment) : Option Fact :=
  if f.isRoot then none
  else
    ((phraseAt [.words "required by a bound in `", .name, .words "`"] f.firstLine).bind
      List.head?).map fun name => .requiredBy (genericHead (stripPaths name))

/-- A field access that is not implemented: the bound of a header, or the implementation that a note
misses before it names another one. A note's range is where the context is defined. -/
def missingField (f : Fragment) : Option Fact := do
  let (context, traitText) ←
    if f.isRoot then f.headerBound
    else
      (notImplemented (String.ofList (beforeFirst "but trait".toList f.message.toList))).map
        fun (traitText, subject) => (stripPaths subject, stripPaths traitText)
  match Contract.classify traitText with
  | .fieldAccess _ =>
    let tag ← FieldName.tag? traitText
    return .missing ⟨context, tag, if f.isRoot then none else f.span.map Span.location⟩
  | _ => none

def alternateImpl (f : Fragment) : Option Fact :=
  if f.isRoot then none
  else
    let hint (context : Option String) (traitText : String) : Fact :=
      let t := parseGeneric (stripPaths traitText)
      .alternate ⟨context, t.head, t.args⟩
    match butImplemented f.message with
    | some traitText =>
      some (hint ((notImplemented f.message).map fun (_, subject) => stripPaths subject) traitText)
    | none => (otherTypes f.message).map (hint none)

def blanketRule (f : Fragment) : Option Fact := do
  if f.isRoot then none
  else
    let span ← f.span
    let (subject, traitText) ← f.requiredFor
    match Contract.classify traitText with
    | .providerUse .. => return .blanket ⟨subject, span.location⟩
    | _ => none

def findings (f : Fragment) : List (Option Fact) :=
  [f.unsatisfiedBound, f.requirement, f.requiredByBound, f.missingField, f.alternateImpl,
    f.blanketRule]

def facts (f : Fragment) : List Fact := f.findings.filterMap id

end Fragment

def Diagnostic.facts (d : Diagnostic) : List Fact :=
  (Fragment.ofDiagnostic d).flatMap Fragment.facts

end TraitTrace
