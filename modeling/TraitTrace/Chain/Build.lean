import TraitTrace.Chain.Basic
import TraitTrace.Fact.Basic

/-! Building a chain from facts. The compiler lists requirement notes deepest first; a chain
reverses them. A path under construction holds its steps last first, so that its head is the step to
which the next deeper requirement attaches. -/

namespace TraitTrace

/-- The context of a diagnostic: the subject of the outermost use of a component, else that of the
header's bound, else that of a missing field. -/
def rootContext (facts : List Fact) : Option String :=
  let uses := (facts.filterMap Fact.required?).filter fun r =>
    match Contract.classify r.traitName with
    | .consumerUse _ => true
    | _ => false
  match uses.getLast? with
  | some r => some r.subject
  | none =>
    match (facts.filterMap Fact.unsatisfied?).head? with
    | some b => some b.context
    | none => (facts.filterMap Fact.missing?).head?.map MissingField.context

abbrev Path := List Step

namespace Path

open TypeExpr

def below (p : Path) (s : Step) : Path :=
  { s with parent := if p.isEmpty then none else some (p.length - 1) } :: p

def beside (p : Path) (s : Step) : Path :=
  { s with parent := p.head?.bind Step.parent } :: p

/-- Attaches a provider: below the last step, or beside it when that is a provider which does not
wrap the new one. -/
def addProvider (p : Path) (s : Step) : Path :=
  match p with
  | [] => below p s
  | last :: _ => if last.kind = .provider ∧ !last.nests s then beside p s else below p s

def mapLast (f : Step → Step) : Path → Path
  | [] => []
  | last :: p => f last :: p

def markUnsatisfied (p : Path) : Path := p.mapLast fun s => { s with status := .unsatisfied }

end Path

namespace Chain

open TypeExpr

def fieldIsNext (rest : List Requirement) (missing : Option MissingField)
    (header : Option UnsatisfiedBound) : Bool :=
  match rest with
  | r :: _ =>
    match Contract.classify r.traitName with
    | .fieldAccess _ => true
    | _ => false
  | [] =>
    missing.isSome ||
      match header with
      | some b => genericHead b.traitName == Contract.fieldAccessTrait
      | none => false

/-- Attaches requirements, outermost first. A plain trait is a getter when a field comes next and a
consumer otherwise; the check trait itself is left out. -/
def addRequirements (checkName : Option String) (missing : Option MissingField)
    (header : Option UnsatisfiedBound) : Path → List Requirement → Except Fault Path
  | p, [] => .ok p
  | p, r :: rest =>
    match Contract.classify r.traitName with
    | .consumerUse marker =>
      addRequirements checkName missing header (p.below (.consumerUse r.subject marker)) rest
    | .providerUse marker context extra =>
      addRequirements checkName missing header
        (p.addProvider (.providerUse r.subject marker context extra)) rest
    | .fieldAccess tag => do
      let name ← FieldName.decode tag
      addRequirements checkName missing header (p.below (.fieldOf r.subject name)) rest
    | .plainTrait name args =>
      if checkName = some name then addRequirements checkName missing header p rest
      else
        let text := Contract.traitText name args
        let step :=
          if fieldIsNext rest missing header then Step.getter r.subject text
          else Step.consumerTrait r.subject text
        addRequirements checkName missing header (p.below step) rest

def addMissing (p : Path) (m : MissingField) (name : FieldName) : Path :=
  match p.head? with
  | some last =>
    if last.kind = .field ∧ last.context = some m.context ∧ last.field = some name then
      p.markUnsatisfied
    else p.below { Step.fieldOf m.context name with status := .unsatisfied }
  | none => p.below { Step.fieldOf m.context name with status := .unsatisfied }

def siblingName (m : MissingField) (name : FieldName) (a : AlternateImpl) :
    Except Fault (Option FieldName) :=
  match a.context, a.otherArgs with
  | some context, tag :: _ =>
    if a.isAnchored && sameType context m.context then
      (FieldName.decode tag).map fun other => if other = name then none else some other
    else .ok none
  | _, _ => .ok none

def siblings (m : MissingField) (name : FieldName) (parent : Option Nat) :
    List AlternateImpl → Except Fault (List Step)
  | [] => .ok []
  | a :: rest => do
    let other ← siblingName m name a
    let more ← siblings m name parent rest
    match other with
    | some other =>
      return { Step.fieldOf m.context other with status := .satisfied, parent := parent } :: more
    | none => return more

def headerStep (subject traitText : String) : Contract → Except Fault Step
  | .consumerUse marker => .ok (.consumerUse subject marker)
  | .providerUse marker context extra => .ok (.providerUse subject marker context extra)
  | .fieldAccess tag => (FieldName.decode tag).map (Step.fieldOf subject)
  | .plainTrait _ _ => .ok (.consumerTrait subject traitText)

def sameAs (given : Option String) (other : String) : Bool :=
  match given with
  | some t => sameType t other
  | none => false

def isSameRequirement (s : Step) (subject : String) : Contract → Bool
  | .consumerUse marker =>
    s.kind = .consumer && s.marker = some marker && sameAs s.context subject
  | .providerUse marker _ _ =>
    s.kind = .provider && s.marker = some marker && sameAs s.provider subject
  | .plainTrait name args =>
    (s.kind = .consumer || s.kind = .getter) &&
      s.contract = some (Contract.traitText name args) && sameAs s.context subject
  | .fieldAccess _ => false

def namesProvider (last : Step) (subject : String) : Bool :=
  last.kind = .provider && sameAs last.provider subject

def wrapsSubject (last : Step) (subject : String) : Bool :=
  last.kind = .provider &&
    match last.provider with
    | some p => hasTypeArgument p subject
    | none => false

/-- Whether a header reads `Provider: ProviderTrait<Context, ..>` for the context of the last
step. -/
def servesContext (last : Step) (subject argument : String) : Bool :=
  match last.context with
  | some context => sameType argument context && !sameType subject context
  | none => false

def addHeader (p : Path) (b : UnsatisfiedBound) : Except Fault Path :=
  let shape := Contract.classify b.traitName
  let alone : Except Fault Path :=
    (headerStep b.context b.traitName shape).map fun s =>
      p.below { s with status := .unsatisfied }
  match p.head? with
  | none => alone
  | some last =>
    if isSameRequirement last b.context shape then .ok p.markUnsatisfied
    else
      match shape with
      | .plainTrait name args =>
        let text := Contract.traitText name args
        if namesProvider last b.context then
          .ok (p.mapLast fun s => { s with contract := some text, status := .unsatisfied })
        else if wrapsSubject last b.context then
          .ok (p.below { last with
            provider := some b.context, contract := some text, status := .unsatisfied })
        else
          match args with
          | first :: extra =>
            if servesContext last b.context first then
              .ok (p.below { Step.ofKind .provider (some first) with
                contract := some text, provider := some b.context, extraArgs := extra,
                status := .unsatisfied })
            else alone
          | [] => alone
      | _ => alone

/-- The path of facts, with its end marked: the missing field with the fields beside it, else the
header's bound, else the last requirement. -/
def stepsOf (facts : List Fact) (context checkName : Option String) : Except Fault (List Step) := do
  let missing := primaryMissing facts
  let header := (facts.filterMap Fact.unsatisfied?).head?
  let start : Path :=
    match checkName with
    | some name => Path.below [] (.check context name)
    | none => []
  let p ← addRequirements checkName missing header start (facts.filterMap Fact.required?).reverse
  match missing, header with
  | some m, _ =>
    let name ← FieldName.decode m.tag
    let p := addMissing p m name
    let beside ← siblings m name (p.head?.bind Step.parent) (facts.filterMap Fact.alternate?)
    return p.reverse ++ beside
  | none, some b =>
    let p ← addHeader p b
    return p.reverse
  | none, none => return p.markUnsatisfied.reverse

def nonempty? (s : Option String) : Option String := s.filter fun t => !t.isEmpty

/-- Reads the facts of one diagnostic as a chain; the context is that of its error, or read off the
facts when it is not known. -/
def ofFacts (facts : List Fact) (context : Option String) : Except Fault Chain := do
  let context := (nonempty? context).or (rootContext facts)
  let checkName := (facts.filterMap Fact.requiredBy?).getLast?
  let steps ← stepsOf facts context checkName
  return ⟨context, checkName, steps⟩

end Chain

end TraitTrace
