import TraitTrace.Proofs.Chain.Growth

/-! A builder that checks what it relies on. Hanging a provider beside the last step, changing the
last step and hanging fields beside it all need a last step to be there. The builder of this module
reads facts as the other one does and stops where that step is missing; it never does. -/

namespace TraitTrace

/-- What stops a builder that checks itself: a fault in what it reads, or the lack of a last
step. -/
inductive Stop where
  | fault (f : Fault)
  | noLastStep

namespace Path

def besideLast : Path → Step → Except Stop Path
  | [], _ => .error .noLastStep
  | last :: p, s => .ok (beside (last :: p) s)

def changeLast (f : Step → Step) : Path → Except Stop Path
  | [] => .error .noLastStep
  | last :: p => .ok (f last :: p)

/-- Where what stands beside the last step hangs. -/
def parentOfLast : Path → Except Stop (Option Nat)
  | [] => .error .noLastStep
  | last :: _ => .ok last.parent

def checkedProvider (p : Path) (s : Step) : Except Stop Path :=
  match p.head? with
  | some last =>
    if last.kind = .provider ∧ !last.nests s then p.besideLast s else .ok (p.below s)
  | none => .ok (p.below s)

end Path

namespace Chain

open TraitTrace.Path TypeExpr

/-- A reading step of the builder. -/
def reading {α : Type} (x : Except Fault α) : Except Stop α := x.mapError Stop.fault

def checkedRequirements (checkName : Option String) (missing : Option MissingField)
    (header : Option UnsatisfiedBound) : Path → List Requirement → Except Stop Path
  | p, [] => .ok p
  | p, r :: rest =>
    match Contract.classify r.traitName with
    | .consumerUse marker =>
      checkedRequirements checkName missing header (p.below (.consumerUse r.subject marker)) rest
    | .providerUse marker context extra => do
      let p ← p.checkedProvider (.providerUse r.subject marker context extra)
      checkedRequirements checkName missing header p rest
    | .fieldAccess tag => do
      let name ← reading (FieldName.decode tag)
      checkedRequirements checkName missing header (p.below (.fieldOf r.subject name)) rest
    | .plainTrait name args =>
      if checkName = some name then checkedRequirements checkName missing header p rest
      else
        let text := Contract.traitText name args
        let step :=
          if fieldIsNext rest missing header then Step.getter r.subject text
          else Step.consumerTrait r.subject text
        checkedRequirements checkName missing header (p.below step) rest

def checkedMissing (p : Path) (m : MissingField) (name : FieldName) : Except Stop Path :=
  let alone : Path := p.below { Step.fieldOf m.context name with status := .unsatisfied }
  match p.head? with
  | some last =>
    if last.kind = .field ∧ last.context = some m.context ∧ last.field = some name then
      p.changeLast fun s => { s with status := .unsatisfied }
    else .ok alone
  | none => .ok alone

def checkedHeader (p : Path) (b : UnsatisfiedBound) : Except Stop Path :=
  let shape := Contract.classify b.traitName
  let alone : Except Stop Path :=
    reading ((headerStep b.context b.traitName shape).map fun s =>
      p.below { s with status := .unsatisfied })
  match p.head? with
  | none => alone
  | some last =>
    if isSameRequirement last b.context shape then
      p.changeLast fun s => { s with status := .unsatisfied }
    else
      match shape with
      | .plainTrait name args =>
        let text := Contract.traitText name args
        if namesProvider last b.context then
          p.changeLast fun s => { s with contract := some text, status := .unsatisfied }
        else if wrapsSubject last b.context then
          .ok (p.below { last with
            provider := some b.context, contract := some text, status := .unsatisfied })
        else
          match args with
          | first :: extra =>
            if servesContext last b.context first then
              .ok (p.below { Step.ofKind .provider (some first) with
                contract := some text, provider := some b.context, extraArgs := extra,
                status := .unsatisfied })
            else alone
          | [] => alone
      | _ => alone

def checkedSteps (facts : List Fact) (context checkName : Option String) :
    Except Stop (List Step) := do
  let missing := primaryMissing facts
  let header := (facts.filterMap Fact.unsatisfied?).head?
  let start : Path :=
    match checkName with
    | some name => Path.below [] (.check context name)
    | none => []
  let p ← checkedRequirements checkName missing header start
    (facts.filterMap Fact.required?).reverse
  match missing, header with
  | some m, _ =>
    let name ← reading (FieldName.decode m.tag)
    let p ← checkedMissing p m name
    let parent ← p.parentOfLast
    let beside ← reading (siblings m name parent (facts.filterMap Fact.alternate?))
    return p.reverse ++ beside
  | none, some b =>
    let p ← checkedHeader p b
    return p.reverse
  | none, none =>
    if p.isEmpty then return []
    else
      let p ← p.changeLast fun s => { s with status := .unsatisfied }
      return p.reverse

/-- Reads facts as a chain and checks at every use that the last step is there. -/
def checked (facts : List Fact) (context : Option String) : Except Stop Chain := do
  let context := (nonempty? context).or (rootContext facts)
  let checkName := (facts.filterMap Fact.requiredBy?).getLast?
  let steps ← checkedSteps facts context checkName
  return ⟨context, checkName, steps⟩

end Chain

end TraitTrace
