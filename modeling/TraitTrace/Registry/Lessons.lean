import TraitTrace.Chain.Basic
import TraitTrace.Contract
import TraitTrace.Registry.Basic

/-! What a chain teaches: a provider below a consumer trait ties the consumer's name to the
provider's component, and a provider step whose trait is known names the provider trait of its
component. Where the marker is not known, the one that goes with the provider trait by convention is
taken, unsurely. -/

namespace TraitTrace.Chain

def consumerLessons (s : Step) (children : List Step) : List Lesson :=
  match s.kind, s.contract with
  | .consumer, some traitText =>
    let name := TypeExpr.genericHead traitText
    children.filterMap fun child =>
      if child.kind = .provider ∧ child.context = s.context then
        match child.marker, child.providerTrait? with
        | some marker, _ => some ⟨.consumer, marker, name, .high⟩
        | none, some provider =>
          some ⟨.consumer, Contract.markerForProviderTrait provider, name, .low⟩
        | none, none => none
      else none
  | _, _ => []

def providerLessons (s : Step) : List Lesson :=
  match s.providerTrait?, s.marker with
  | some name, some marker => [⟨.provider, marker, name, .high⟩]
  | some name, none =>
    if s.status = .unsatisfied then
      [⟨.provider, Contract.markerForProviderTrait name, name, .low⟩]
    else []
  | none, _ => []

def lessons (c : Chain) : List Lesson :=
  c.steps.zipIdx.flatMap fun (s, i) =>
    consumerLessons s ((c.childrenOf i).filterMap (c.steps[·]?)) ++ providerLessons s

end TraitTrace.Chain
