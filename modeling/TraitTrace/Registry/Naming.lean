import TraitTrace.Contract
import TraitTrace.Registry.Basic

/-! Names for the traits of a component: what the registry has learned; for a provider trait, the
marker without its suffix; otherwise prose that names the marker. -/

namespace TraitTrace

/-- A name for a trait. A generic one is prose with its quotes already in it. -/
structure ContractName where
  text : String
  isGeneric : Bool
  deriving DecidableEq, Repr

def ContractName.display (n : ContractName) : String :=
  if n.isGeneric then n.text else s!"`{n.text}`"

def suffixStripped? (marker : String) : Option String :=
  let head := (TypeExpr.genericHead marker).toList
  let suffix := Contract.componentSuffix.toList
  if suffix.length < head.length ∧ suffix.isSuffixOf head then
    some (String.ofList (head.take (head.length - suffix.length)))
  else none

def genericLabel (marker : String) : Role → String
  | .provider => s!"provider trait for `{marker}`"
  | .consumer => s!"consumer trait of `{marker}`"

namespace Registry

def resolve (r : Registry) (role : Role) (marker : String) : ContractName :=
  let known :=
    match role with
    | .provider => (r.name? .provider marker).or (suffixStripped? marker)
    | .consumer => r.name? .consumer marker
  match known with
  | some name => ⟨name, false⟩
  | none => ⟨genericLabel marker role, true⟩

end Registry

end TraitTrace
