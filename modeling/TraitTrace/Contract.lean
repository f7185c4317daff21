import TraitTrace.TypeExpr.Generic

/-! Contracts: what a trait means in context-generic code. Three traits form the library's own
vocabulary: use of a component by a context, use of a provider, and access to a field. Any other
trait is a plain one, the consumer or getter trait of some component. -/

namespace TraitTrace

inductive Contract where
  | consumerUse (marker : String)
  /-- A provider serves a component, for a context unless the list was cut short. -/
  | providerUse (marker : String) (context : Option String) (extraArgs : List String)
  | fieldAccess (tag : String)
  | plainTrait (name : String) (args : List String)
  deriving DecidableEq, Repr

namespace Contract

open TypeExpr

def consumerUseTrait : String := "CanUseComponent"

def providerUseTrait : String := "IsProviderFor"

def fieldAccessTrait : String := "HasField"

def componentSuffix : String := "Component"

def classify (traitText : String) : Contract :=
  let t := parseGeneric traitText
  match t.args with
  | [] => plainTrait t.head []
  | first :: more =>
    if t.head = consumerUseTrait then consumerUse first
    else if t.head = providerUseTrait then providerUse first more.head? (more.drop 1)
    else if t.head = fieldAccessTrait then fieldAccess first
    else plainTrait t.head (first :: more)

def isAnchor : Contract → Bool
  | plainTrait .. => false
  | _ => true

def traitText (name : String) (args : List String) : String :=
  if args.isEmpty then name else name ++ "<" ++ ", ".intercalate args ++ ">"

/-- The arguments of the provider trait itself: the context, then the extra ones. -/
def traitArgs (context : Option String) (extraArgs : List String) : List String :=
  match context with
  | some c => if c.isEmpty then extraArgs else c :: extraArgs
  | none => extraArgs

def markerForProviderTrait (providerTrait : String) : String := providerTrait ++ componentSuffix

end Contract

end TraitTrace
