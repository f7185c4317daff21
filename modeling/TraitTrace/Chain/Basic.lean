import TraitTrace.FieldName

/-! Requirement chains: the facts of one diagnostic read as a path from the checked trait to the
unsatisfied leaf. Steps stand root first, and each names its parent by index, so that two providers
that do not wrap each other can hang below one parent. -/

namespace TraitTrace

/-- The role of a requirement. -/
inductive StepKind where
  | check
  | consumer
  | provider
  | getter
  | field
  deriving DecidableEq, Repr

def StepKind.name : StepKind → String
  | check => "check"
  | consumer => "consumer"
  | provider => "provider"
  | getter => "getter"
  | field => "field"

/-- Whether a requirement is met. An implied one lies on a failing path without being its cause. -/
inductive Status where
  | satisfied
  | implied
  | unsatisfied
  deriving DecidableEq, Repr

namespace Status

def name : Status → String
  | satisfied => "satisfied"
  | implied => "implied"
  | unsatisfied => "unsatisfied"

def rank : Status → Nat
  | satisfied => 0
  | implied => 1
  | unsatisfied => 2

def worse (a b : Status) : Status := if a.rank < b.rank then b else a

end Status

/-- One requirement. `contract` is the printed trait of a check, consumer or getter, and the
provider trait of a provider whose diagnostic names it. -/
structure Step where
  kind : StepKind
  context : Option String
  contract : Option String
  marker : Option String
  provider : Option String
  extraArgs : List String
  field : Option FieldName
  status : Status
  parent : Option Nat
  deriving DecidableEq, Repr

namespace Step

def ofKind (kind : StepKind) (context : Option String) : Step :=
  ⟨kind, context, none, none, none, [], none, .implied, none⟩

def check (context : Option String) (traitText : String) : Step :=
  { ofKind .check context with contract := some traitText }

def consumerUse (context marker : String) : Step :=
  { ofKind .consumer (some context) with marker := some marker }

def consumerTrait (context traitText : String) : Step :=
  { ofKind .consumer (some context) with contract := some traitText }

def getter (context traitText : String) : Step :=
  { ofKind .getter (some context) with contract := some traitText }

def providerUse (provider : String) (marker : String) (context : Option String)
    (extraArgs : List String) : Step :=
  { ofKind .provider context with
    marker := some marker, provider := some provider, extraArgs := extraArgs }

def fieldOf (context : String) (name : FieldName) : Step :=
  { ofKind .field (some context) with field := some name }

def providerTrait? (s : Step) : Option String :=
  if s.kind = .provider then s.contract.map TypeExpr.genericHead else none

/-- Whether `outer` is a provider that wraps `inner`: both serve the same component for the same
context with the same further arguments, and `inner` is an argument of `outer`. -/
def nests (outer inner : Step) : Bool :=
  outer.kind = .provider && inner.kind = .provider && outer.marker = inner.marker &&
    outer.context = inner.context && outer.extraArgs = inner.extraArgs &&
    match outer.provider, inner.provider with
    | some o, some i => TypeExpr.hasTypeArgument o i
    | _, _ => false

end Step

/-- The requirements of one diagnostic. -/
structure Chain where
  context : Option String
  checkName : Option String
  steps : List Step

namespace Chain

def root (c : Chain) : Option Step := c.steps.head?

def childrenOf (c : Chain) (i : Nat) : List Nat :=
  (List.range c.steps.length).filter fun j => c.steps[j]?.bind Step.parent == some i

end Chain

end TraitTrace
