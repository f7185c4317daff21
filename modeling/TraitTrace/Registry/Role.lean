/-! Roles of a component's traits, and how sure a learned name is. -/

namespace TraitTrace

inductive Role where
  | consumer
  | provider
  deriving DecidableEq, Repr

def Role.word : Role → String
  | consumer => "consumer"
  | provider => "provider"

inductive Confidence where
  | low
  | high
  deriving DecidableEq, Repr

def Confidence.rank : Confidence → Nat
  | low => 1
  | high => 2

end TraitTrace
