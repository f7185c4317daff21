import TraitTrace.Fact.Basic

/-! Root causes of a reconstructed error. -/

namespace TraitTrace

inductive RootCause where
  | unknown
  | missingField
  | missingFieldOrDerivation
  | unresolvedProvider
  | passThrough
  deriving DecidableEq, Repr

namespace RootCause

def name : RootCause → String
  | unknown => "unknown"
  | missingField => "missing_field"
  | missingFieldOrDerivation => "missing_field_or_derivation"
  | unresolvedProvider => "unresolved_provider"
  | passThrough => "pass_through"

def ofName? (s : String) : Option RootCause :=
  [unknown, missingField, missingFieldOrDerivation, unresolvedProvider, passThrough].find?
    fun c => c.name == s

theorem ofName?_name (c : RootCause) : ofName? c.name = some c := by
  cases c <;> decide

def isFieldOutcome : RootCause → Bool
  | missingField => true
  | missingFieldOrDerivation => true
  | _ => false

/-- The root cause that facts amount to. A missing field is the cause; a hint at field access for
another tag leaves open whether only the derivation is missing. -/
def ofFacts (facts : List Fact) : RootCause :=
  if (facts.filterMap Fact.missing?).isEmpty then unresolvedProvider
  else if (facts.filterMap Fact.alternate?).any AlternateImpl.isAnchored then
    missingFieldOrDerivation
  else missingField

end RootCause

end TraitTrace
