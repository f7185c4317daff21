import TraitTrace.Contract
import TraitTrace.Diagnostic.Basic
import TraitTrace.FieldName

/-! Facts: what a single message of a diagnostic states. A fact is anchored when it belongs to the
library's own vocabulary; one anchored fact makes its diagnostic worth holding. -/

namespace TraitTrace

/-- The header of a diagnostic: a type does not satisfy a trait. -/
structure UnsatisfiedBound where
  context : String
  traitName : String
  span : Option Location
  deriving DecidableEq, Repr

/-- A note: a trait is required for a subject. `note` is the wording and no part of the fact. -/
structure Requirement where
  subject : String
  traitName : String
  note : String
  deriving DecidableEq, Repr

/-- A field that a context does not have, with the place where the context is defined. -/
structure MissingField where
  context : String
  tag : String
  definition : Option Location
  deriving DecidableEq, Repr

/-- The same trait is implemented with other arguments. -/
structure AlternateImpl where
  context : Option String
  traitName : String
  otherArgs : List String
  deriving DecidableEq, Repr

/-- The place of the blanket rule by which a provider requires more. -/
structure BlanketRule where
  provider : String
  location : Location
  deriving DecidableEq, Repr

/-- A fact. -/
inductive Fact where
  | unsatisfied (bound : UnsatisfiedBound)
  | required (requirement : Requirement)
  | requiredBy (checkTrait : String)
  | missing (field : MissingField)
  | alternate (hint : AlternateImpl)
  | blanket (rule : BlanketRule)
  deriving DecidableEq, Repr

def AlternateImpl.isAnchored (a : AlternateImpl) : Bool :=
  TypeExpr.genericHead a.traitName == Contract.fieldAccessTrait

namespace Fact

def isAnchored : Fact → Bool
  | unsatisfied b => (Contract.classify b.traitName).isAnchor
  | required r => (Contract.classify r.traitName).isAnchor
  | requiredBy _ => false
  | missing _ => true
  | alternate a => a.isAnchored
  | blanket _ => true

/-- A fact without its wording; two facts that agree here state the same. -/
def statement : Fact → Fact
  | required r => required { r with note := "" }
  | f => f

def unsatisfied? : Fact → Option UnsatisfiedBound
  | unsatisfied b => some b
  | _ => none

def required? : Fact → Option Requirement
  | required r => some r
  | _ => none

def requiredBy? : Fact → Option String
  | requiredBy t => some t
  | _ => none

def missing? : Fact → Option MissingField
  | missing m => some m
  | _ => none

def alternate? : Fact → Option AlternateImpl
  | alternate a => some a
  | _ => none

def blanket? : Fact → Option BlanketRule
  | blanket b => some b
  | _ => none

def absorb (known : List Fact) : List Fact → List Fact
  | [] => known
  | f :: fs =>
    if known.any fun k => k.statement = f.statement then absorb known fs
    else absorb (known ++ [f]) fs

theorem absorb_append (known fs gs : List Fact) :
    absorb known (fs ++ gs) = absorb (absorb known fs) gs := by
  induction fs generalizing known with
  | nil => rfl
  | cons f fs ih =>
    rw [List.cons_append, absorb, absorb]
    split
    · exact ih known
    · exact ih (known ++ [f])

end Fact

/-- The missing field to report: the first with a known definition, else the first. -/
def primaryMissing (facts : List Fact) : Option MissingField :=
  let missing := facts.filterMap Fact.missing?
  match missing.find? fun m => m.definition.isSome with
  | some m => some m
  | none => missing.head?

end TraitTrace
